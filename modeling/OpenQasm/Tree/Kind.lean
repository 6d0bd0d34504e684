import OpenQasm.Literal.Basic
import OpenQasm.Tree.Operator

/-!
# Kinds of nodes

What a node of the syntax tree is, with its children given by references of any type: ids within
one tree, ids with their nodes while a tree is built, or trees again. `slots` lists the children in
the order of the program text, each with the place that it takes, which limits what it may be.
-/

namespace OpenQasm

/-- The id of a node in its tree. -/
structure NodeId where
  index : Nat
deriving DecidableEq, Repr, Inhabited

namespace NodeId

protected def toString (id : NodeId) : String := s!"#{id.index}"

instance : ToString NodeId := ⟨NodeId.toString⟩

end NodeId

/-- What a node is, with references `ι` to its children. -/
inductive NodeKind (ι : Type) where
  | program (items : List ι)
  | versionPragma (version : Version)
  /-- An include statement; `items` are the statements of the included file once it is merged. -/
  | includeFile (path : String) (items : List ι)
  /-- An include statement that leads to no file. -/
  | includeError (path : String)
  | calibrationGrammar (name : String)
  | pragma (content : String)
  | annotationLine (keyword : String) (content : Option String)
  | scope (items : List ι)
  | qubitDecl (name : ι) (size : Option ι)
  | registerDecl (register : RegisterKind) (name : ι) (size : Option ι)
  | classicalDecl (type name : ι) (init : Option ι)
  | constDecl (type name init : ι)
  | ioDecl (direction : Direction) (type name : ι)
  | aliasDecl (name : ι) (parts : List ι)
  | gateDef (name : ι) (params qubits : List ι) (body : ι)
  | subroutineDef (name : ι) (params : List ι) (returnType : Option ι) (body : ι)
  | externDecl (name : ι) (params : List ι) (returnType : Option ι)
  /-- A gate of version 2 without a body. -/
  | opaqueDecl (name : ι) (params qubits : List ι)
  /-- A parameter of a subroutine with its type. -/
  | param (type name : ι)
  | gateCall (modifiers : List ι) (callee : ι) (args : List ι) (duration : Option ι)
      (operands : List ι)
  | gateModifier (modifier : ModifierKind) (arg : Option ι)
  /-- A measurement as a statement, perhaps with a target. -/
  | measureArrow (measurement : ι) (target : Option ι)
  | reset (operand : ι)
  | barrier (operands : List ι)
  | delay (duration : ι) (operands : List ι)
  | box (duration : Option ι) (body : ι)
  | nop (operands : List ι)
  | assignment (target : ι) (op : AssignOp) (value : ι)
  | exprStmt (expr : ι)
  | returnStmt (value : Option ι)
  | breakStmt
  | continueStmt
  | endStmt
  | ifStmt (condition thenBranch : ι) (elseBranch : Option ι)
  | forStmt (type : Option ι) (var iterable body : ι)
  | whileStmt (condition body : ι)
  | switchStmt (subject : ι) (cases : List ι)
  | caseClause (values : List ι) (body : ι)
  | defaultClause (body : ι)
  /-- A calibration block with its body as text. -/
  | cal (body : String)
  /-- A calibration definition with its signature and its body as text. -/
  | defcal (target signature body : String)
  | scalarType (scalar : ScalarKind) (designator : Option ι)
  | complexType (component : Option ι)
  | qubitType (size : Option ι)
  | registerType (register : RegisterKind) (size : Option ι)
  | arrayType (element : ι) (dims : List ι)
  /-- An array by reference, with its dimensions or their number. -/
  | arrayRefType (isMutable : Bool) (element : ι) (dims : List ι) (rank : Option ι)
  | identifier (name : String)
  | hardwareQubit (number : Nat)
  | literal (value : Literal)
  | boolean (value : Bool)
  | bitstring (bits : String)
  | constant (constant : MathConstant)
  | paren (inner : ι)
  | unary (op : UnaryOp) (operand : ι)
  | binary (op : BinaryOp) (lhs rhs : ι)
  | cast (type operand : ι)
  | call (callee : ι) (args : List ι)
  | index (base : ι) (items : List ι)
  | range (start step stop : Option ι)
  | set (elements : List ι)
  | arrayLiteral (elements : List ι)
  | durationOf (body : ι)
  | measure (operand : ι)
  /-- What stands for text that could not be parsed. -/
  | error
deriving Repr

/-- The broad classes of nodes. -/
inductive Category where
  | statement
  | expression
  | type
  /-- Nodes that stand only within nodes of certain kinds. -/
  | part
  | root
  /-- What stands for unparsed text fits anywhere. -/
  | error
deriving DecidableEq, Repr

/-- The place that a child takes in its parent. -/
inductive Slot where
  | statement
  | expression
  | type
  | name
  | block
  | indexItem
  | operand
  | parameter
  | modifier
  | measurement
  | switchCase
deriving DecidableEq, Repr

namespace NodeKind

/-- The same kind with each reference to a child replaced. -/
def map {ι κ : Type} (f : ι → κ) : NodeKind ι → NodeKind κ
  | program items => program (items.map f)
  | versionPragma version => versionPragma version
  | includeFile path items => includeFile path (items.map f)
  | includeError path => includeError path
  | calibrationGrammar name => calibrationGrammar name
  | pragma content => pragma content
  | annotationLine keyword content => annotationLine keyword content
  | scope items => scope (items.map f)
  | qubitDecl name size => qubitDecl (f name) (size.map f)
  | registerDecl register name size => registerDecl register (f name) (size.map f)
  | classicalDecl type name init => classicalDecl (f type) (f name) (init.map f)
  | constDecl type name init => constDecl (f type) (f name) (f init)
  | ioDecl direction type name => ioDecl direction (f type) (f name)
  | aliasDecl name parts => aliasDecl (f name) (parts.map f)
  | gateDef name params qubits body =>
    gateDef (f name) (params.map f) (qubits.map f) (f body)
  | subroutineDef name params returnType body =>
    subroutineDef (f name) (params.map f) (returnType.map f) (f body)
  | externDecl name params returnType =>
    externDecl (f name) (params.map f) (returnType.map f)
  | opaqueDecl name params qubits => opaqueDecl (f name) (params.map f) (qubits.map f)
  | param type name => param (f type) (f name)
  | gateCall modifiers callee args duration operands =>
    gateCall (modifiers.map f) (f callee) (args.map f) (duration.map f) (operands.map f)
  | gateModifier modifier arg => gateModifier modifier (arg.map f)
  | measureArrow measurement target => measureArrow (f measurement) (target.map f)
  | reset operand => reset (f operand)
  | barrier operands => barrier (operands.map f)
  | delay duration operands => delay (f duration) (operands.map f)
  | box duration body => box (duration.map f) (f body)
  | nop operands => nop (operands.map f)
  | assignment target op value => assignment (f target) op (f value)
  | exprStmt expr => exprStmt (f expr)
  | returnStmt value => returnStmt (value.map f)
  | breakStmt => breakStmt
  | continueStmt => continueStmt
  | endStmt => endStmt
  | ifStmt condition thenBranch elseBranch =>
    ifStmt (f condition) (f thenBranch) (elseBranch.map f)
  | forStmt type var iterable body => forStmt (type.map f) (f var) (f iterable) (f body)
  | whileStmt condition body => whileStmt (f condition) (f body)
  | switchStmt subject cases => switchStmt (f subject) (cases.map f)
  | caseClause values body => caseClause (values.map f) (f body)
  | defaultClause body => defaultClause (f body)
  | cal body => cal body
  | defcal target signature body => defcal target signature body
  | scalarType scalar designator => scalarType scalar (designator.map f)
  | complexType component => complexType (component.map f)
  | qubitType size => qubitType (size.map f)
  | registerType register size => registerType register (size.map f)
  | arrayType element dims => arrayType (f element) (dims.map f)
  | arrayRefType isMutable element dims rank =>
    arrayRefType isMutable (f element) (dims.map f) (rank.map f)
  | identifier name => identifier name
  | hardwareQubit number => hardwareQubit number
  | literal value => literal value
  | boolean value => boolean value
  | bitstring bits => bitstring bits
  | constant c => constant c
  | paren inner => paren (f inner)
  | unary op operand => unary op (f operand)
  | binary op lhs rhs => binary op (f lhs) (f rhs)
  | cast type operand => cast (f type) (f operand)
  | call callee args => call (f callee) (args.map f)
  | index base items => index (f base) (items.map f)
  | range start step stop => range (start.map f) (step.map f) (stop.map f)
  | set elements => set (elements.map f)
  | arrayLiteral elements => arrayLiteral (elements.map f)
  | durationOf body => durationOf (f body)
  | measure operand => measure (f operand)
  | error => error

section
variable {ι : Type}

/-- The class that a kind belongs to. -/
def category : NodeKind ι → Category
  | program _ => .root
  | error => .error
  | scalarType .. | complexType _ | qubitType _ | registerType .. | arrayType .. |
    arrayRefType .. => .type
  | identifier _ | hardwareQubit _ | literal _ | boolean _ | bitstring _ | constant _ | paren _ |
    unary .. | binary .. | cast .. | call .. | index .. | arrayLiteral _ | durationOf _ |
    measure _ => .expression
  | gateModifier .. | param .. | caseClause .. | defaultClause _ | range .. | set _ => .part
  | _ => .statement

def isStatement (kind : NodeKind ι) : Bool :=
  kind.category == .statement || kind.category == .error

def isExpression (kind : NodeKind ι) : Bool :=
  kind.category == .expression || kind.category == .error

def isType (kind : NodeKind ι) : Bool :=
  kind.category == .type || kind.category == .error

end

end NodeKind

/-- Whether a node of the given kind may take the place. An error may take any. -/
def Slot.accepts {ι : Type} (slot : Slot) (kind : NodeKind ι) : Bool :=
  match slot, kind with
  | _, .error => true
  | .statement, kind => kind.isStatement
  | .expression, kind => kind.isExpression
  | .type, kind => kind.isType
  | .name, .identifier _ => true
  | .block, .scope _ => true
  | .indexItem, .range .. => true
  | .indexItem, .set _ => true
  | .indexItem, kind => kind.isExpression
  | .operand, .identifier _ => true
  | .operand, .hardwareQubit _ => true
  | .operand, .index .. => true
  | .parameter, .param .. => true
  | .parameter, .registerDecl .. => true
  | .modifier, .gateModifier .. => true
  | .measurement, .measure _ => true
  | .switchCase, .caseClause .. => true
  | .switchCase, .defaultClause _ => true
  | _, _ => false

namespace NodeKind

section
variable {ι : Type}

/-- References that all take the same place. -/
def each (slot : Slot) (children : List ι) : List (Slot × ι) := children.map (slot, ·)

/-- A reference, if there is one, with its place. -/
def maybe (slot : Slot) (child : Option ι) : List (Slot × ι) := each slot child.toList

/-- The children in the order of the program text, each with the place that it takes. -/
def slots : NodeKind ι → List (Slot × ι)
  | program items | includeFile _ items | scope items => each .statement items
  | versionPragma _ | includeError _ | calibrationGrammar _ | pragma _ | annotationLine .. => []
  | qubitDecl name size => maybe .expression size ++ [(.name, name)]
  | registerDecl _ name size => (.name, name) :: maybe .expression size
  | classicalDecl type name init => (.type, type) :: (.name, name) :: maybe .expression init
  | constDecl type name init => [(.type, type), (.name, name), (.expression, init)]
  | ioDecl _ type name | param type name => [(.type, type), (.name, name)]
  | aliasDecl name parts => (.name, name) :: each .expression parts
  | gateDef name params qubits body =>
    (.name, name) :: each .name params ++ each .name qubits ++ [(.block, body)]
  | subroutineDef name params returnType body =>
    (.name, name) :: each .parameter params ++ maybe .type returnType ++ [(.block, body)]
  | externDecl name params returnType =>
    (.name, name) :: each .type params ++ maybe .type returnType
  | opaqueDecl name params qubits => (.name, name) :: each .name params ++ each .name qubits
  | gateCall modifiers callee args duration operands =>
    each .modifier modifiers ++ (.name, callee) :: each .expression args ++
      maybe .expression duration ++ each .operand operands
  | gateModifier _ arg => maybe .expression arg
  | measureArrow measurement target => (.measurement, measurement) :: maybe .operand target
  | reset operand | measure operand => [(.operand, operand)]
  | barrier operands | nop operands => each .operand operands
  | delay duration operands => (.expression, duration) :: each .operand operands
  | box duration body => maybe .expression duration ++ [(.block, body)]
  | assignment target _ value => [(.operand, target), (.expression, value)]
  | exprStmt expr => [(.expression, expr)]
  | returnStmt value => maybe .expression value
  | breakStmt | continueStmt | endStmt => []
  | ifStmt condition thenBranch elseBranch =>
    (.expression, condition) :: (.statement, thenBranch) :: maybe .statement elseBranch
  | forStmt type var iterable body =>
    maybe .type type ++ [(.name, var), (.indexItem, iterable), (.statement, body)]
  | whileStmt condition body => [(.expression, condition), (.statement, body)]
  | switchStmt subject cases => (.expression, subject) :: each .switchCase cases
  | caseClause values body => each .expression values ++ [(.block, body)]
  | defaultClause body => [(.block, body)]
  | cal _ | defcal .. => []
  | scalarType _ designator => maybe .expression designator
  | complexType component => maybe .type component
  | qubitType size | registerType _ size => maybe .expression size
  | arrayType element dims => (.type, element) :: each .expression dims
  | arrayRefType _ element dims rank =>
    (.type, element) :: each .expression dims ++ maybe .expression rank
  | identifier _ | hardwareQubit _ | literal _ | boolean _ | bitstring _ | constant _ => []
  | paren inner => [(.expression, inner)]
  | unary _ operand => [(.expression, operand)]
  | binary _ lhs rhs => [(.expression, lhs), (.expression, rhs)]
  | cast type operand => [(.type, type), (.expression, operand)]
  | call callee args => (.name, callee) :: each .expression args
  | index base items => (.expression, base) :: each .indexItem items
  | range start step stop =>
    maybe .expression start ++ maybe .expression step ++ maybe .expression stop
  | set elements | arrayLiteral elements => each .expression elements
  | durationOf body => [(.block, body)]
  | error => []

/-- The children in the order of the program text. -/
def children (kind : NodeKind ι) : List ι := kind.slots.map Prod.snd

/-- The name of the kind in printed trees. -/
def tag : NodeKind ι → String
  | program _ => "Program"
  | versionPragma _ => "VersionPragma"
  | includeFile .. => "Include"
  | includeError _ => "IncludeError"
  | calibrationGrammar _ => "CalibrationGrammar"
  | pragma _ => "Pragma"
  | annotationLine .. => "Annotation"
  | scope _ => "Scope"
  | qubitDecl .. => "QubitDecl"
  | registerDecl .. => "RegisterDecl"
  | classicalDecl .. => "ClassicalDecl"
  | constDecl .. => "ConstDecl"
  | ioDecl .. => "IoDecl"
  | aliasDecl .. => "AliasDecl"
  | gateDef .. => "GateDef"
  | subroutineDef .. => "SubroutineDef"
  | externDecl .. => "ExternDecl"
  | opaqueDecl .. => "OpaqueDecl"
  | param .. => "Param"
  | gateCall .. => "GateCall"
  | gateModifier .. => "GateModifier"
  | measureArrow .. => "MeasureArrow"
  | reset _ => "Reset"
  | barrier _ => "Barrier"
  | delay .. => "Delay"
  | box .. => "Box"
  | nop _ => "Nop"
  | assignment .. => "Assignment"
  | exprStmt _ => "ExprStmt"
  | returnStmt _ => "Return"
  | breakStmt => "Break"
  | continueStmt => "Continue"
  | endStmt => "End"
  | ifStmt .. => "If"
  | forStmt .. => "For"
  | whileStmt .. => "While"
  | switchStmt .. => "Switch"
  | caseClause .. => "Case"
  | defaultClause _ => "Default"
  | cal _ => "Cal"
  | defcal .. => "Defcal"
  | scalarType .. => "ScalarType"
  | complexType _ => "ComplexType"
  | qubitType _ => "QubitType"
  | registerType .. => "RegisterType"
  | arrayType .. => "ArrayType"
  | arrayRefType .. => "ArrayRefType"
  | identifier _ => "Identifier"
  | hardwareQubit _ => "HardwareQubit"
  | literal _ => "Literal"
  | boolean _ => "Bool"
  | bitstring _ => "Bitstring"
  | constant _ => "Constant"
  | paren _ => "Paren"
  | unary .. => "Unary"
  | binary .. => "Binary"
  | cast .. => "Cast"
  | call .. => "Call"
  | index .. => "Index"
  | range .. => "Range"
  | set _ => "Set"
  | arrayLiteral _ => "ArrayLiteral"
  | durationOf _ => "DurationOf"
  | measure _ => "Measure"
  | error => "Error"

end

/-! ## Replacing references -/

section
variable {ι κ : Type}

theorem each_map (f : ι → κ) (slot : Slot) (children : List ι) :
    each slot (children.map f) = (each slot children).map fun (s, c) => (s, f c) := by
  simp [each]

theorem maybe_map (f : ι → κ) (slot : Slot) (child : Option ι) :
    maybe slot (child.map f) = (maybe slot child).map fun (s, c) => (s, f c) := by
  cases child <;> rfl

/-- Replacing the references keeps the places of the children. -/
theorem slots_map (f : ι → κ) (kind : NodeKind ι) :
    (kind.map f).slots = kind.slots.map fun (s, c) => (s, f c) := by
  cases kind <;> simp [map, slots, each_map, maybe_map]

@[simp] theorem children_map (f : ι → κ) (kind : NodeKind ι) :
    (kind.map f).children = kind.children.map f := by
  simp [children, slots_map, Function.comp_def]

/-- The children of a program are its statements. -/
theorem children_program (items : List ι) : (program items).children = items := by
  simp [children, slots, each, Function.comp_def]

/-- So are those of an include statement. -/
theorem children_includeFile (path : String) (items : List ι) :
    (includeFile path items).children = items :=
  children_program items

@[simp] theorem tag_map (f : ι → κ) (kind : NodeKind ι) : (kind.map f).tag = kind.tag := by
  cases kind <;> rfl

@[simp] theorem category_map (f : ι → κ) (kind : NodeKind ι) :
    (kind.map f).category = kind.category := by
  cases kind <;> rfl

/-- What may take a place does not depend on the references. -/
@[simp] theorem accepts_map (f : ι → κ) (slot : Slot) (kind : NodeKind ι) :
    slot.accepts (kind.map f) = slot.accepts kind := by
  cases kind <;> cases slot <;> rfl

end

end NodeKind

end OpenQasm
