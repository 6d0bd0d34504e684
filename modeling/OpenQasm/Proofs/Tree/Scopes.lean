import OpenQasm.Program.Declarations

/-!
# Scopes of a tree

Which nodes of a tree open scopes, and what is declared in each of them. The names that are declared
again are read off the scopes, with nothing known of how the tree was parsed.
-/

namespace OpenQasm

/-- A name with the span of the identifier that declares it. -/
abbrev Declaration := String × Span

/-- What is to be reported about declarations that follow those of `before` in one scope: a report
for each whose name is declared already, with a label at the first declaration of this name. -/
def redeclarations (before : List Declaration) : List Declaration → List Diagnostic
  | [] => []
  | (name, span) :: after =>
    ((before.lookup name).map (Grammar.redeclared name span)).toList ++
      redeclarations (before ++ [(name, span)]) after

/-- One declaration repeats nothing. -/
theorem redeclarations_toList (declaration : Option Declaration) :
    redeclarations [] declaration.toList = [] := by
  cases declaration <;> rfl

/-- The parameters of a subroutine. -/
def NodeKind.parameters {ι : Type} : NodeKind ι → List ι
  | .subroutineDef _ params _ _ => params
  | _ => []

/-- The name that the parameter of a subroutine declares. -/
def NodeKind.parameterName? {ι : Type} : NodeKind ι → Option ι
  | .param _ name | .registerDecl _ name _ => some name
  | _ => none

namespace Tree

variable (tree : Tree)

/-- The name that an identifier spells, and where. -/
def name? (id : NodeId) : Option Declaration := do
  let node ← tree.node? id
  match node.kind with
  | .identifier text => return (text, node.span)
  | _ => none

/-- The name that a parameter declares, and where. -/
def parameter? (id : NodeId) : Option Declaration := do
  let name ← (← tree.kind? id).parameterName?
  tree.name? name

/-- The scopes of what a condition or a loop governs: each statement without braces is in a scope of
its own. A block declares nothing around it. -/
def bodyScopes (bodies : List NodeId) : List (List Declaration) :=
  bodies.map fun body => (Program.declared? tree body).toList

/-- The scopes that a node opens, each with its declarations in the order of the text. -/
def scopesOf : NodeKind NodeId → List (List Declaration)
  | .program items | .scope items => [items.filterMap (Program.declared? tree)]
  | .gateDef _ params qubits _ => [(params ++ qubits).filterMap tree.name?]
  | .subroutineDef _ params _ _ => [params.filterMap tree.parameter?]
  | .ifStmt _ thenBranch elseBranch => tree.bodyScopes (thenBranch :: elseBranch.toList)
  | .forStmt _ var _ body => (tree.name? var).toList :: tree.bodyScopes [body]
  | .whileStmt _ body => tree.bodyScopes [body]
  | _ => []

/-- What is to be reported about the scopes that a node of the tree opens. -/
def redeclarationsAt (id : NodeId) : List Diagnostic :=
  ((tree.kind? id).elim [] tree.scopesOf).flatMap (OpenQasm.redeclarations [])

/-- What is to be reported about all scopes of the tree. -/
def redeclarations : List Diagnostic := tree.descendants.flatMap tree.redeclarationsAt

/-- What a statement declares is the name that one of its children spells. -/
theorem declared?_eq (item : NodeId) : Program.declared? tree item =
    ((tree.kind? item).bind NodeKind.declaredName?).bind tree.name? := by
  cases hk : tree.kind? item with
  | none => rw [Program.declared?, hk]; rfl
  | some kind =>
    rw [Program.declared?, hk]
    simp only [Option.bind_eq_bind, Option.bind_some]
    cases kind.declaredName? <;> rfl

end Tree

end OpenQasm
