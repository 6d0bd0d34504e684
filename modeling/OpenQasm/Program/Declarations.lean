import OpenQasm.Program.Basic

/-!
# Declarations across files

The statements of a program at the top of its files share one scope. Every file's own text is
checked when it is parsed; here a name is found that was declared in another file before.
-/

namespace OpenQasm

/-- The name that a statement declares. -/
def NodeKind.declaredName? {ι : Type} : NodeKind ι → Option ι
  | .qubitDecl name _ | .registerDecl _ name _ | .classicalDecl _ name _ | .constDecl _ name _ |
    .ioDecl _ _ name | .aliasDecl name _ | .gateDef name .. | .opaqueDecl name .. |
    .subroutineDef name .. | .externDecl name .. => some name
  | _ => none

namespace Program

/-- The name that a statement of a tree declares, and where. -/
def declared? (tree : Tree) (item : NodeId) : Option (String × Span) := do
  let name ← (← tree.kind? item).declaredName?
  let node ← tree.node? name
  match node.kind with
  | .identifier text => return (text, node.span)
  | _ => none

/-- The source that an include statement of a source leads to. -/
def included? (program : Program) (source : SourceId) (item : NodeId) : Option SourceId :=
  ((program.graph.includesOf source).find? (·.node = item)).map Inclusion.included

/-- The source that an include statement leads to, if none led to it before. -/
def newSource? (program : Program) (visited : List SourceId) (source : SourceId) (item : NodeId) :
    Option SourceId :=
  (program.included? source item).filter fun target => !visited.contains target

/-- The statements at the top of a source. -/
def itemsOf (program : Program) (source : SourceId) : List NodeId :=
  (program.tree? source).elim [] Tree.items

/-- The statement of a source at an index, with the tree that it stands in. -/
def statement? (program : Program) (source : SourceId) (index : Nat) : Option (Tree × NodeId) :=
  (program.tree? source).bind fun tree => tree.items[index]?.map (tree, ·)

/-! ## Names -/

/-- What is known of the names declared so far. -/
structure Names where
  /-- The first declaration of each name. -/
  firsts : List (String × Span) := []
  /-- The declarations whose name was declared before in another file. -/
  found : List Diagnostic := []

/-- Take in a declaration of a name. -/
def Names.note (names : Names) : String × Span → Names
  | (name, span) =>
    match names.firsts.lookup name with
    | none => { names with firsts := (name, span) :: names.firsts }
    | some first =>
      if first.source = span.source then names
      else { names with found := names.found ++ [Grammar.redeclared name span first] }

/-! ## The statements of a program -/

/-- The edges to sources that are still to be visited. -/
def edgesAhead (program : Program) (visited : List SourceId) : Nat :=
  program.graph.edges.toList.countP fun edge => !visited.contains edge.included

/-- What is left to read on a stack of sources: the statements of each, and its end. -/
def itemsAhead (program : Program) : List (SourceId × Nat) → Nat
  | [] => 0
  | (source, next) :: below => (program.itemsOf source).length - next + 1 + program.itemsAhead below

theorem edge_of_included? {program : Program} {source target : SourceId} {item : NodeId}
    (h : program.included? source item = some target) :
    ∃ edge ∈ program.graph.edges.toList, edge.includer = source ∧ edge.node = item ∧
      edge.included = target := by
  obtain ⟨edge, hfind, rfl⟩ := Option.map_eq_some_iff.1 h
  obtain ⟨⟨index, other⟩, hm, rfl⟩ := List.mem_map.1 (List.mem_of_find?_eq_some hfind)
  obtain ⟨he, hsource⟩ := IncludeGraph.mem_edgesFrom.1 (List.mem_mergeSort.1 hm)
  have hnode := List.find?_some hfind
  exact ⟨other, List.mem_of_getElem? (Array.getElem?_toList.trans he), hsource,
    by simpa using hnode, rfl⟩

/-- A source that is visited takes the edges that lead to it off those ahead. -/
theorem edgesAhead_visit {program : Program} {visited : List SourceId} {source target : SourceId}
    {item : NodeId} (h : program.newSource? visited source item = some target) :
    program.edgesAhead (target :: visited) < program.edgesAhead visited := by
  obtain ⟨hincluded, hnew⟩ := Option.filter_eq_some_iff.1 h
  obtain ⟨edge, hm, -, -, rfl⟩ := edge_of_included? hincluded
  obtain ⟨left, right, hedges⟩ := List.append_of_mem hm
  have hle : ∀ edges : List Inclusion,
      edges.countP (fun other => !(edge.included :: visited).contains other.included) ≤
        edges.countP fun other => !visited.contains other.included := fun edges =>
    List.countP_mono_left fun other _ h => by simp_all
  have hleft := hle left
  have hright := hle right
  have hnew : edge.included ∉ visited := by simpa using hnew
  simp only [edgesAhead, hedges, List.countP_append, List.countP_cons]
  simp [hnew] at hleft hright ⊢
  omega

theorem itemsAhead_pop (program : Program) (frame : SourceId × Nat)
    (below : List (SourceId × Nat)) :
    program.itemsAhead below < program.itemsAhead (frame :: below) := by
  simp only [itemsAhead]
  omega

theorem itemsAhead_next {program : Program} {source : SourceId} {next : Nat} {tree : Tree}
    {item : NodeId} (h : program.statement? source next = some (tree, item))
    (below : List (SourceId × Nat)) :
    program.itemsAhead ((source, next + 1) :: below) <
      program.itemsAhead ((source, next) :: below) := by
  obtain ⟨tree, ht, hitem⟩ := Option.bind_eq_some_iff.1 h
  obtain ⟨item, hitem, -⟩ := Option.map_eq_some_iff.1 hitem
  have hlt := (List.getElem?_eq_some_iff.1 hitem).1
  simp only [itemsAhead, itemsOf, ht, Option.elim_some]
  omega

/-- Read the statements of the sources on a stack, each from the one that is next in it. A source
that an include statement leads to is read before the statement after it, and only once. -/
def readNames (program : Program) (stack : List (SourceId × Nat)) (visited : List SourceId)
    (names : Names) : Names :=
  match stack with
  | [] => names
  | (source, next) :: below =>
    match _hitem : program.statement? source next with
    | none => program.readNames below visited names
    | some (tree, item) =>
      match tree.kind? item with
      | some (.includeFile ..) =>
        match hnew : program.newSource? visited source item with
        | some target =>
          program.readNames ((target, 0) :: (source, next + 1) :: below) (target :: visited) names
        | none => program.readNames ((source, next + 1) :: below) visited names
      | _ =>
        program.readNames ((source, next + 1) :: below) visited
          ((declared? tree item).toList.foldl Names.note names)
termination_by (program.edgesAhead visited, program.itemsAhead stack)
decreasing_by
  · exact .right _ (program.itemsAhead_pop _ below)
  · exact .left _ _ (edgesAhead_visit hnew)
  · exact .right _ (itemsAhead_next _hitem below)
  · exact .right _ (itemsAhead_next _hitem below)

/-- Report the names that are declared again in another file. -/
def checkDeclarations (program : Program) (entry : SourceId) : Program :=
  let names := program.readNames [(entry, 0)] [entry] {}
  { program with diagnostics := program.diagnostics.append names.found }

end Program

end OpenQasm
