import OpenQasm.Program.Declarations

/-!
# Declarations across files

The statements of a program are read with a stack of sources. What is read is the list of all
declarations in the order of the merged program (`Declares`): the statements of a source stand at
the first include statement that leads to it. What is reported are the elements of that list whose
name was declared first in another file.
-/

namespace OpenQasm.Program

/-- The declarations of some statements of a source and of all that they include: `visited` are
the sources listed before, and in the end those listed until then. -/
inductive Lists (program : Program) : SourceId → List NodeId → List SourceId →
    List (String × Span) → List SourceId → Prop
  | done {source : SourceId} {visited : List SourceId} : Lists program source [] visited [] visited
  /-- The first include statement that leads to a source lists its statements. -/
  | follow {source target : SourceId} {tree : Tree} {item : NodeId} {items body : List NodeId}
      {path : String} {visited visited' visited'' : List SourceId}
      {inside after : List (String × Span)} :
      program.tree? source = some tree → tree.kind? item = some (.includeFile path body) →
      program.included? source item = some target → target ∉ visited →
      Lists program target (program.itemsOf target) (target :: visited) inside visited' →
      Lists program source items visited' after visited'' →
      Lists program source (item :: items) visited (inside ++ after) visited''
  /-- Another include statement lists nothing. -/
  | pass {source : SourceId} {tree : Tree} {item : NodeId} {items body : List NodeId}
      {path : String} {visited visited' : List SourceId} {after : List (String × Span)} :
      program.tree? source = some tree → tree.kind? item = some (.includeFile path body) →
      (∀ target, program.included? source item = some target → target ∈ visited) →
      Lists program source items visited after visited' →
      Lists program source (item :: items) visited after visited'
  /-- A statement of another kind lists the name that it declares, if any. -/
  | statement {source : SourceId} {tree : Tree} {item : NodeId} {items : List NodeId}
      {visited visited' : List SourceId} {after : List (String × Span)} :
      program.tree? source = some tree →
      (∀ path body, tree.kind? item ≠ some (.includeFile path body)) →
      Lists program source items visited after visited' →
      Lists program source (item :: items) visited ((declared? tree item).toList ++ after) visited'

/-- The declarations at the top of all files, in the order of the merged program. -/
def Declares (program : Program) (entry : SourceId) (declarations : List (String × Span)) : Prop :=
  ∃ visited, program.Lists entry (program.itemsOf entry) [entry] declarations visited

/-- What is reported of one of the declarations of a program: the first one of that name if it is
in another file. -/
def redeclaration? (declarations : List (String × Span)) : String × Span → Option Diagnostic
  | (name, span) =>
    match declarations.lookup name with
    | some first =>
      if first.source = span.source then none else some (Grammar.redeclared name span first)
    | none => none

section
variable {program : Program} {source target entry : SourceId} {tree : Tree} {item : NodeId}
  {items : List NodeId} {visited visited' visited'' : List SourceId} {next : Nat}
  {below : List (SourceId × Nat)} {names : Names}
  {declarations declarations' : List (String × Span)}

/-! ## One round -/

/-- The next item of a source is read with its tree. -/
theorem statement?_eq_some (ht : program.tree? source = some tree)
    (hi : (program.itemsOf source).drop next = item :: items) :
    program.statement? source next = some (tree, item) ∧
      (program.itemsOf source).drop (next + 1) = items := by
  have hhead : (program.itemsOf source)[next]? = some item := by
    rw [← List.head?_drop, hi, List.head?_cons]
  refine ⟨?_, ?_⟩
  · simp only [itemsOf, ht, Option.elim_some] at hhead
    simp [statement?, ht, hhead]
  · rw [← List.tail_drop, hi, List.tail_cons]

/-- Behind the last item there is no statement. -/
theorem statement?_eq_none (hi : (program.itemsOf source).drop next = []) :
    program.statement? source next = none := by
  have hle : (program.itemsOf source).length ≤ next := List.drop_eq_nil_iff.1 hi
  cases ht : program.tree? source with
  | none => simp [statement?, ht]
  | some tree =>
    simp only [itemsOf, ht, Option.elim_some] at hle
    simp [statement?, ht, hle]

/-- At the end of a source the walk goes back to the one below. -/
theorem readNames_end (h : program.statement? source next = none) :
    program.readNames ((source, next) :: below) visited names =
      program.readNames below visited names := by
  rw [readNames]
  split
  · rfl
  · next heq => cases h.symm.trans heq

/-- At an include of a new source the walk goes into it. -/
theorem readNames_follow {path : String} {body : List NodeId}
    (h : program.statement? source next = some (tree, item))
    (hk : tree.kind? item = some (.includeFile path body))
    (hnew : program.newSource? visited source item = some target) :
    program.readNames ((source, next) :: below) visited names =
      program.readNames ((target, 0) :: (source, next + 1) :: below) (target :: visited) names := by
  rw [readNames]
  split
  · next heq => cases h.symm.trans heq
  · next heq =>
    obtain ⟨rfl, rfl⟩ := Prod.mk.inj (Option.some.inj (h.symm.trans heq))
    simp only [hk]
    split
    · next heq => rw [Option.some.inj (hnew.symm.trans heq)]
    · next heq => cases hnew.symm.trans heq

/-- An include of a source that was visited is passed over. -/
theorem readNames_pass {path : String} {body : List NodeId}
    (h : program.statement? source next = some (tree, item))
    (hk : tree.kind? item = some (.includeFile path body))
    (hnew : program.newSource? visited source item = none) :
    program.readNames ((source, next) :: below) visited names =
      program.readNames ((source, next + 1) :: below) visited names := by
  rw [readNames]
  split
  · next heq => cases h.symm.trans heq
  · next heq =>
    obtain ⟨rfl, rfl⟩ := Prod.mk.inj (Option.some.inj (h.symm.trans heq))
    simp only [hk]
    split
    · next heq => cases hnew.symm.trans heq
    · rfl

/-- Any other statement is noted with the name it declares. -/
theorem readNames_statement (h : program.statement? source next = some (tree, item))
    (hk : ∀ path body, tree.kind? item ≠ some (.includeFile path body)) :
    program.readNames ((source, next) :: below) visited names =
      program.readNames ((source, next + 1) :: below) visited
        ((declared? tree item).toList.foldl Names.note names) := by
  rw [readNames]
  split
  · next heq => cases h.symm.trans heq
  · next heq =>
    obtain ⟨rfl, rfl⟩ := Prod.mk.inj (Option.some.inj (h.symm.trans heq))
    split
    · next hkind => exact absurd hkind (hk _ _)
    · rfl

/-- A source is new if it was not visited. -/
theorem newSource?_eq_some : program.newSource? visited source item = some target ↔
    program.included? source item = some target ∧ target ∉ visited := by
  simp [newSource?, Option.filter_eq_some_iff]

/-- There is none if the include leads nowhere or to one that was. -/
theorem newSource?_eq_none : program.newSource? visited source item = none ↔
    ∀ target, program.included? source item = some target → target ∈ visited := by
  simp [newSource?, Option.filter_eq_none_iff]

/-! ## All rounds -/

/-- The statements of the source on top are read until its end, whatever lies below it. -/
theorem Lists.readNames (h : program.Lists source items visited declarations visited')
    (hi : (program.itemsOf source).drop next = items) :
    program.readNames ((source, next) :: below) visited names =
      program.readNames below visited' (declarations.foldl Names.note names) := by
  induction h generalizing next below names with
  | done => exact readNames_end (statement?_eq_none hi)
  | follow ht hk hincluded hnew _ _ ih ih' =>
    obtain ⟨hstatement, hrest⟩ := statement?_eq_some ht hi
    rw [readNames_follow hstatement hk (newSource?_eq_some.2 ⟨hincluded, hnew⟩),
      ih List.drop_zero, ih' hrest, List.foldl_append]
  | pass ht hk hold _ ih =>
    obtain ⟨hstatement, hrest⟩ := statement?_eq_some ht hi
    rw [readNames_pass hstatement hk (newSource?_eq_none.2 hold), ih hrest]
  | statement ht hk _ ih =>
    obtain ⟨hstatement, hrest⟩ := statement?_eq_some ht hi
    rw [readNames_statement hstatement hk, ih hrest, List.foldl_append]

/-- The visited sources stay visited. -/
theorem Lists.subset (h : program.Lists source items visited declarations visited') :
    visited ⊆ visited' := by
  induction h with
  | done => exact fun _ hm => hm
  | follow _ _ _ _ _ _ ih ih' => exact fun _ hm => ih' (ih (List.mem_cons_of_mem _ hm))
  | pass _ _ _ _ ih | statement _ _ _ ih => exact ih

/-- There is no choice in what is listed. -/
theorem Lists.unique (h : program.Lists source items visited declarations visited')
    (h' : program.Lists source items visited declarations' visited'') :
    declarations = declarations' ∧ visited' = visited'' := by
  induction h generalizing declarations' visited'' with
  | done =>
    cases h'
    exact ⟨rfl, rfl⟩
  | follow ht hk hincluded hnew _ _ ih ih' =>
    cases h' with
    | follow ht' hk' hincluded' _ hinside hafter =>
      obtain rfl := Option.some.inj (hincluded.symm.trans hincluded')
      obtain ⟨rfl, rfl⟩ := ih hinside
      obtain ⟨rfl, rfl⟩ := ih' hafter
      exact ⟨rfl, rfl⟩
    | pass _ _ hold => exact absurd (hold _ hincluded) hnew
    | statement ht' hk' =>
      obtain rfl := Option.some.inj (ht.symm.trans ht')
      exact absurd hk (hk' _ _)
  | pass ht hk hold _ ih =>
    cases h' with
    | follow _ _ hincluded hnew => exact absurd (hold _ hincluded) hnew
    | pass _ _ _ hafter => exact ih hafter
    | statement ht' hk' =>
      obtain rfl := Option.some.inj (ht.symm.trans ht')
      exact absurd hk (hk' _ _)
  | statement ht hk _ ih =>
    cases h' with
    | follow ht' hk' | pass ht' hk' =>
      obtain rfl := Option.some.inj (ht.symm.trans ht')
      exact absurd hk' (hk _ _)
    | statement ht' _ hafter =>
      obtain rfl := Option.some.inj (ht.symm.trans ht')
      obtain ⟨rfl, rfl⟩ := ih hafter
      exact ⟨rfl, rfl⟩

/-- The more sources were visited, the fewer edges are ahead. -/
theorem edgesAhead_mono (h : visited ⊆ visited') :
    program.edgesAhead visited' ≤ program.edgesAhead visited :=
  List.countP_mono_left fun edge _ hn => by
    have hn : edge.included ∉ visited' := by simpa using hn
    simpa using fun hm => hn (h hm)

/-- Something is listed: each source that is followed takes edges off those ahead. -/
theorem exists_lists (program : Program) (source : SourceId) (visited : List SourceId) :
    ∃ declarations visited',
      program.Lists source (program.itemsOf source) visited declarations visited' := by
  induction hedges : program.edgesAhead visited using Nat.strongRecOn
    generalizing source visited with
  | ind edges ih =>
    subst hedges
    cases ht : program.tree? source with
    | none =>
      rw [itemsOf, ht]
      exact ⟨[], visited, .done⟩
    | some tree =>
      -- The sources visited grow from statement to statement.
      suffices h : ∀ (items : List NodeId) (reached : List SourceId), visited ⊆ reached →
          ∃ declarations visited', program.Lists source items reached declarations visited' from
        h _ visited fun _ hm => hm
      intro items
      induction items with
      | nil => exact fun reached _ => ⟨[], reached, .done⟩
      | cons item items ih' =>
        intro reached hsub
        have hle := program.edgesAhead_mono hsub
        by_cases hk : ∃ path body, tree.kind? item = some (.includeFile path body)
        · obtain ⟨path, body, hk⟩ := hk
          cases hnew : program.newSource? reached source item with
          | none =>
            obtain ⟨after, last, hafter⟩ := ih' reached hsub
            exact ⟨after, last, .pass ht hk (newSource?_eq_none.1 hnew) hafter⟩
          | some target =>
            obtain ⟨hincluded, hfresh⟩ := newSource?_eq_some.1 hnew
            obtain ⟨inside, middle, hinside⟩ := ih _
              (Nat.lt_of_lt_of_le (edgesAhead_visit hnew) hle) target (target :: reached) rfl
            obtain ⟨after, last, hafter⟩ := ih' middle fun _ hm =>
              hinside.subset (List.mem_cons_of_mem _ (hsub hm))
            exact ⟨inside ++ after, last, .follow ht hk hincluded hfresh hinside hafter⟩
        · obtain ⟨after, last, hafter⟩ := ih' reached hsub
          exact ⟨_, last, .statement ht (fun path body heq => hk ⟨path, body, heq⟩) hafter⟩

/-- Every program has its declarations. -/
theorem exists_declares (program : Program) (entry : SourceId) :
    ∃ declarations, program.Declares entry declarations := by
  obtain ⟨declarations, visited, h⟩ := program.exists_lists entry [entry]
  exact ⟨declarations, visited, h⟩

/-- And only these. -/
theorem Declares.unique (h : program.Declares entry declarations)
    (h' : program.Declares entry declarations') : declarations' = declarations := by
  obtain ⟨_, h⟩ := h
  obtain ⟨_, h'⟩ := h'
  exact (h'.unique h).1

/-! ## What is found -/

/-- What is kept of the declarations so far tells the first one of each name. -/
def Names.Tells (names : Names) (before : List (String × Span)) : Prop :=
  ∀ name, names.firsts.lookup name = before.lookup name

/-- A declaration that is noted is told as the first one, if it is. -/
theorem Names.Tells.note {before : List (String × Span)} (h : names.Tells before)
    (declaration : String × Span) : (names.note declaration).Tells (before ++ [declaration]) := by
  intro other
  obtain ⟨name, span⟩ := declaration
  rw [List.lookup_append, ← h other]
  by_cases heq : other = name
  · subst heq
    cases hlookup : names.firsts.lookup other with
    | none => simp [Names.note, hlookup]
    | some first =>
      simp only [Names.note, hlookup]
      split <;> simp [hlookup]
  · have hne : (other == name) = false := beq_eq_false_iff_ne.2 heq
    simp only [Names.note, List.lookup_cons, hne, List.lookup_nil, Option.or_none]
    split
    · simp [List.lookup_cons, hne]
    · split <;> rfl

/-- The first declaration of a name is the one that is looked up. -/
theorem Names.Tells.found_note {before : List (String × Span)} (h : names.Tells before)
    (declaration : String × Span) (rest : List (String × Span)) :
    (names.note declaration).found =
      names.found ++ (redeclaration? (before ++ declaration :: rest) declaration).toList := by
  obtain ⟨name, span⟩ := declaration
  simp only [Names.note, redeclaration?, List.lookup_append, h name]
  cases before.lookup name with
  | none => simp
  | some first =>
    simp only [Option.some_or]
    split <;> simp

/-- Noting declarations finds the repeated ones among them. -/
theorem Names.Tells.found_foldl {before rest : List (String × Span)} (h : names.Tells before) :
    (rest.foldl Names.note names).found =
      names.found ++ rest.filterMap (redeclaration? (before ++ rest)) := by
  induction rest generalizing before names with
  | nil => simp
  | cons declaration rest ih =>
    rw [List.foldl_cons, ih (h.note declaration), h.found_note declaration rest, List.append_assoc,
      List.append_assoc, List.singleton_append, List.filterMap_cons]
    cases redeclaration? (before ++ declaration :: rest) declaration with
    | none => simp
    | some diagnostic => simp

/-- The check reports what its declarations repeat. -/
theorem Declares.checkDeclarations (h : program.Declares entry declarations) :
    program.checkDeclarations entry =
      { program with
        diagnostics :=
          program.diagnostics.append (declarations.filterMap (redeclaration? declarations)) } := by
  obtain ⟨visited, h⟩ := h
  have hread : program.readNames [(entry, 0)] [entry] {} = declarations.foldl Names.note {} := by
    rw [h.readNames List.drop_zero, Program.readNames]
  have htells : Names.Tells {} [] := fun _ => rfl
  have hfound : (declarations.foldl Names.note {}).found =
      declarations.filterMap (redeclaration? declarations) := htells.found_foldl
  simp only [Program.checkDeclarations, hread, hfound]

end

end OpenQasm.Program
