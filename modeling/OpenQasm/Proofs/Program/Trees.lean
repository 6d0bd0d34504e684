import OpenQasm.Proofs.Program.Spans

/-!
# Where the trees of a compilation come from

A compilation makes trees in three ways: it parses a source, it marks an include statement, and it
grafts a tree below one. What holds of all parses, and stays true when a statement is marked or a
tree is grafted, holds of the merged tree, whatever includes what.
-/

namespace OpenQasm

/-- A property of trees that holds of parses, and that marks and grafts keep. -/
structure Tree.Lasting (kept : Tree → Prop) : Prop where
  parse : ∀ source text options output, parse source text options = .ok output → kept output.tree
  mark : ∀ tree target marked, kept tree → tree.markIncludeError target = .ok marked → kept marked
  graft : ∀ tree target other grafted, kept tree → kept other →
    tree.graft target other = .ok grafted → kept grafted

/-- All trees of a program have a property. -/
def Program.Holds (kept : Tree → Prop) (program : Program) : Prop :=
  ∀ id tree, program.tree? id = some tree → kept tree

namespace Program

section
variable {kept : Tree → Prop} {program after : Program} {entry source : SourceId} {tree : Tree}
  {merged last : Merged} {edge : Inclusion} {settings : Settings} {compilation : Compilation}

/-- A property of the trees is one of every program with these trees. -/
theorem Holds.of_trees_eq (h : program.Holds kept) (heq : after.trees = program.trees) :
    after.Holds kept := fun id tree ht => h id tree (by rwa [tree?, ← heq])

/-- It is kept by an include that is cut. -/
theorem Holds.cutInclude (h : program.Holds kept) (hk : Tree.Lasting kept)
    (hcut : program.cutInclude edge = .ok after) : after.Holds kept := by
  unfold Program.cutInclude at hcut
  split at hcut
  · exact Except.ok.inj hcut ▸ h
  · next tree ht =>
    split at hcut
    · next name _ _ =>
      cases hmark : tree.markIncludeError edge.node with
      | error fault =>
        rw [hmark] at hcut
        cases hcut
      | ok marked =>
        rw [hmark] at hcut
        obtain rfl := Except.ok.inj hcut
        intro id part hpart
        rw [tree?_setTree] at hpart
        split at hpart
        · obtain ⟨_, -, rfl⟩ := Option.map_eq_some_iff.1 hpart
          exact hk.mark _ _ _ (h _ tree ht) hmark
        · exact h id part hpart
    · exact Except.ok.inj hcut ▸ h
    · cases hcut

/-- So it is by all that are cut. -/
theorem Holds.cutCycles (h : program.Holds kept) (hk : Tree.Lasting kept)
    (hcut : program.cutCycles entry = .ok after) : after.Holds kept :=
  kept_of_foldlM (Holds kept) (fun _ _ _ _ hstep hm => hm.cutInclude hk hstep) hcut h

/-- The check of the version changes no tree. -/
theorem trees_checkVersion (program : Program) (entry : SourceId) :
    (program.checkVersion entry).trees = program.trees := by
  unfold Program.checkVersion
  split
  · rfl
  · split <;> rfl

/-- Nor does that of the declarations. -/
theorem trees_checkDeclarations (program : Program) (entry : SourceId) :
    (program.checkDeclarations entry).trees = program.trees := by
  obtain ⟨declarations, hdeclares⟩ := program.exists_declares entry
  rw [hdeclares.checkDeclarations]

/-- All merged trees have a property. -/
def HoldsMerged (kept : Tree → Prop) (merged : Merged) : Prop :=
  ∀ source tree, merged.lookup source = some tree → kept tree

/-- A tree keeps the property when another one is grafted into it. -/
theorem kept_graftInclude {grafted : Tree} (hk : Tree.Lasting kept) (hm : HoldsMerged kept merged)
    (ht : kept tree) (hgraft : graftInclude merged tree edge = .ok grafted) : kept grafted := by
  unfold graftInclude at hgraft
  split at hgraft
  · split at hgraft
    · next included hlookup => exact hk.graft _ _ _ _ ht (hm _ included hlookup) hgraft
    · exact hk.mark _ _ _ ht hgraft
  · exact Except.ok.inj hgraft ▸ ht
  · cases hgraft

/-- So do the trees merged so far. -/
theorem Holds.mergeSource (h : program.Holds kept) (hk : Tree.Lasting kept)
    (hm : HoldsMerged kept merged) (hmerge : program.mergeSource merged source = .ok last) :
    HoldsMerged kept last := by
  unfold Program.mergeSource at hmerge
  split at hmerge
  · exact Except.ok.inj hmerge ▸ hm
  · next tree ht =>
    cases hfold : (program.graph.includesOf source).foldlM (graftInclude merged) tree with
    | error fault =>
      rw [hfold] at hmerge
      cases hmerge
    | ok part =>
      rw [hfold] at hmerge
      obtain rfl := Except.ok.inj hmerge
      intro file other hlookup
      rw [lookup_cons] at hlookup
      split at hlookup
      · obtain rfl := Option.some.inj hlookup
        exact kept_of_foldlM kept (fun _ _ _ _ hstep ht => kept_graftInclude hk hm ht hstep) hfold
          (h source tree ht)
      · exact hm file other hlookup

/-- So does the whole. -/
theorem Holds.merge? (h : program.Holds kept) (hk : Tree.Lasting kept)
    (hmerge : program.merge? entry = .ok (some tree)) : kept tree := by
  unfold Program.merge? at hmerge
  cases hfold : (program.graph.mergeOrder entry []).foldlM program.mergeSource [] with
  | error fault =>
    rw [hfold] at hmerge
    cases hmerge
  | ok merged =>
    rw [hfold] at hmerge
    have hmerged : HoldsMerged kept merged :=
      kept_of_foldlM _ (fun _ _ _ _ hstep hm => h.mergeSource hk hm hstep) hfold
        fun _ _ hm => nomatch hm
    exact hmerged entry tree (Except.ok.inj hmerge)

/-- The merged tree has the property that all trees of the program have. -/
theorem Holds.assemble (h : program.Holds kept) (hk : Tree.Lasting kept)
    (ha : program.assemble settings entry = .ok compilation) : kept compilation.tree := by
  obtain ⟨middle, checked, hcut, rfl, htree, -⟩ := exists_of_assemble ha
  rcases htree with hmerge | ⟨output, hparse, htree⟩
  · refine Holds.merge? ((h.cutCycles hk hcut).of_trees_eq ?_) hk hmerge
    rw [trees_checkDeclarations, trees_checkVersion]
  · exact htree ▸ hk.parse _ _ _ _ hparse

end

end Program

namespace Loading

section
variable {disk : Disk Id} {settings : Settings} {directory : Option Path} {path : Path}
  {entry source : SourceId} {loading after : Loading} {version : Option Version}
  {wave found : List SourceId} {kept : Tree → Prop}

/-- Opening an include leaves the trees of the sources that have been parsed. -/
theorem trees_open? {name : String} {opened : Option (SourceId × Bool)}
    (h : (open? disk settings directory name loading).run = .ok (opened, after)) :
    after.trees = loading.trees := by
  unfold open? at h
  obtain ⟨resolution, -, h⟩ := exists_of_bind_ok h
  cases resolution with
  | notFound =>
    cases h
    rfl
  | file file =>
    dsimp only at h
    split at h
    · cases h
      rfl
    · obtain ⟨text, -, h⟩ := exists_of_bind_ok h
      cases h
      rfl
  | library library =>
    dsimp only at h
    split at h <;> cases h <;> rfl

/-- What each step of a loop keeps, the loop keeps. -/
theorem kept_of_foldlM_run {ε σ α : Type} {step : σ → α → ExceptT ε Id σ} (kept : σ → Prop)
    {items : List α} {state last : σ}
    (hstep : ∀ state item last, item ∈ items → (step state item).run = .ok last →
      kept state → kept last)
    (h : (items.foldlM step state).run = .ok last) (hk : kept state) : kept last := by
  induction items generalizing state with
  | nil => exact Except.ok.inj h ▸ hk
  | cons item items ih =>
    rw [List.foldlM_cons] at h
    obtain ⟨middle, hitem, h⟩ := exists_of_bind_ok h
    exact ih (fun _ _ _ hm => hstep _ _ _ (List.mem_cons_of_mem _ hm)) h
      (hstep _ _ _ List.mem_cons_self hitem hk)

/-- While the includes of a source are followed, its tree and those of the program have a property.
-/
structure Following.Holds (kept : Tree → Prop) (following : Following) : Prop where
  loading : following.loading.toProgram.Holds kept
  tree : kept following.tree

/-- The trees loaded so far keep it when an include is followed. -/
theorem Following.Holds.follow {following last : Following} {statement : NodeId × String × Span}
    (hf : following.Holds kept) (hk : Tree.Lasting kept)
    (h : (follow disk settings directory source following statement).run = .ok last) :
    last.Holds kept := by
  obtain ⟨node, name, span⟩ := statement
  unfold Loading.follow at h
  obtain ⟨⟨opened, loading⟩, hopen, h⟩ := exists_of_bind_ok h
  have htrees := hf.loading.of_trees_eq (trees_open? hopen)
  cases opened with
  | some opened => exact Except.ok.inj h ▸ ⟨htrees.of_trees_eq rfl, hf.tree⟩
  | none =>
    dsimp only at h
    split at h
    · next tree hmark =>
      exact Except.ok.inj h ▸ ⟨htrees.of_trees_eq rfl, hk.mark _ _ _ hf.tree hmark⟩
    · cases h

/-- So they do when all of a source are. -/
theorem holds_of_followAll {output : ParseOutput} (hk : Tree.Lasting kept)
    (h : (followAll disk settings loading source output).run = .ok (after, found))
    (hl : loading.toProgram.Holds kept) (ho : kept output.tree) : after.toProgram.Holds kept := by
  unfold followAll at h
  obtain ⟨following, hfold, h⟩ := exists_of_bind_ok h
  cases h
  have hend : following.Holds kept :=
    kept_of_foldlM_run _ (fun _ _ _ _ hstep hf => hf.follow hk hstep) hfold
      ⟨hl.of_trees_eq rfl, ho⟩
  intro id tree ht
  rcases getElem?_concat_iff.1 (by rwa [Program.tree?, ← Array.getElem?_toList,
    Array.toList_push] at ht) with ht | ⟨-, rfl⟩
  · exact hend.loading id tree (by rwa [Program.tree?, ← Array.getElem?_toList])
  · exact hend.tree

/-- So they do behind a wave. -/
theorem holds_of_loadWave (hk : Tree.Lasting kept)
    (h : (loadWave disk settings version loading wave).run = .ok (after, found))
    (hl : loading.toProgram.Holds kept) : after.toProgram.Holds kept := by
  unfold loadWave at h
  obtain ⟨outputs, hparse, hfold⟩ := exists_of_bind_ok h
  have hparse : parseAll settings version loading.sources wave = .ok outputs := hparse
  obtain ⟨-, hparsed⟩ := parseAll_ok hparse
  exact kept_of_foldlM_run (fun state => state.1.toProgram.Holds kept)
    (fun state item last hm hstep hs => by
      obtain ⟨⟨next, new⟩, hfollow, hstep⟩ := exists_of_bind_ok hstep
      cases hstep
      exact holds_of_followAll hk hfollow hs (hk.parse _ _ _ _ (hparsed item hm))) hfold hl

/-- So they do behind all waves. -/
theorem Turns.holds {stage last : Stage} {waves : List (Option Version × List SourceId)}
    (h : Turns disk settings entry stage waves last) (hk : Tree.Lasting kept)
    (hl : stage.loading.toProgram.Holds kept) : last.loading.toProgram.Holds kept := by
  induction h with
  | stop => exact hl
  | turn _ hload _ ih => exact ih (holds_of_loadWave hk hload hl)

/-- All trees of a program that is loaded have a property that lasts. -/
theorem holds_of_loadFile {program : Program} (hk : Tree.Lasting kept)
    (h : (loadFile disk settings path).run = .ok program) : program.Holds kept := by
  obtain ⟨text, loading, hfresh, -, hload⟩ := exists_of_loadFile h
  obtain ⟨waves, last, hturns, rfl, -⟩ := turns_of_load hload
  refine Turns.holds hturns hk fun id tree ht => ?_
  rw [Program.tree?, hfresh.trees] at ht
  cases ht

end

end Loading

/-- The merged tree of a compilation has every property that lasts. -/
theorem Tree.Lasting.compile {kept : Tree → Prop} {disk : Disk Id} {settings : Settings}
    {path : Path} {compilation : Compilation} (hk : Tree.Lasting kept)
    (h : (compile disk settings path).run = .ok compilation) : kept compilation.tree := by
  rw [Loading.compile_run] at h
  cases hload : (Loading.loadFile disk settings path).run with
  | error failure =>
    rw [hload] at h
    cases h
  | ok program =>
    rw [hload] at h
    dsimp only at h
    cases hassemble : program.assemble settings ⟨0⟩ with
    | error crash =>
      rw [hassemble] at h
      cases h
    | ok made =>
      rw [hassemble] at h
      obtain rfl := Except.ok.inj h
      exact (Loading.holds_of_loadFile hk hload).assemble hk hassemble

end OpenQasm
