import OpenQasm.Proofs.Program.History

/-!
# Loading reads all sources

Following an include statement settles it, following all of a source settles the source, and a wave
settles its sources and yields those that are new. Ids are exact as long as there are no more
sources than ids.
-/

namespace OpenQasm

namespace Loading

open SourceMap (Within)
open OpenQasm.Tree (Marks)

/-! ## Steps -/

/-- A step leads to no fewer sources, and as long as these are no more than there are ids, it leads
from what is known before to what is known after. -/
def Advances (disk : Disk Id) (path : Path) (before after : Loading) (known known' : Prop) : Prop :=
  Grows disk path before after ∧ (after.sources.size ≤ maxOffset + 1 → known → known')

section
variable {ε σ α : Type} {disk : Disk Id} {path : Path}

/-- Two advances are one. -/
theorem Advances.trans {before middle after : Loading} {known known' known'' : Prop}
    (h : Advances disk path before middle known known')
    (h' : Advances disk path middle after known' known'') :
    Advances disk path before after known known'' :=
  ⟨h.1.trans h'.1, fun hb hk => h'.2 hb (h.2 (Nat.le_trans h'.1.within.size hb) hk)⟩

/-- What each step of a loop keeps, the loop keeps. What is known depends on the list ahead. -/
theorem known_of_foldlM {step : σ → α → ExceptT ε Id σ} (known : List α → σ → Prop)
    (hstep : ∀ state item rest after, (step state item).run = .ok after →
      known (item :: rest) state → known rest after)
    {items rest : List α} {state after : σ} (h : (items.foldlM step state).run = .ok after)
    (hk : known (items ++ rest) state) : known rest after := by
  induction items generalizing state with
  | nil =>
    obtain rfl : state = after := Except.ok.inj h
    exact hk
  | cons item items ih =>
    rw [List.foldlM_cons] at h
    obtain ⟨middle, hmiddle, hrest⟩ := exists_of_bind_ok h
    exact ih hrest (hstep _ _ _ _ hmiddle hk)

/-- A loop of steps with more ahead. -/
theorem advances_foldlM_append {step : σ → α → ExceptT ε Id σ} (loading : σ → Loading)
    (known : List α → σ → Prop)
    (hstep : ∀ state item rest after, (step state item).run = .ok after →
      Advances disk path (loading state) (loading after) (known (item :: rest) state)
        (known rest after))
    {items : List α} (rest : List α) {state after : σ}
    (h : (items.foldlM step state).run = .ok after) :
    Advances disk path (loading state) (loading after) (known (items ++ rest) state)
      (known rest after) :=
  known_of_foldlM
    (fun ahead middle => Advances disk path (loading state) (loading middle)
      (known (items ++ rest) state) (known ahead middle))
    (fun _ _ _ _ hmiddle hk => hk.trans (hstep _ _ _ _ hmiddle)) h ⟨.refl .., fun _ hk => hk⟩

/-- A loop of steps. -/
theorem advances_foldlM {step : σ → α → ExceptT ε Id σ} (loading : σ → Loading)
    (known : List α → σ → Prop)
    (hstep : ∀ state item rest after, (step state item).run = .ok after →
      Advances disk path (loading state) (loading after) (known (item :: rest) state)
        (known rest after))
    {items : List α} {state after : σ} (h : (items.foldlM step state).run = .ok after) :
    Advances disk path (loading state) (loading after) (known items state) (known [] after) :=
  List.append_nil items ▸ advances_foldlM_append loading known hstep [] (List.append_nil items ▸ h)

/-- A loop fails in one of its steps, after those before it. -/
theorem exists_of_foldlM_error {step : σ → α → ExceptT ε Id σ} {items : List α} {state : σ}
    {failure : ε} (h : (items.foldlM step state).run = .error failure) :
    ∃ done item rest middle, items = done ++ item :: rest ∧
      (done.foldlM step state).run = .ok middle ∧ (step middle item).run = .error failure := by
  induction items generalizing state with
  | nil => cases h
  | cons item items ih =>
    rw [List.foldlM_cons] at h
    rcases cases_of_bind_error h with h | ⟨middle, hmiddle, h⟩
    · exact ⟨[], item, items, state, rfl, rfl, h⟩
    · obtain ⟨done, next, rest, last, rfl, hdone, hfails⟩ := ih h
      refine ⟨item :: done, next, rest, last, rfl, ?_, hfails⟩
      rw [List.foldlM_cons, run_bind, hmiddle]
      exact hdone

end

/-! ## Include statements -/

section
variable {settings : Settings} {sources : SourceMap} {source : SourceId} {output : ParseOutput}
  {tree : Tree} {statement : NodeId × String × Span}

/-- The include statements of a tree are among its statements. -/
theorem mem_includeStatements : statement ∈ includeStatements tree ↔ statement.1 ∈ tree.items ∧
    ∃ items, tree.node? statement.1 = some ⟨.includeFile statement.2.1 items, statement.2.2⟩ := by
  obtain ⟨id, name, span⟩ := statement
  simp only [includeStatements, List.mem_filterMap]
  constructor
  · rintro ⟨item, hi, hs⟩
    split at hs
    · next path items span' hn =>
      cases hs
      exact ⟨hi, items, hn⟩
    · cases hs
  · rintro ⟨hi, items, hn⟩
    exact ⟨id, hi, by rw [hn]⟩

/-- Every include statement of a tree is met once. -/
theorem nodup_includeStatements (h : tree.items.Nodup) :
    ((includeStatements tree).map Prod.fst).Nodup := by
  unfold includeStatements
  rw [List.map_filterMap]
  refine List.Pairwise.filterMap _ (fun left right hne first hf second hs => ?_) h
  split at hf
  · split at hs
    · rw [← Option.some.inj hf, ← Option.some.inj hs]
      exact hne
    · cases hs
  · cases hf

/-- The output of a parse is parsed. -/
theorem ParsesTo.isParsed (h : ParsesTo settings sources source output) :
    IsParsed settings sources source output := ⟨_, h⟩

/-- Its tree is grounded. -/
theorem IsParsed.grounded (h : IsParsed settings sources source output) : output.tree.Grounded := by
  obtain ⟨version, hparse⟩ := h
  exact (Grammar.parse_grounded hparse).1

/-- Include statements of a parse are empty, and none is marked. -/
theorem IsParsed.fresh (h : IsParsed settings sources source output) {id : NodeId} {other : Node}
    (hn : output.tree.node? id = some other) (hp : ∀ items, other.kind ≠ .program items) :
    other.kind.isFresh := by
  obtain ⟨items, span, hroot⟩ := h.grounded.root
  obtain ⟨version, hparse⟩ := h
  refine (Grammar.parse_grounded hparse).2.1 id other hn fun heq => ?_
  rw [heq, hroot] at hn
  cases hn
  exact hp items rfl

/-- An include statement that is listed is a node of its tree. -/
theorem IsParsed.node?_of_mem (h : IsParsed settings sources source output)
    (hm : statement ∈ includeStatements output.tree) :
    output.tree.node? statement.1 = some ⟨.includeFile statement.2.1 [], statement.2.2⟩ := by
  obtain ⟨-, items, hn⟩ := mem_includeStatements.1 hm
  cases items with
  | nil => exact hn
  | cons item items => cases h.fresh hn fun _ heq => nomatch heq

end

/-! ## Following includes -/

/-- Where the includes of a source have been followed to, with some of its statements ahead. The
sources found since there were `base` of them are the ones with the next ids. -/
structure FollowingTo (disk : Disk Id) (settings : Settings) (path : Path) (base : Nat)
    (front : List (ParseOutput × Tree)) (source : SourceId) (output : ParseOutput)
    (rest : List (NodeId × String × Span)) (following : Following) : Prop where
  last : source.index = front.length
  trees : following.loading.trees.toList = front.map Prod.snd
  ahead : ∀ statement ∈ rest,
    output.tree.node? statement.1 = some ⟨.includeFile statement.2.1 [], statement.2.2⟩
  found : following.found.map SourceId.index = List.range' base following.found.length
  count : base + following.found.length = following.loading.sources.size
  history : ∃ origins log, History disk settings path following.loading
    (front ++ [(output, following.tree)]) origins log (rest.map (source, ·))

section
variable {disk : Disk Id} {settings : Settings} {directory : Option Path} {path : Path} {base : Nat}
  {front : List (ParseOutput × Tree)} {source : SourceId} {output : ParseOutput}
  {following after : Following} {statement : NodeId × String × Span}
  {rest : List (NodeId × String × Span)}

/-- Following an include registers sources and drops none. -/
theorem follow_grows
    (h : (follow disk settings directory source following statement).run = .ok after) :
    Grows disk path following.loading after.loading := by
  unfold follow at h
  obtain ⟨⟨opened, loading⟩, hopen, h⟩ := exists_of_bind_ok h
  have hgrows : Grows disk path following.loading loading := open?_grows hopen
  refine hgrows.trans ?_
  cases opened with
  | some target =>
    obtain rfl := Except.ok.inj h
    exact .of_eq rfl rfl rfl
  | none =>
    dsimp only at h
    split at h
    · obtain rfl := Except.ok.inj h
      exact .of_eq rfl rfl rfl
    · cases h

/-- Following a statement settles it. -/
theorem FollowingTo.follow
    (hk : FollowingTo disk settings path base front source output (statement :: rest) following)
    (hd : following.loading.sources.directory? source = directory)
    (hb : after.loading.sources.size ≤ maxOffset + 1)
    (h : (follow disk settings directory source following statement).run = .ok after) :
    FollowingTo disk settings path base front source output rest after := by
  obtain ⟨node, name, span⟩ := statement
  obtain ⟨origins, log, hhistory⟩ := hk.history
  have hahead := fun other ho => hk.ahead other (List.mem_cons_of_mem _ ho)
  have hsource : source.index < (front ++ [(output, following.tree)]).length := by
    rw [List.length_append, hk.last]
    exact Nat.lt_succ_self _
  have hresolution : Id.run (settings.search.resolve disk directory name) =
      resolution disk settings following.loading.sources source name := by rw [resolution, hd]
  unfold Loading.follow at h
  obtain ⟨⟨opened, loading⟩, hopen, h⟩ := exists_of_bind_ok h
  have hopens : loading.sources.size ≤ maxOffset + 1 →
      Opens disk path following.loading origins
        (resolution disk settings following.loading.sources source name) (opened, loading) :=
    fun hb => hresolution ▸ open?_opens hopen hhistory.registers hb
  cases opened with
  | none =>
    dsimp only at h
    split at h
    · next tree hmark =>
      obtain rfl := Except.ok.inj h
      cases hopens hb with
      | nowhere hnowhere =>
        obtain ⟨marked, hmark', hmiss⟩ :=
          hhistory.miss hk.last (hk.ahead _ List.mem_cons_self) hnowhere
        obtain rfl := Except.ok.inj (hmark.symm.trans hmark')
        exact ⟨hk.last, hk.trees, hahead, hk.found, hk.count, origins, _, hmiss⟩
    · cases h
  | some target =>
    obtain rfl := Except.ok.inj h
    cases hopens hb with
    | @registered id hid =>
      have hlt := (List.getElem?_eq_some_iff.1 hid).1
      rw [← List.append_nil origins] at hid
      have hregisters : Registers disk path following.loading (origins ++ []) :=
        (List.append_nil origins).symm ▸ hhistory.registers
      have hedge := hhistory.addEdge hregisters (.refl _) rfl rfl hsource
        (Nat.le_of_lt hlt) (by rw [List.append_nil, Nat.max_eq_left hlt]) hid
      exact ⟨hk.last, hk.trees, hahead, hk.found, hk.count, _, _, hedge⟩
    | new hne hregisters hw htrees hgraph hdiagnostics =>
      have htarget : (origins ++ [_])[(⟨origins.length⟩ : SourceId).index]? =
          some (resolution disk settings following.loading.sources source name) :=
        getElem?_concat_iff.2 (.inr ⟨rfl, rfl⟩)
      have hedge := hhistory.addEdge hregisters hw hgraph hdiagnostics hsource (Nat.le_refl _)
        (by simp) htarget
      have hsize : loading.sources.size = following.loading.sources.size + 1 := by
        rw [← hregisters.size, ← hhistory.registers.size, List.length_append]
        rfl
      have hcount := hk.count
      refine ⟨hk.last, htrees ▸ hk.trees, hahead, ?_, ?_, _, _, hedge⟩
      · rw [if_pos rfl, List.map_append, hk.found, List.length_append, List.length_singleton,
          List.range'_concat, List.map_singleton, hhistory.registers.size, ← hcount, Nat.one_mul]
      · rw [if_pos rfl, List.length_append, List.length_singleton]
        exact (Nat.add_assoc ..).symm.trans (hsize ▸ congrArg (· + 1) hcount)

/-- Following a statement advances the loading by what the include names. -/
theorem follow_advances
    (h : (follow disk settings directory source following statement).run = .ok after) :
    Advances disk path following.loading after.loading
      (following.loading.sources.directory? source = directory ∧
        FollowingTo disk settings path base front source output (statement :: rest) following)
      (after.loading.sources.directory? source = directory ∧
        FollowingTo disk settings path base front source output rest after) := by
  have hgrows : Grows disk path following.loading after.loading := follow_grows h
  refine ⟨hgrows, fun hb ⟨hd, hk⟩ => ⟨?_, hk.follow hd hb h⟩⟩
  obtain ⟨origins, log, hhistory⟩ := hk.history
  have hsize := hhistory.read.size
  rw [List.length_append, List.length_singleton, ← hk.last] at hsize
  exact (hgrows.within.directory hsize).trans hd

end

/-! ## Waves -/

/-- Between two sources: all statements of those that have been read have been followed. -/
def Between (disk : Disk Id) (settings : Settings) (path : Path) (loading : Loading) : Prop :=
  ∃ reads origins log, loading.trees.toList = reads.map Prod.snd ∧
    History disk settings path loading reads origins log []

section
variable {disk : Disk Id} {settings : Settings} {path : Path} {source : SourceId}
  {loading after : Loading} {output : ParseOutput} {found : List SourceId}
  {version : Option Version} {wave : List SourceId}

/-- Following all includes of the next source settles it. -/
theorem followAll_advances (path : Path)
    (h : (followAll disk settings loading source output).run = .ok (after, found)) :
    Advances disk path loading after
      (Between disk settings path loading ∧ ParsesTo settings loading.sources source output ∧
        source.index = loading.trees.size ∧ loading.trees.size < loading.sources.size)
      (Between disk settings path after ∧ after.trees.size = loading.trees.size + 1 ∧
        found.map SourceId.index = List.range' loading.sources.size found.length ∧
        loading.sources.size + found.length = after.sources.size) := by
  unfold followAll at h
  obtain ⟨following, hfold, h⟩ := exists_of_bind_ok h
  cases h
  have hsteps := fun front => advances_foldlM Following.loading
    (fun rest following =>
      following.loading.sources.directory? source = loading.sources.directory? source ∧
        FollowingTo disk settings path loading.sources.size front source output rest following)
    (fun _ _ _ _ hstep => follow_advances hstep) hfold
  refine ⟨?_, fun hb ⟨⟨reads, origins, log, htrees, hk⟩, hp, hs, hlt⟩ => ?_⟩
  · have hfirst : Grows disk path loading { loading with
        diagnostics := loading.diagnostics.append output.diagnostics } := .of_eq rfl rfl rfl
    have hlast : Grows disk path following.loading { following.loading with
        trees := following.loading.trees.push following.tree } := .of_eq rfl rfl rfl
    exact hfirst.trans ((hsteps []).1.trans hlast)
  have hlength : loading.trees.size = reads.length := by
    rw [← Array.length_toList, htrees, List.length_map]
  rw [hlength] at hs hlt
  obtain ⟨-, hend⟩ := (hsteps reads).2 hb ⟨rfl,
    { last := hs
      trees := htrees
      ahead := fun statement hm => hp.isParsed.node?_of_mem hm
      found := rfl
      count := rfl
      history := ⟨origins, log, hk.push hs hlt hp⟩ }⟩
  obtain ⟨origins', log', hhistory⟩ := hend.history
  refine ⟨⟨_, origins', log', ?_, { hhistory.registers with }, hhistory.logged, hhistory.read⟩, ?_,
    hend.found, hend.count⟩
  · rw [Array.toList_push, hend.trees, List.map_append]
    rfl
  · rw [Array.size_push, ← Array.length_toList, hend.trees, List.length_map, hlength]

/-- What comes out of a wave are the parses of its sources. -/
theorem parseAll_ok {sources : SourceMap} {outputs : List (SourceId × ParseOutput)}
    (h : parseAll settings version sources wave = .ok outputs) :
    outputs.map Prod.fst = wave ∧ ∀ item ∈ outputs,
      parse item.1 (sources.text item.1).toList (settings.parseOptions version) = .ok item.2 := by
  unfold parseAll at h
  induction wave generalizing outputs with
  | nil =>
    cases h
    exact ⟨rfl, fun _ hm => nomatch hm⟩
  | cons source wave ih =>
    rw [List.mapM_cons] at h
    cases hparse : parse source (sources.text source).toList (settings.parseOptions version) with
    | error crash =>
      rw [hparse] at h
      cases h
    | ok output =>
      simp only [hparse, bind, Except.bind, pure, Except.pure] at h
      split at h
      · cases h
      · next rest hrest =>
        cases h
        obtain ⟨hwave, hparsed⟩ := ih hrest
        refine ⟨congrArg (source :: ·) hwave, fun item hm => ?_⟩
        rcases List.mem_cons.1 hm with rfl | hm
        · exact hparse
        · exact hparsed item hm

/-- The sources that are waiting to be read are all that have no tree yet. -/
structure Waiting (disk : Disk Id) (settings : Settings) (path : Path) (loading : Loading)
    (wave : List SourceId) : Prop where
  between : Between disk settings path loading
  ids : wave.map SourceId.index = List.range' loading.trees.size wave.length
  count : loading.trees.size + wave.length = loading.sources.size

/-- In a wave that began with the sources of `base`, with the parses of some of them ahead. -/
structure WavingTo (disk : Disk Id) (settings : Settings) (path : Path) (base : SourceMap)
    (rest : List (SourceId × ParseOutput)) (state : Loading × List SourceId) : Prop where
  between : Between disk settings path state.1
  within : Within base state.1.sources
  parsed : ∀ item ∈ rest, ParsesTo settings base item.1 item.2
  ids : rest.map (SourceId.index ∘ Prod.fst) = List.range' state.1.trees.size rest.length
  count : state.1.trees.size + rest.length = base.size
  found : state.2.map SourceId.index = List.range' base.size state.2.length
  new : base.size + state.2.length = state.1.sources.size

/-- What is known when the next source of a wave is to be followed. -/
theorem WavingTo.next {base : SourceMap} {rest : List (SourceId × ParseOutput)}
    (hk : WavingTo disk settings path base ((source, output) :: rest) (loading, found)) :
    ParsesTo settings loading.sources source output ∧ source.index = loading.trees.size ∧
      loading.trees.size < loading.sources.size := by
  have hwave := hk.ids
  rw [List.map_cons, List.length_cons, List.range'_succ] at hwave
  have hindex : source.index = loading.trees.size := (List.cons.inj hwave).1
  have hcount : loading.trees.size + (rest.length + 1) = base.size := hk.count
  have hle : base.size ≤ loading.sources.size := hk.within.size
  have hlt : source.index < base.size := by omega
  exact ⟨(hk.parsed _ List.mem_cons_self).within hk.within hlt, hindex, by omega⟩

/-- Following the includes of one source of a wave. -/
theorem wavingTo_advances {base : SourceMap} {rest : List (SourceId × ParseOutput)}
    {more : List SourceId}
    (h : (followAll disk settings loading source output).run = .ok (after, more)) :
    Advances disk path loading after
      (WavingTo disk settings path base ((source, output) :: rest) (loading, found))
      (WavingTo disk settings path base rest (after, found ++ more)) := by
  have hadvances := followAll_advances path h
  refine ⟨hadvances.1, fun hb hk => ?_⟩
  obtain ⟨hparsed, hindex, hlt⟩ := hk.next
  obtain ⟨hbetween, htrees, hmore, hnew⟩ := hadvances.2 hb ⟨hk.between, hparsed, hindex, hlt⟩
  have hwave := hk.ids
  rw [List.map_cons, List.length_cons, List.range'_succ] at hwave
  have hcount := hk.count
  rw [List.length_cons] at hcount
  exact
    { between := hbetween
      within := hk.within.trans hadvances.1.within
      parsed := fun item hm => hk.parsed item (List.mem_cons_of_mem _ hm)
      ids := by
        rw [htrees]
        exact (List.cons.inj hwave).2
      count := by
        rw [htrees, ← hcount, Nat.add_right_comm, Nat.add_assoc]
      found := by
        rw [List.map_append, hk.found, hmore, List.length_append, ← List.range'_append_1, hk.new]
      new := by
        rw [List.length_append, ← Nat.add_assoc, hk.new]
        exact hnew }

/-- All sources of a wave are ahead when it begins. -/
theorem Waiting.waving {outputs : List (SourceId × ParseOutput)}
    (hk : Waiting disk settings path loading wave)
    (hversion : ∀ source ∈ wave, versionFor settings loading.sources source = version)
    (hparse : parseAll settings version loading.sources wave = .ok outputs) :
    WavingTo disk settings path loading.sources outputs (loading, []) := by
  obtain ⟨rfl, hparsed⟩ := parseAll_ok hparse
  exact
    { between := hk.between
      within := .refl _
      parsed := fun item hm => by
        rw [ParsesTo, hversion item.1 (List.mem_map_of_mem hm)]
        exact hparsed item hm
      ids := by rw [← List.map_map, hk.ids, List.length_map]
      count := by
        rw [← hk.count, List.length_map]
      found := rfl
      new := rfl }

/-- Loading a wave gives a tree to each of its sources and yields the next one. -/
theorem loadWave_advances
    (h : (loadWave disk settings version loading wave).run = .ok (after, found)) :
    Advances disk path loading after
      (Waiting disk settings path loading wave ∧
        ∀ source ∈ wave, versionFor settings loading.sources source = version)
      (Waiting disk settings path after found ∧
        after.trees.size = loading.trees.size + wave.length) := by
  unfold loadWave at h
  obtain ⟨outputs, hparse, hfold⟩ := exists_of_bind_ok h
  have hparse : parseAll settings version loading.sources wave = .ok outputs := hparse
  have hsteps := advances_foldlM Prod.fst (WavingTo disk settings path loading.sources)
    (fun state item rest after hstep => by
      obtain ⟨⟨middle, more⟩, hfollow, hstep⟩ := exists_of_bind_ok hstep
      cases hstep
      exact wavingTo_advances hfollow) hfold
  refine ⟨hsteps.1, fun hb ⟨hk, hversion⟩ => ?_⟩
  have hend := hsteps.2 hb (hk.waving hversion hparse)
  have hdone : after.trees.size = loading.sources.size := hend.count
  refine ⟨⟨hend.between, ?_, ?_⟩, hdone.trans hk.count.symm⟩
  · rw [hdone]
    exact hend.found
  · rw [hdone]
    exact hend.new

end

/-! ## The loop over the waves -/

section
variable {settings : Settings} {sources : SourceMap} {output : ParseOutput} {tree : Tree}
  {cut : NodeId → Prop}

/-- Marks do not matter to the version with which a tree begins. -/
theorem beginning?_marks (h : tree.Grounded) {marked : Tree} (hm : Marks tree marked cut) :
    beginning? marked = beginning? tree := by
  unfold beginning?
  rw [h.items_marks hm]
  cases tree.items.head? with
  | none => rfl
  | some item =>
    rw [Option.bind_some, Option.bind_some, Tree.kind?, Tree.kind?]
    by_cases hcut : cut item
    · obtain ⟨path, span, hfile, herror⟩ := hm.cut item hcut
      rw [hfile, herror]
      rfl
    · rw [hm.same item hcut]

/-- The version statement with which a program begins, by its tree. -/
theorem leadingVersion?_map_fst (program : Program) (id : SourceId) :
    (program.leadingVersion? id).map Prod.fst = (program.tree? id).bind beginning? := by
  unfold Program.leadingVersion? beginning?
  cases program.tree? id with
  | none => rfl
  | some tree =>
    simp only [Option.bind_eq_bind, Option.bind_some]
    cases tree.items.head? with
    | none => rfl
    | some item =>
      simp only [Option.bind_some, Tree.kind?]
      cases tree.node? item with
      | none => rfl
      | some node =>
        obtain ⟨kind, span⟩ := node
        cases kind <;> rfl

end

/-- Where the loop over the waves stands: the sources that are read next, and the version as of
which they are. -/
structure Stage where
  version : Option Version
  loading : Loading
  wave : List SourceId

/-- Turns of the loop, with the waves that they read. -/
inductive Turns (disk : Disk Id) (settings : Settings) (entry : SourceId) :
    Stage → List (Option Version × List SourceId) → Stage → Prop
  | stop (stage : Stage) : Turns disk settings entry stage [] stage
  | turn {stage last : Stage} {loading : Loading} {next : List SourceId}
      {waves : List (Option Version × List SourceId)} : stage.wave ≠ [] →
      (loadWave disk settings stage.version stage.loading stage.wave).run = .ok (loading, next) →
      Turns disk settings entry
        ⟨(loading.leadingVersion? entry).map Prod.fst, loading, next⟩ waves last →
      Turns disk settings entry stage ((stage.version, stage.wave) :: waves) last

/-- The sources in the order in which they are read, each with the version as of which it is. -/
def readings (waves : List (Option Version × List SourceId)) : List (SourceId × Option Version) :=
  waves.flatMap fun (version, wave) => wave.map (·, version)

/-- All sources without a tree are read next, each as of its version. -/
structure Stage.Ready (disk : Disk Id) (settings : Settings) (path : Path) (stage : Stage) :
    Prop where
  waiting : Waiting disk settings path stage.loading stage.wave
  version : ∀ source ∈ stage.wave,
    versionFor settings stage.loading.sources source = stage.version

section
variable {disk : Disk Id} {settings : Settings} {path : Path} {entry source : SourceId}
  {loading : Loading} {next : List SourceId} {waves : List (Option Version × List SourceId)}
  {stage last : Stage}

/-- Once the entry has been read, the version as of which all others are is the one with which the
entry begins. -/
theorem Between.version (h : Between disk settings path loading) (hpos : 0 < loading.trees.size)
    (hne : source.index ≠ 0) :
    versionFor settings loading.sources source =
      (loading.leadingVersion? ⟨0⟩).map Prod.fst := by
  obtain ⟨reads, origins, log, htrees, hhistory⟩ := h
  cases reads with
  | nil =>
    rw [← Array.length_toList, htrees] at hpos
    cases hpos
  | cons read reads =>
    obtain ⟨output, tree⟩ := read
    have hparse : parse ⟨0⟩ (loading.sources.text ⟨0⟩).toList (settings.parseOptions none) =
        .ok output := hhistory.read.parsed ⟨0⟩ output tree rfl
    have htree : loading.tree? ⟨0⟩ = some tree := by
      rw [Program.tree?, ← Array.getElem?_toList, htrees]
      rfl
    rw [versionFor, if_neg hne, hparse, leadingVersion?_map_fst, htree]
    exact (beginning?_marks (Grammar.parse_grounded hparse).1
      (hhistory.read.marked ⟨0⟩ output tree rfl)).symm

/-- A turn of the loop gives trees to the sources that are read next. -/
theorem Stage.Ready.turn (h : stage.Ready disk settings path) (hne : stage.wave ≠ [])
    (hb : loading.sources.size ≤ maxOffset + 1)
    (hload : (loadWave disk settings stage.version stage.loading stage.wave).run =
      .ok (loading, next)) :
    Stage.Ready disk settings path ⟨(loading.leadingVersion? ⟨0⟩).map Prod.fst, loading, next⟩ ∧
      loading.trees.size = stage.loading.trees.size + stage.wave.length := by
  obtain ⟨hwaiting, htrees⟩ := (loadWave_advances hload).2 hb ⟨h.waiting, h.version⟩
  refine ⟨⟨hwaiting, fun source hm => ?_⟩, htrees⟩
  have hpos := List.length_pos_iff.2 hne
  refine hwaiting.between.version (by omega) fun hzero => ?_
  have hmem : source.index ∈ List.range' loading.trees.size next.length :=
    hwaiting.ids ▸ List.mem_map_of_mem hm
  have := (List.mem_range'_1.1 hmem).1
  omega

/-- Turns of the loop read the sources that have no tree yet in their order, each as of its version.
-/
theorem Turns.advances (h : Turns disk settings ⟨0⟩ stage waves last) :
    Advances disk path stage.loading last.loading (stage.Ready disk settings path)
      (last.Ready disk settings path ∧ waves.length ≤ (readings waves).length ∧
        stage.loading.trees.size + (readings waves).length = last.loading.trees.size ∧
        readings waves = (List.range' stage.loading.trees.size (readings waves).length).map
          fun index => (⟨index⟩, versionFor settings last.loading.sources ⟨index⟩)) := by
  induction h with
  | stop stage => exact ⟨.refl .., fun _ hk => ⟨hk, Nat.le_refl _, rfl, rfl⟩⟩
  | @turn stage last loading next waves hne hload _ ih =>
    have hgrows : Grows disk path stage.loading loading := (loadWave_advances hload).1
    refine ⟨hgrows.trans ih.1, fun hb hk => ?_⟩
    have hb' := Nat.le_trans ih.1.within.size hb
    obtain ⟨hready, htrees⟩ := hk.turn hne hb' hload
    obtain ⟨hlast, hlength, hcount, hreadings⟩ := ih.2 hb hready
    have hpos := List.length_pos_iff.2 hne
    have hcons : readings ((stage.version, stage.wave) :: waves) =
        stage.wave.map (·, stage.version) ++ readings waves := rfl
    have hsize : (readings ((stage.version, stage.wave) :: waves)).length =
        stage.wave.length + (readings waves).length := by
      rw [hcons, List.length_append, List.length_map]
    refine ⟨hlast, ?_, ?_, ?_⟩
    · rw [hsize, List.length_cons]
      omega
    · rw [hsize]
      omega
    · have hwave : stage.wave =
          (List.range' stage.loading.trees.size stage.wave.length).map SourceId.mk := by
        rw [← hk.waiting.ids, List.map_map]
        exact (List.map_id' _).symm
      have hsources : 0 < stage.loading.sources.size := by
        have := hk.waiting.count
        omega
      rw [hsize, ← List.range'_append_1, List.map_append, ← htrees, hcons]
      refine congr (congrArg _ ?_) hreadings
      conv_lhs => rw [hwave]
      rw [List.map_map]
      refine List.map_congr_left fun index hm => ?_
      have hmem : (⟨index⟩ : SourceId) ∈ stage.wave := hwave ▸ List.mem_map_of_mem hm
      have hwithin := hgrows.within.trans ih.1.within
      rw [versionFor_within hwithin hsources, hk.version _ hmem]
      rfl

/-- The loop makes turns until no source is to be read next, or until it has made as many as it may.
-/
theorem turns_of_loadWaves {turns : Nat} {version : Option Version} {wave : List SourceId}
    {after : Loading}
    (h : (loadWaves disk settings entry turns version loading wave).run = .ok after) :
    ∃ waves last, Turns disk settings entry ⟨version, loading, wave⟩ waves last ∧
      last.loading = after ∧ (last.wave = [] ∨ waves.length = turns) := by
  induction turns generalizing version loading wave with
  | zero =>
    obtain rfl : loading = after := Except.ok.inj h
    exact ⟨[], _, .stop _, rfl, .inr rfl⟩
  | succ turns ih =>
    cases wave with
    | nil =>
      obtain rfl : loading = after := Except.ok.inj h
      exact ⟨[], _, .stop _, rfl, .inl rfl⟩
    | cons source wave =>
      obtain ⟨⟨middle, next⟩, hwave, hrest⟩ := exists_of_bind_ok h
      obtain ⟨waves, last, hturns, hafter, hend⟩ := ih hrest
      refine ⟨_, last, .turn (List.cons_ne_nil source wave) hwave hturns, hafter, ?_⟩
      exact hend.imp_right fun hlength => by rw [List.length_cons, hlength]

/-- The loop fails in one of its turns. -/
theorem turns_of_loadWaves_error {turns : Nat} {version : Option Version} {wave : List SourceId}
    {failure : CompileError}
    (h : (loadWaves disk settings entry turns version loading wave).run = .error failure) :
    ∃ waves last, Turns disk settings entry ⟨version, loading, wave⟩ waves last ∧
      (loadWave disk settings last.version last.loading last.wave).run = .error failure := by
  induction turns generalizing version loading wave with
  | zero => cases h
  | succ turns ih =>
    cases wave with
    | nil => cases h
    | cons source wave =>
      rcases cases_of_bind_error h with h | ⟨middle, hwave, h⟩
      · exact ⟨[], _, .stop _, h⟩
      · obtain ⟨waves, last, hturns, hlast⟩ := ih h
        exact ⟨_, last, .turn (List.cons_ne_nil source wave) hwave hturns, hlast⟩

/-- A program with one source, which is to be loaded. -/
structure Fresh (disk : Disk Id) (path : Path) (loading : Loading) : Prop where
  registers : Registers disk path loading [.file (Id.run (disk.canonical path))]
  tabled : Tabled disk path loading
  trees : loading.trees = #[]
  graph : loading.graph = {}
  diagnostics : loading.diagnostics = {}

/-- The stage at which the loop begins. -/
def Stage.first (loading : Loading) : Stage :=
  ⟨none, { loading with graph := loading.graph.addFile ⟨0⟩ }, [⟨0⟩]⟩

/-- The entry is registered by its canonical path. -/
theorem fresh_addFile {text : String} (h : (readText disk path).run = .ok text) :
    Fresh disk path (({} : Loading).addFile path (Id.run (disk.canonical path)) text).2 where
  registers :=
    { size := rfl
      nodup := List.nodup_singleton _
      entry := rfl
      holds := fun id origin ho => by
        obtain ⟨hzero, rfl⟩ := getElem?_singleton_iff.1 ho
        obtain rfl : id = ⟨0⟩ := congrArg SourceId.mk hzero
        exact .entry rfl h rfl
      byPath := fun file id => by
        rw [getElem?_singleton_iff, Resolution.file.injEq]
        have hcons : [(Id.run (disk.canonical path), (⟨0⟩ : SourceId))].lookup file = some id ↔
            none = some id ∨ (id = ⟨0⟩ ∧ Id.run (disk.canonical path) = file) := lookup_cons_iff rfl
        refine hcons.trans ((or_iff_right fun hc => nomatch hc).trans (and_congr_left' ?_))
        exact ⟨congrArg SourceId.index, congrArg SourceId.mk⟩
      byLibrary := fun library id _ => by
        rw [getElem?_singleton_iff]
        exact iff_of_false nofun fun h => nomatch h.2 }
  tabled :=
    { size := rfl
      paths := List.nodup_singleton _
      libraries := .nil
      canonical := fun file hm => .inl (List.mem_singleton.1 hm)
      known := List.nil_subset _ }
  trees := rfl
  graph := rfl
  diagnostics := rfl

/-- A fresh loading is ready for its first turn. -/
theorem Fresh.ready (h : Fresh disk path loading) :
    (Stage.first loading).Ready disk settings path where
  waiting :=
    { between := ⟨[], _, [], by rw [Stage.first, h.trees]; rfl,
        { registers := { h.registers with }
          logged :=
            { settled := fun _ hm => nomatch hm
              files := by rw [Stage.first, h.graph]; rfl
              edges := by rw [Stage.first, h.graph]; rfl
              reports := by rw [Stage.first, h.diagnostics]; rfl
              found := fun index hpos hlt => by
                rw [List.length_singleton] at hlt
                omega }
          read :=
            { size := Nat.zero_le _
              parsed := fun _ _ _ hr => nomatch hr
              marked := fun _ _ _ hr => nomatch hr
              log := rfl } }⟩
      ids := by rw [Stage.first, h.trees]; rfl
      count := by
        have hsize := h.registers.size
        rw [Stage.first, h.trees]
        exact hsize }
  version source hm := by
    obtain rfl := List.mem_singleton.1 hm
    rfl

/-- What is loaded comes of the turns of the loop. -/
theorem turns_of_load {program : Program}
    (h : (load disk settings entry loading).run = .ok program) :
    ∃ waves last, Turns disk settings entry
        ⟨none, { loading with graph := loading.graph.addFile entry }, [entry]⟩ waves last ∧
      last.loading.toProgram = program ∧ (last.wave = [] ∨ waves.length = maxOffset + 2) := by
  unfold load at h
  obtain ⟨after, hwaves, h⟩ := exists_of_bind_ok h
  obtain rfl := Except.ok.inj h
  obtain ⟨waves, last, hturns, rfl, hend⟩ := turns_of_loadWaves hwaves
  exact ⟨waves, last, hturns, rfl, hend⟩

/-- In the loop, and in a turn that follows, there are no more sources than files and libraries, and
the entry. -/
theorem Turns.size_le {files : List Path} {after : Loading}
    (h : Turns disk settings ⟨0⟩ (Stage.first loading) waves last) (hl : Fresh disk path loading)
    (hg : Grows disk path last.loading after) (hfiles : disk.Lists files) :
    after.sources.size ≤ files.length + 1 + Library.all.length := by
  have hfirst : Grows disk path loading (Stage.first loading).loading := .of_eq rfl rfl rfl
  exact (((hfirst.trans h.advances.1).trans hg).tabled hl.tabled).size_le hfiles

/-- Loading ends when every source has a tree. -/
theorem load_turns {program : Program} (hl : Fresh disk path loading)
    (h : (load disk settings ⟨0⟩ loading).run = .ok program)
    (hb : program.sources.size ≤ maxOffset + 1) :
    ∃ waves last, Turns disk settings ⟨0⟩ (Stage.first loading) waves last ∧ last.wave = [] ∧
      last.loading.toProgram = program ∧ last.Ready disk settings path ∧
      readings waves = (List.range program.sources.size).map
        fun index => (⟨index⟩, versionFor settings program.sources ⟨index⟩) := by
  obtain ⟨waves, last, hturns, rfl, hend⟩ := turns_of_load h
  have hturns : Turns disk settings ⟨0⟩ (Stage.first loading) waves last := hturns
  obtain ⟨hready, hlength, hcount, hreadings⟩ := hturns.advances.2 hb hl.ready
  have hempty : (Stage.first loading).loading.trees.size = 0 := by
    rw [Stage.first, hl.trees]
    rfl
  have hsize := hready.waiting.count
  have hnone : last.wave = [] := hend.resolve_right fun heq => by omega
  rw [hempty, Nat.zero_add] at hcount
  rw [hnone, List.length_nil, Nat.add_zero] at hsize
  refine ⟨waves, last, hturns, hnone, rfl, hready, ?_⟩
  rw [hempty, hcount, hsize] at hreadings
  rw [List.range_eq_range']
  exact hreadings

end

/-! ## Failures -/

section
variable {disk : Disk Id} {settings : Settings} {path : Path} {directory : Option Path}
  {source : SourceId} {loading : Loading} {output : ParseOutput} {version : Option Version}
  {wave : List SourceId} {failure : CompileError}

/-- An include that cannot be opened leads to a file that cannot be read. -/
theorem open?_error {name : String}
    (h : (open? disk settings directory name loading).run = .error failure) :
    ∃ file, Id.run (settings.search.resolve disk directory name) = .file file ∧
      (readText disk file).run = .error failure := by
  rcases cases_of_bind_error h with h | ⟨resolution, hresolve, h⟩
  · cases h
  obtain rfl : Id.run (settings.search.resolve disk directory name) = resolution :=
    Except.ok.inj hresolve
  cases hfound : Id.run (settings.search.resolve disk directory name) with
  | notFound =>
    rw [hfound] at h
    cases h
  | file file =>
    rw [hfound] at h
    dsimp only at h
    split at h
    · cases h
    · rcases cases_of_bind_error h with h | ⟨text, -, h⟩
      · exact ⟨file, rfl, h⟩
      · cases h
  | library library =>
    rw [hfound] at h
    dsimp only at h
    split at h <;> cases h

/-- The statements of a parse that are ahead can be marked, whichever have been marked before. -/
def Markable (output : ParseOutput) (rest : List (NodeId × String × Span))
    (following : Following) : Prop :=
  (∃ cut, Marks output.tree following.tree cut) ∧ ∀ statement ∈ rest,
    output.tree.node? statement.1 = some ⟨.includeFile statement.2.1 [], statement.2.2⟩

/-- The next statement of those to be followed can be marked. -/
theorem Markable.mark {following : Following} {statement : NodeId × String × Span}
    {rest : List (NodeId × String × Span)} (h : Markable output (statement :: rest) following) :
    ∃ marked cut, following.tree.markIncludeError statement.1 = .ok marked ∧
      Marks output.tree marked cut := by
  obtain ⟨⟨cut, hmarks⟩, hnode⟩ := h
  obtain ⟨marked, hmark, hmarked⟩ := hmarks.mark (hnode _ List.mem_cons_self)
  exact ⟨marked, _, hmark, hmarked⟩

/-- Following a statement leaves the others as they are. -/
theorem Markable.follow {following after : Following} {statement : NodeId × String × Span}
    {rest : List (NodeId × String × Span)} (hm : Markable output (statement :: rest) following)
    (h : (follow disk settings directory source following statement).run = .ok after) :
    Markable output rest after := by
  obtain ⟨marked, cut, hmark, hmarks⟩ := hm.mark
  obtain ⟨hcut, hnode⟩ := hm
  refine ⟨?_, fun other ho => hnode other (List.mem_cons_of_mem _ ho)⟩
  unfold Loading.follow at h
  obtain ⟨⟨opened, loading⟩, -, h⟩ := exists_of_bind_ok h
  cases opened with
  | some target =>
    obtain rfl := Except.ok.inj h
    exact hcut
  | none =>
    dsimp only at h
    rw [hmark] at h
    obtain rfl := Except.ok.inj h
    exact ⟨cut, hmarks⟩

/-- Following a statement fails only if it leads to a file that cannot be read. -/
theorem Markable.follow_error {following : Following} {statement : NodeId × String × Span}
    {rest : List (NodeId × String × Span)} (hm : Markable output (statement :: rest) following)
    (h : (Loading.follow disk settings directory source following statement).run =
      .error failure) :
    ∃ file, Id.run (settings.search.resolve disk directory statement.2.1) = .file file ∧
      (readText disk file).run = .error failure := by
  obtain ⟨marked, cut, hmark, -⟩ := hm.mark
  unfold Loading.follow at h
  rcases cases_of_bind_error h with h | ⟨⟨opened, loading⟩, -, h⟩
  · exact open?_error h
  · cases opened with
    | some target => cases h
    | none =>
      dsimp only at h
      rw [hmark] at h
      cases h

/-- Following the includes of a source fails only if one of them leads to a file that cannot be
read. -/
theorem followAll_error {sources : SourceMap} (hp : IsParsed settings sources source output)
    (h : (followAll disk settings loading source output).run = .error failure) :
    ∃ statement ∈ includeStatements output.tree, ∃ file,
      resolution disk settings loading.sources source statement.2.1 = .file file ∧
      (readText disk file).run = .error failure := by
  unfold followAll at h
  rcases cases_of_bind_error h with h | ⟨following, -, h⟩
  · obtain ⟨done, statement, rest, middle, heq, hdone, hfails⟩ := exists_of_foldlM_error h
    have hmarkable : Markable output (statement :: rest) middle :=
      known_of_foldlM (Markable output) (fun _ _ _ _ hstep hm => hm.follow hstep) hdone
        ⟨⟨_, .refl _⟩, fun statement hm => hp.node?_of_mem (heq ▸ hm)⟩
    exact ⟨statement, heq ▸ List.mem_append_right _ List.mem_cons_self,
      hmarkable.follow_error hfails⟩
  · cases h

/-- Sources are not parsed only if one of them is not. -/
theorem parseAll_error {sources : SourceMap}
    (h : parseAll settings version sources wave = .error failure) :
    ∃ source ∈ wave, ∃ crash, parse source (sources.text source).toList
      (settings.parseOptions version) = .error crash ∧ failure = .crash crash := by
  unfold parseAll at h
  induction wave with
  | nil => cases h
  | cons source wave ih =>
    rw [List.mapM_cons] at h
    cases hparse : parse source (sources.text source).toList (settings.parseOptions version) with
    | error crash =>
      rw [hparse] at h
      cases h
      exact ⟨source, List.mem_cons_self, crash, hparse, rfl⟩
    | ok output =>
      simp only [hparse, bind, Except.bind, pure, Except.pure] at h
      split at h
      · next hrest =>
        cases h
        obtain ⟨other, ho, hother⟩ := ih hrest
        exact ⟨other, List.mem_cons_of_mem _ ho, hother⟩
      · cases h

/-- A wave fails only if one of its sources is not parsed, or has an include that leads to a file
that cannot be read. -/
theorem loadWave_error (path : Path)
    (h : (loadWave disk settings version loading wave).run = .error failure) :
    (∃ source ∈ wave, ∃ crash, parse source (loading.sources.text source).toList
      (settings.parseOptions version) = .error crash ∧ failure = .crash crash) ∨
    ∃ source output rest middle found,
      Advances disk path loading middle
        (Waiting disk settings path loading wave ∧
          ∀ source ∈ wave, versionFor settings loading.sources source = version)
        (WavingTo disk settings path loading.sources ((source, output) :: rest) (middle, found)) ∧
      ∃ statement ∈ includeStatements output.tree, ∃ file,
        resolution disk settings middle.sources source statement.2.1 = .file file ∧
        (readText disk file).run = .error failure := by
  unfold loadWave at h
  rcases cases_of_bind_error h with h | ⟨outputs, hparse, h⟩
  · exact .inl (parseAll_error h)
  · have hparse : parseAll settings version loading.sources wave = .ok outputs := hparse
    obtain ⟨done, ⟨source, output⟩, rest, ⟨middle, found⟩, rfl, hdone, hfails⟩ :=
      exists_of_foldlM_error h
    have hsteps := advances_foldlM_append Prod.fst (WavingTo disk settings path loading.sources)
      (fun state item rest after hstep => by
        obtain ⟨⟨middle, more⟩, hfollow, hstep⟩ := exists_of_bind_ok hstep
        cases hstep
        exact wavingTo_advances hfollow) ((source, output) :: rest) hdone
    refine .inr ⟨source, output, rest, middle, found, ⟨hsteps.1, fun hb ⟨hk, hversion⟩ =>
      hsteps.2 hb (hk.waving hversion hparse)⟩, ?_⟩
    have hparsed : IsParsed settings loading.sources source output :=
      ⟨version, (parseAll_ok hparse).2 _ (List.mem_append_right _ List.mem_cons_self)⟩
    rcases cases_of_bind_error hfails with hfails | ⟨_, -, hfails⟩
    · exact followAll_error hparsed hfails
    · cases hfails

/-- Loading fails only if a file cannot be read, or the machine numbers do not suffice for a
parse. -/
theorem isReading_of_loadWaves {entry : SourceId} {turns : Nat}
    (h : (loadWaves disk settings entry turns version loading wave).run = .error failure) :
    failure.IsReading := by
  obtain ⟨waves, last, -, hfails⟩ := turns_of_loadWaves_error h
  rcases loadWave_error ⟨""⟩ hfails with ⟨source, -, crash, hparse, rfl⟩ |
    ⟨_, _, _, _, _, -, _, -, file, -, hread⟩
  · rcases Grammar.parse_completes source (last.loading.sources.text source).toList
      (settings.parseOptions last.version) with ⟨_, _, _, _, hok, _⟩ | ⟨_, herror, hover⟩
    · cases hparse.symm.trans hok
    · obtain rfl := Except.error.inj (hparse.symm.trans herror)
      exact hover.kind
  · exact isReading_of_readText hread

end

end Loading

end OpenQasm
