import Mathlib.Data.List.Nodup
import Mathlib.Data.List.Perm.Subperm
import OpenQasm.Proofs.Include.Paths

/-!
# Cutting the cycles of a graph

The depth-first walk keeps the sources on its path open: discovered and not finished. All of them
lead to the source that the walk is at, so an edge back to one of them closes a cycle. Every other
edge out of a finished source leads to a source that was finished before, so no cycle is left
without the edges that lead back. No edge on which a source is discovered leads back, so all
sources can still be reached.
-/

namespace OpenQasm.IncludeGraph

/-- Sources in the order of their discovery, the newest first: each but `root` is included by one
discovered before it. -/
inductive Planted (graph : IncludeGraph) (root : SourceId) : List SourceId → Prop
  | nil : Planted graph root []
  | root : Planted graph root [root]
  | branch {parent file : SourceId} {discovered : List SourceId} :
      Planted graph root discovered → parent ∈ discovered → graph.Follows [] parent file →
      Planted graph root (file :: discovered)

/-- A source is on the path of the walk. -/
def Walk.Open (walk : Walk) (file : SourceId) : Prop :=
  file ∈ walk.discovered ∧ file ∉ walk.finished

/-- What holds of every walk from `root`. -/
structure Walk.Tracks (graph : IncludeGraph) (root : SourceId) (walk : Walk) : Prop where
  planted : graph.Planted root walk.discovered
  nodup : walk.discovered.Nodup
  registered : ∀ file ∈ walk.discovered, file ∈ graph.files
  finished_nodup : walk.finished.Nodup
  discovered : ∀ file ∈ walk.finished, file ∈ walk.discovered
  /-- An edge out of a finished source leads back or to one that was finished before. -/
  settled : ∀ file ∈ walk.finished, ∀ next, graph.Follows [] file next →
    (file, next) ∈ walk.back ∨ Precedes walk.finished file next
  back_nodup : walk.back.Nodup
  /-- An edge that leads back closes a cycle and leads to a source discovered no later. -/
  back : ∀ file next, (file, next) ∈ walk.back → file ∈ walk.discovered ∧
    graph.Reaches [] next file ∧ (next = file ∨ Precedes walk.discovered file next)

/-- A walk goes on to another one with the same sources open. -/
structure Walk.Grows (graph : IncludeGraph) (root : SourceId) (walk after : Walk) : Prop where
  tracks : after.Tracks graph root
  discovered : walk.discovered <:+ after.discovered
  finished : walk.finished <:+ after.finished
  back : walk.back <+: after.back
  open_iff : ∀ file, after.Open file ↔ walk.Open file

/-- The walk is at an open source to which all open sources lead, and of which it is the newest. -/
structure Walk.At (graph : IncludeGraph) (walk : Walk) (file : SourceId) : Prop where
  here : walk.Open file
  leads : ∀ other, walk.Open other → graph.Reaches [] other file
  newest : ∀ other, walk.Open other → other = file ∨ Precedes walk.discovered file other

/-- What becomes of a walk at a source by one of its edges, given how the walk goes on to a source
that is new. -/
def Walk.meet (descend : SourceId → Walk → Walk) (file : SourceId) (walk : Walk)
    (entry : Nat × Inclusion) : Walk :=
  if !walk.discovered.contains entry.2.included then descend entry.2.included walk
  else if !walk.finished.contains entry.2.included then walk.noteBack (file, entry.2.included)
  else walk

/-- The edge of a source has been dealt with. -/
def Walk.Met (walk : Walk) (file : SourceId) (entry : Nat × Inclusion) : Prop :=
  (file, entry.2.included) ∈ walk.back ∨ entry.2.included ∈ walk.finished

section
variable {graph : IncludeGraph} {root file next other : SourceId} {walk after last : Walk}
  {levels : Nat} {entry : Nat × Inclusion} {descend : SourceId → Walk → Walk}

/-- A file is explored edge by edge, and left. -/
theorem explore_succ (graph : IncludeGraph) (levels : Nat) (file : SourceId) (walk : Walk) :
    graph.explore (levels + 1) file walk =
      let left := (graph.edgesFrom file).foldl (Walk.meet (graph.explore levels) file)
        { walk with discovered := file :: walk.discovered }
      { left with finished := file :: left.finished } := rfl

/-! ## How walks grow -/

/-- A walk grows into itself. -/
theorem Walk.Grows.refl (h : walk.Tracks graph root) : walk.Grows graph root walk :=
  ⟨h, List.suffix_refl _, List.suffix_refl _, List.prefix_refl _, fun _ => Iff.rfl⟩

/-- Two growths are one. -/
theorem Walk.Grows.trans (h : walk.Grows graph root after) (h' : after.Grows graph root last) :
    walk.Grows graph root last where
  tracks := h'.tracks
  discovered := h.discovered.trans h'.discovered
  finished := h.finished.trans h'.finished
  back := h.back.trans h'.back
  open_iff := fun file => (h'.open_iff file).trans (h.open_iff file)

/-- A walk that grows is still at the file it was at. -/
theorem Walk.Grows.still (h : walk.Grows graph root after) (hat : walk.At graph file) :
    after.At graph file where
  here := (h.open_iff file).2 hat.here
  leads := fun other ho => hat.leads other ((h.open_iff other).1 ho)
  newest := fun other ho =>
    (hat.newest other ((h.open_iff other).1 ho)).imp_right fun hp => hp.of_suffix h.discovered

/-- An edge that was met stays met. -/
theorem Walk.Grows.met (h : walk.Grows graph root after) (hm : walk.Met file entry) :
    after.Met file entry :=
  hm.imp (fun hb => h.back.subset hb) fun hf => h.finished.subset hf

/-- An edge to an open source leads back to it. -/
theorem Walk.Tracks.noteBack (h : walk.Tracks graph root) (hat : walk.At graph file)
    (hnext : walk.Open next) : walk.Grows graph root (walk.noteBack (file, next)) := by
  unfold Walk.noteBack
  split
  · exact .refl h
  · next hnew =>
    have hnew : (file, next) ∉ walk.back := by simpa using hnew
    refine ⟨{ h with settled := ?_, back_nodup := ?_, back := ?_ }, List.suffix_refl _,
      List.suffix_refl _, List.prefix_append .., fun _ => Iff.rfl⟩
    · intro other ho after hafter
      exact (h.settled other ho after hafter).imp_left (List.mem_append_left _)
    · exact List.nodup_append.2 ⟨h.back_nodup, by simp, fun ends he new hm heq =>
        hnew (List.mem_singleton.1 hm ▸ heq ▸ he)⟩
    · intro first second hm
      obtain hm | hm := List.mem_append.1 hm
      · exact h.back first second hm
      · obtain ⟨rfl, rfl⟩ := Prod.mk.inj (List.mem_singleton.1 hm)
        exact ⟨hat.here.1, hat.leads second hnext, hat.newest second hnext⟩

/-! ## One source, all sources -/

/-- The walk goes on from every new source as it should: with a level for each source that is not
discovered, it grows until the source is finished. -/
def Descends (graph : IncludeGraph) (root : SourceId) (levels : Nat)
    (descend : SourceId → Walk → Walk) : Prop :=
  ∀ file walk, walk.Tracks graph root → graph.Planted root (file :: walk.discovered) →
    file ∈ graph.files → file ∉ walk.discovered →
    (∀ other, walk.Open other → graph.Reaches [] other file) →
    graph.files.length ≤ levels + walk.discovered.length →
    walk.Grows graph root (descend file walk) ∧ file ∈ (descend file walk).finished

/-- What one edge of a source does. -/
theorem Descends.meet (hd : graph.Descends root levels descend) (hc : graph.Closed)
    (h : walk.Tracks graph root) (hat : walk.At graph file)
    (hl : graph.files.length ≤ levels + walk.discovered.length)
    (he : entry ∈ graph.edgesFrom file) :
    walk.Grows graph root (walk.meet descend file entry) ∧
      (walk.meet descend file entry).Met file entry := by
  have hstep : graph.Follows [] file entry.2.included :=
    mem_successors.1 (List.mem_map_of_mem (List.mem_filter.2 ⟨he, by simp⟩))
  unfold Walk.meet
  split
  · next hnew =>
    have hnew : entry.2.included ∉ walk.discovered := by simpa using hnew
    obtain ⟨hgrows, hfinished⟩ := hd _ walk h (.branch h.planted hat.here.1 hstep)
      (mem_files_of_follows hc hstep) hnew
      (fun other ho => (hat.leads other ho).tail hstep) hl
    exact ⟨hgrows, .inr hfinished⟩
  · next hold =>
    have hold : entry.2.included ∈ walk.discovered := by simpa using hold
    split
    · next hopen =>
      have hopen : entry.2.included ∉ walk.finished := by simpa using hopen
      refine ⟨h.noteBack hat ⟨hold, hopen⟩, .inl ?_⟩
      unfold Walk.noteBack
      split
      · next hm => simpa using hm
      · simp
    · next hfinished => exact ⟨.refl h, .inr (by simpa using hfinished)⟩

/-- What the edges of a source do, one after the other. -/
theorem Descends.scan (hd : graph.Descends root levels descend) (hc : graph.Closed)
    {entries : List (Nat × Inclusion)} (he : ∀ entry ∈ entries, entry ∈ graph.edgesFrom file)
    (h : walk.Tracks graph root) (hat : walk.At graph file)
    (hl : graph.files.length ≤ levels + walk.discovered.length) :
    walk.Grows graph root (entries.foldl (Walk.meet descend file) walk) ∧
      ∀ entry ∈ entries, (entries.foldl (Walk.meet descend file) walk).Met file entry := by
  induction entries generalizing walk with
  | nil => exact ⟨.refl h, nofun⟩
  | cons entry entries ih =>
    obtain ⟨hfirst, hmet⟩ := hd.meet hc h hat hl (he entry List.mem_cons_self)
    have hlength := hfirst.discovered.length_le
    obtain ⟨hrest, hall⟩ := ih (fun other ho => he other (List.mem_cons_of_mem _ ho))
      hfirst.tracks (hfirst.still hat) (by omega)
    refine ⟨hfirst.trans hrest, fun other ho => ?_⟩
    obtain rfl | ho := List.mem_cons.1 ho
    · exact hrest.met hmet
    · exact hall other ho

/-- The walk enters a new source. -/
theorem Walk.Tracks.enter (h : walk.Tracks graph root)
    (hp : graph.Planted root (file :: walk.discovered)) (hf : file ∈ graph.files)
    (hnew : file ∉ walk.discovered) :
    Walk.Tracks graph root { walk with discovered := file :: walk.discovered } where
  planted := hp
  nodup := List.nodup_cons.2 ⟨hnew, h.nodup⟩
  registered := List.forall_mem_cons.2 ⟨hf, h.registered⟩
  finished_nodup := h.finished_nodup
  discovered := fun other ho => List.mem_cons_of_mem _ (h.discovered other ho)
  settled := h.settled
  back_nodup := h.back_nodup
  back := fun first second hm => by
    obtain ⟨hfirst, hreach, hplace⟩ := h.back first second hm
    exact ⟨List.mem_cons_of_mem _ hfirst, hreach, hplace.imp_right Precedes.cons⟩

/-- The walk leaves a source whose edges have all been dealt with. -/
theorem Walk.Tracks.leave (h : walk.Tracks graph root) (ho : walk.Open file)
    (hmet : ∀ entry ∈ graph.edgesFrom file, walk.Met file entry) :
    Walk.Tracks graph root { walk with finished := file :: walk.finished } where
  planted := h.planted
  nodup := h.nodup
  registered := h.registered
  finished_nodup := List.nodup_cons.2 ⟨ho.2, h.finished_nodup⟩
  discovered := List.forall_mem_cons.2 ⟨ho.1, h.discovered⟩
  settled := by
    intro other hm next hstep
    obtain rfl | hm := List.mem_cons.1 hm
    · obtain ⟨index, edge, he, -, hfile, rfl⟩ := hstep
      exact (hmet (index, edge) (mem_edgesFrom.2 ⟨he, hfile⟩)).imp_right precedes_cons
    · exact (h.settled other hm next hstep).imp_right Precedes.cons
  back_nodup := h.back_nodup
  back := h.back

/-- With one level more, the walk goes through one source more. -/
theorem Descends.succ (hd : graph.Descends root levels (graph.explore levels))
    (hc : graph.Closed) : graph.Descends root (levels + 1) (graph.explore (levels + 1)) := by
  intro file walk h hp hf hnew hleads hl
  rw [explore_succ]
  have henter := h.enter hp hf hnew
  have hfinished : file ∉ walk.finished := fun hm => hnew (h.discovered file hm)
  have hat : Walk.At graph { walk with discovered := file :: walk.discovered } file := by
    refine ⟨⟨List.mem_cons_self, hfinished⟩, fun other ho => ?_, fun other ho => ?_⟩
    · obtain rfl | hm := List.mem_cons.1 ho.1
      · exact .refl
      · exact hleads other ⟨hm, ho.2⟩
    · exact (List.mem_cons.1 ho.1).imp_right precedes_cons
  obtain ⟨hgrows, hmet⟩ := hd.scan hc (fun _ he => he) henter hat
    (by simp only [List.length_cons]; omega)
  refine ⟨⟨hgrows.tracks.leave ((hgrows.open_iff file).2 hat.here) hmet,
    (List.suffix_cons ..).trans hgrows.discovered, hgrows.finished.trans (List.suffix_cons ..),
    hgrows.back, fun other => ?_⟩, List.mem_cons_self⟩
  -- The source was not open before, and it is not open any more.
  have hopen := hgrows.open_iff other
  simp only [Walk.Open, List.mem_cons, not_or] at hopen ⊢
  constructor
  · rintro ⟨hm, hne, hn⟩
    exact ⟨(hopen.1 ⟨hm, hn⟩).1.resolve_left hne, (hopen.1 ⟨hm, hn⟩).2⟩
  · rintro ⟨hm, hn⟩
    exact ⟨(hopen.2 ⟨.inr hm, hn⟩).1, fun heq => hnew (heq ▸ hm), (hopen.2 ⟨.inr hm, hn⟩).2⟩

/-- Exploring to any depth descends. -/
theorem descends_explore (hc : graph.Closed) (root : SourceId) (levels : Nat) :
    graph.Descends root levels (graph.explore levels) := by
  induction levels with
  | zero =>
    -- A source that is not discovered leaves one level at least.
    intro file walk h _ hf hnew _ hl
    have hlength : (file :: walk.discovered).length ≤ graph.files.length :=
      (List.subperm_of_subset (List.nodup_cons.2 ⟨hnew, h.nodup⟩)
        (List.forall_mem_cons.2 ⟨hf, h.registered⟩)).length_le
    simp only [List.length_cons] at hlength
    omega
  | succ levels ih => exact ih.succ hc

/-! ## The whole walk -/

/-- What the walk from a registered source leaves: no source is open. -/
theorem explored (hc : graph.Closed) (hr : root ∈ graph.files) :
    (graph.explore graph.files.length root {}).Tracks graph root ∧
      root ∈ (graph.explore graph.files.length root {}).finished ∧
      ∀ file ∈ (graph.explore graph.files.length root {}).discovered,
        file ∈ (graph.explore graph.files.length root {}).finished := by
  have hstart : Walk.Tracks graph root {} :=
    ⟨.nil, .nil, nofun, .nil, nofun, nofun, .nil, nofun⟩
  obtain ⟨hgrows, hroot⟩ := descends_explore hc root graph.files.length root {} hstart .root hr
    List.not_mem_nil (fun _ ho => nomatch ho.1) (Nat.le_refl _)
  refine ⟨hgrows.tracks, hroot, fun file hm => ?_⟩
  by_cases hf : file ∈ (graph.explore graph.files.length root {}).finished
  · exact hf
  · exact nomatch ((hgrows.open_iff file).1 ⟨hm, hf⟩).1

/-- The edges between two sources, each once. -/
theorem mem_parallelEdges {includer included : SourceId} {index : Nat} :
    index ∈ graph.parallelEdges includer included ↔
      ∃ edge, graph.edge? index = some edge ∧ edge.includer = includer ∧
        edge.included = included := by
  simp only [parallelEdges, List.mem_map, List.mem_mergeSort, List.mem_filter, Prod.exists,
    mem_edgesFrom, decide_eq_true_eq, and_assoc]
  constructor
  · rintro ⟨index, edge, he, hfile, hnext, rfl⟩
    exact ⟨edge, he, hfile, hnext⟩
  · rintro ⟨edge, he, hfile, hnext⟩
    exact ⟨index, edge, he, hfile, hnext, rfl⟩

/-- No edge is parallel to another one twice. -/
theorem nodup_parallelEdges (graph : IncludeGraph) (includer included : SourceId) :
    (graph.parallelEdges includer included).Nodup := by
  refine List.pairwise_map.2 (((List.mergeSort_perm ..).pairwise_iff Ne.symm).2 ?_)
  exact (graph.edgesFrom_pairwise includer).filter _

/-- The edges listed are those between the ends noted. -/
theorem mem_backEdges (hr : root ∈ graph.files) {index : Nat} :
    index ∈ graph.backEdges root ↔ ∃ edge, graph.edge? index = some edge ∧
      (edge.includer, edge.included) ∈ (graph.explore graph.files.length root {}).back := by
  rw [backEdges, if_pos (by simpa using hr), List.mem_flatMap]
  constructor
  · rintro ⟨⟨includer, included⟩, hm, hindex⟩
    obtain ⟨edge, he, rfl, rfl⟩ := mem_parallelEdges.1 hindex
    exact ⟨edge, he, hm⟩
  · rintro ⟨edge, he, hm⟩
    exact ⟨_, hm, mem_parallelEdges.2 ⟨edge, he, rfl, rfl⟩⟩

/-- With the cut edges away, all is followed but what leads back. -/
theorem follows_backEdges_iff (hr : root ∈ graph.files) :
    graph.Follows (graph.backEdges root) file next ↔ graph.Follows [] file next ∧
      (file, next) ∉ (graph.explore graph.files.length root {}).back := by
  constructor
  · intro hstep
    refine ⟨hstep.uncut, fun hm => ?_⟩
    obtain ⟨index, edge, he, hcut, rfl, rfl⟩ := hstep
    exact hcut ((mem_backEdges hr).2 ⟨edge, he, hm⟩)
  · rintro ⟨⟨index, edge, he, -, rfl, rfl⟩, hm⟩
    refine ⟨index, edge, he, fun hcut => hm ?_, rfl, rfl⟩
    obtain ⟨edge', he', hm'⟩ := (mem_backEdges hr).1 hcut
    obtain rfl := Option.some.inj (he.symm.trans he')
    exact hm'

/-- No source without edges leads anywhere. -/
theorem reaches_of_not_mem (hc : graph.Closed) (hr : root ∉ graph.files) {cut : List Nat}
    (h : graph.Reaches cut root file) : file = root := by
  induction h with
  | refl => rfl
  | tail _ hstep ih =>
    obtain ⟨index, edge, he, -, hfile, -⟩ := hstep
    have hm : edge.includer ∈ graph.files :=
      hc.includer edge (List.mem_of_getElem? (Array.getElem?_toList.trans he))
    exact absurd (ih ▸ hfile ▸ hm) hr

/-! ## The cut -/

/-- No edge is cut twice. -/
theorem nodup_backEdges (hc : graph.Closed) (root : SourceId) : (graph.backEdges root).Nodup := by
  unfold backEdges
  split
  · next hr =>
    have hr : root ∈ graph.files := by simpa using hr
    obtain ⟨htracks, -⟩ := explored hc hr
    refine List.nodup_flatMap.2 ⟨fun ends _ => nodup_parallelEdges .., ?_⟩
    refine htracks.back_nodup.imp fun {left right} hne index hl hr => hne ?_
    obtain ⟨edge, he, hincluder, hincluded⟩ := mem_parallelEdges.1 hl
    obtain ⟨edge', he', hincluder', hincluded'⟩ := mem_parallelEdges.1 hr
    obtain rfl := Option.some.inj (he.symm.trans he')
    exact Prod.ext (hincluder.symm.trans hincluder') (hincluded.symm.trans hincluded')
  · exact .nil

/-- Without the edges listed, the sources discovered can still be reached. -/
theorem Planted.reaches {discovered all : List SourceId} (hp : graph.Planted root discovered)
    {cut : List Nat} (hs : discovered <:+ all)
    (hcut : ∀ file next, Precedes all next file → graph.Follows [] file next →
      graph.Follows cut file next) :
    ∀ file ∈ discovered, graph.Reaches cut root file := by
  induction hp with
  | nil => exact nofun
  | root => exact fun file hm => List.mem_singleton.1 hm ▸ .refl
  | branch _ hparent hstep ih =>
    have ih := ih ((List.suffix_cons ..).trans hs)
    refine List.forall_mem_cons.2 ⟨?_, ih⟩
    exact (ih _ hparent).tail (hcut _ _ ((precedes_cons hparent).of_suffix hs) hstep)

/-- An edge on which a source is discovered is not listed. -/
theorem reaches_of_discovered (hc : graph.Closed) (hr : root ∈ graph.files)
    (hm : file ∈ (graph.explore graph.files.length root {}).discovered) :
    graph.Reaches (graph.backEdges root) root file := by
  obtain ⟨htracks, -⟩ := explored hc hr
  refine htracks.planted.reaches (List.suffix_refl _) (fun parent next hp hstep => ?_) file hm
  refine (follows_backEdges_iff hr).2 ⟨hstep, fun hback => ?_⟩
  obtain ⟨-, -, rfl | hp'⟩ := htracks.back parent next hback
  · exact hp.irrefl htracks.nodup
  · exact (hp.trans htracks.nodup hp').irrefl htracks.nodup

/-- What the root leads to is finished in the end. -/
theorem finished_of_reaches (hc : graph.Closed) (hr : root ∈ graph.files)
    (h : graph.Reaches [] root file) :
    file ∈ (graph.explore graph.files.length root {}).finished := by
  obtain ⟨htracks, hroot, hall⟩ := explored hc hr
  induction h with
  | refl => exact hroot
  | @tail file next _ hstep ih =>
    obtain hback | hp := htracks.settled file ih next hstep
    · obtain ⟨-, -, rfl | hp⟩ := htracks.back file next hback
      · exact ih
      · exact hall next hp.mem_right
    · exact hp.mem_right

/-- Without the edges listed, every path goes to sources finished earlier. -/
theorem precedes_of_transGen (hc : graph.Closed) (hr : root ∈ graph.files)
    (hm : file ∈ (graph.explore graph.files.length root {}).finished)
    (h : Relation.TransGen (graph.Follows (graph.backEdges root)) file next) :
    Precedes (graph.explore graph.files.length root {}).finished file next := by
  obtain ⟨htracks, -⟩ := explored hc hr
  have hone : ∀ {file next}, file ∈ (graph.explore graph.files.length root {}).finished →
      graph.Follows (graph.backEdges root) file next →
      Precedes (graph.explore graph.files.length root {}).finished file next := by
    intro file next hm hstep
    obtain ⟨hstep, hback⟩ := (follows_backEdges_iff hr).1 hstep
    exact (htracks.settled file hm next hstep).resolve_left hback
  induction h with
  | single hstep => exact hone hm hstep
  | tail _ hstep ih => exact ih.trans htracks.finished_nodup (hone ih.mem_right hstep)

/-- With the cut edges away there is no cycle. -/
theorem acyclicFrom_backEdges (hc : graph.Closed) (root : SourceId) :
    graph.AcyclicFrom (graph.backEdges root) root := by
  intro file hreach hcycle
  by_cases hr : root ∈ graph.files
  · obtain ⟨htracks, -⟩ := explored hc hr
    exact (precedes_of_transGen hc hr (finished_of_reaches hc hr hreach.uncut) hcycle).irrefl
      htracks.finished_nodup
  · obtain rfl := reaches_of_not_mem hc hr hreach
    obtain ⟨next, ⟨index, edge, he, -, rfl, -⟩, -⟩ := Relation.TransGen.head'_iff.1 hcycle
    exact hr (hc.includer edge (List.mem_of_getElem? (Array.getElem?_toList.trans he)))

/-- An edge listed closes a cycle that the root leads to. -/
theorem cycle_of_mem_backEdges (hc : graph.Closed) {index : Nat}
    (hm : index ∈ graph.backEdges root) :
    ∃ edge, graph.edge? index = some edge ∧ graph.Reaches [] root edge.includer ∧
      graph.Reaches [] edge.included edge.includer := by
  by_cases hr : root ∈ graph.files
  · obtain ⟨edge, he, hback⟩ := (mem_backEdges hr).1 hm
    obtain ⟨htracks, -⟩ := explored hc hr
    obtain ⟨hfile, hreach, -⟩ := htracks.back _ _ hback
    exact ⟨edge, he, (reaches_of_discovered hc hr hfile).uncut, hreach⟩
  · rw [backEdges, if_neg (by simpa using hr)] at hm
    cases hm

/-- With no edge listed there is no cycle, and every edge listed is on one. -/
theorem backEdges_eq_nil_iff (hc : graph.Closed) :
    graph.backEdges root = [] ↔ graph.AcyclicFrom [] root := by
  constructor
  · intro hnil
    exact hnil ▸ acyclicFrom_backEdges hc root
  · intro hacyclic
    refine List.eq_nil_iff_forall_not_mem.2 fun index hm => ?_
    obtain ⟨edge, he, hreach, hcycle⟩ := cycle_of_mem_backEdges hc hm
    exact hacyclic edge.includer hreach
      (.head' ⟨index, edge, he, List.not_mem_nil, rfl, rfl⟩ hcycle)

/-- With the cut edges away, what was reached is still reached. -/
theorem reaches_backEdges (hc : graph.Closed) (h : graph.Reaches [] root file) :
    graph.Reaches (graph.backEdges root) root file := by
  by_cases hr : root ∈ graph.files
  · obtain ⟨htracks, -⟩ := explored hc hr
    exact reaches_of_discovered hc hr (htracks.discovered file (finished_of_reaches hc hr h))
  · exact reaches_of_not_mem hc hr h ▸ .refl

end

/-- A list of edges that cuts the cycles reachable from `root`, and does no more. -/
structure CutsCycles (graph : IncludeGraph) (root : SourceId) (cut : List Nat) : Prop where
  nodup : cut.Nodup
  /-- Every edge listed lies on a cycle: `root` leads to its includer, and from what it includes
  there is a way back. -/
  onCycle : ∀ index ∈ cut, ∃ edge, graph.edge? index = some edge ∧
    graph.Reaches [] root edge.includer ∧ graph.Reaches [] edge.included edge.includer
  acyclic : graph.AcyclicFrom cut root
  reaches : ∀ file, graph.Reaches [] root file → graph.Reaches cut root file
  eq_nil_iff : cut = [] ↔ graph.AcyclicFrom [] root

/-- However a graph was built and wherever the walk starts, the edges that it lists cut the cycles
there. -/
theorem backEdges_cutsCycles (calls : List Registration) (root : SourceId) :
    (built calls).CutsCycles root ((built calls).backEdges root) where
  nodup := nodup_backEdges (closed_built calls) root
  onCycle := fun _ => cycle_of_mem_backEdges (closed_built calls)
  acyclic := acyclicFrom_backEdges (closed_built calls) root
  reaches := fun _ => reaches_backEdges (closed_built calls)
  eq_nil_iff := backEdges_eq_nil_iff (closed_built calls)

end OpenQasm.IncludeGraph
