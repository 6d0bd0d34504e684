import Mathlib.Algebra.GroupWithZero.Nat
import OpenQasm.Include.Graph

/-!
# The order of merging

The walk in post-order lists no source twice, and its rounds are enough to come back to the source
that it starts from. What a round may still have to do is bounded by the sources that are not
discovered, with the edges out of them, and by the stack.
-/

namespace OpenQasm.IncludeGraph

/-- Every source is registered once, and so are the sources at both ends of every edge. -/
structure Closed (graph : IncludeGraph) : Prop where
  nodup : graph.files.Nodup
  includer : ∀ edge ∈ graph.edges.toList, edge.includer ∈ graph.files
  included : ∀ edge ∈ graph.edges.toList, edge.included ∈ graph.files

section
variable {graph : IncludeGraph} {cut : List Nat} {file : SourceId}

/-- A file more is no edge more. -/
theorem addFile_edges (graph : IncludeGraph) (file : SourceId) :
    (graph.addFile file).edges = graph.edges := by
  unfold addFile
  split <;> rfl

/-! ## No source twice -/

/-- What is listed has not been finished before, and is listed once. -/
theorem postOrderFrom_nodup (graph : IncludeGraph) (cut : List Nat) (rounds : Nat)
    (stack discovered finished : List SourceId) :
    (graph.postOrderFrom cut rounds stack discovered finished).Nodup ∧
      ∀ file ∈ graph.postOrderFrom cut rounds stack discovered finished, file ∉ finished := by
  fun_induction postOrderFrom graph cut rounds stack discovered finished with
  | case1 | case2 => exact ⟨.nil, fun _ h => nomatch h⟩
  | case3 _ _ _ _ _ _ _ _ ih => exact ih
  | case4 rounds file stack discovered finished _ hf ih =>
    have hfile : file ∉ finished := by simpa using hf
    refine ⟨List.nodup_cons.2 ⟨fun hm => ih.2 file hm List.mem_cons_self, ih.1⟩, fun other ho => ?_⟩
    rcases List.mem_cons.1 ho with rfl | ho
    · exact hfile
    · exact fun hm => ih.2 other ho (List.mem_cons_of_mem _ hm)
  | case5 _ _ _ _ _ _ _ ih => exact ih

/-- No file is merged twice. -/
theorem nodup_mergeOrder (graph : IncludeGraph) (root : SourceId) (cut : List Nat) :
    (graph.mergeOrder root cut).Nodup := by
  unfold mergeOrder
  split
  · exact (postOrderFrom_nodup ..).1
  · exact .nil

/-! ## Enough rounds -/

/-- What is left to do for sources that are not discovered: one round for each of them and one for
each source that it includes. -/
def workLeft (graph : IncludeGraph) (cut : List Nat) (discovered : List SourceId)
    (files : List SourceId) : Nat :=
  ((files.filter fun file => !discovered.contains file).map fun file =>
    1 + (graph.successors cut file).length).sum

/-- Discovering a source takes its share off the work. -/
theorem workLeft_cons (graph : IncludeGraph) (cut : List Nat) {discovered files : List SourceId}
    (hn : files.Nodup) (hm : file ∈ files) (hd : file ∉ discovered) :
    graph.workLeft cut (file :: discovered) files + (1 + (graph.successors cut file).length) =
      graph.workLeft cut discovered files := by
  induction files with
  | nil => cases hm
  | cons other files ih =>
    obtain ⟨hother, hn⟩ := List.nodup_cons.1 hn
    unfold workLeft at ih ⊢
    rcases List.mem_cons.1 hm with rfl | hm
    · have hsame : files.filter (fun other => !(file :: discovered).contains other) =
          files.filter fun other => !discovered.contains other := by
        refine List.filter_congr fun other ho => ?_
        have hne : other ≠ file := fun heq => hother (heq ▸ ho)
        simp [hne]
      rw [List.filter_cons_of_neg (by simp), List.filter_cons_of_pos (by simp [hd]), hsame,
        List.map_cons, List.sum_cons]
      omega
    · have hne : other ≠ file := fun heq => hother (heq ▸ hm)
      have ih := ih hn hm
      by_cases hc : other ∈ discovered
      · rw [List.filter_cons_of_neg (by simp [hc, hne]), List.filter_cons_of_neg (by simp [hc])]
        exact ih
      · rw [List.filter_cons_of_pos (by simp [hc, hne]), List.filter_cons_of_pos (by simp [hc]),
          List.map_cons, List.map_cons, List.sum_cons, List.sum_cons]
        omega

/-- The successors in a closed graph are its files. -/
theorem mem_files_of_mem_successors (h : graph.Closed) {next : SourceId}
    (hm : next ∈ graph.successors cut file) : next ∈ graph.files := by
  obtain ⟨⟨index, edge⟩, hedge, rfl⟩ := List.mem_map.1 hm
  have he := (mem_edgesFrom.1 (List.mem_filter.1 hedge).1).1
  exact h.included edge (List.mem_of_getElem? ((Array.getElem?_toList).trans he))

/-- With a round for all that is left to do and for all that is on the stack, everything on the
stack is listed unless it is finished. -/
theorem mem_postOrderFrom (h : graph.Closed) {rounds : Nat}
    {stack discovered finished : List SourceId} (hs : ∀ file ∈ stack, file ∈ graph.files)
    (hr : stack.length + graph.workLeft cut discovered graph.files ≤ rounds)
    (hm : file ∈ stack) (hf : file ∉ finished) :
    file ∈ graph.postOrderFrom cut rounds stack discovered finished := by
  fun_induction postOrderFrom graph cut rounds stack discovered finished with
  | case1 stack =>
    have := List.length_pos_of_mem hm
    omega
  | case2 => cases hm
  | case3 rounds first stack discovered finished hd discovered' above ih =>
    have hnew : first ∉ discovered := by simpa using hd
    have hwork := graph.workLeft_cons cut h.nodup (hs first List.mem_cons_self) hnew
    have habove : above.length ≤ (graph.successors cut first).length := List.length_filter_le ..
    refine ih (fun other ho => ?_) ?_ ?_ hf
    · rcases List.mem_append.1 ho with ho | ho
      · exact mem_files_of_mem_successors h (List.mem_filter.1 (List.mem_reverse.1 ho)).1
      · exact hs other ho
    · rw [List.length_append, List.length_reverse]
      simp only [discovered']
      omega
    · exact List.mem_append_right _ hm
  | case4 rounds first stack discovered finished _ _ ih =>
    by_cases heq : file = first
    · exact heq ▸ List.mem_cons_self
    · refine List.mem_cons_of_mem _ (ih (fun other ho => hs other (List.mem_cons_of_mem _ ho)) ?_
        ((List.mem_cons.1 hm).resolve_left heq) ?_)
      · rw [List.length_cons] at hr
        omega
      · simp [heq, hf]
  | case5 rounds first stack discovered finished _ hfirst ih =>
    have hne : file ≠ first := fun heq => hf (by simpa [heq] using hfirst)
    refine ih (fun other ho => hs other (List.mem_cons_of_mem _ ho)) ?_
      ((List.mem_cons.1 hm).resolve_left hne) hf
    rw [List.length_cons] at hr
    omega

/-- Each edge counts for one source at most. -/
theorem sum_countP_le {files : List SourceId} (hn : files.Nodup) (edges : List Inclusion) :
    (files.map fun file => edges.countP (·.includer = file)).sum ≤ edges.length := by
  induction files generalizing edges with
  | nil => exact Nat.zero_le _
  | cons file files ih =>
    obtain ⟨hfile, hn⟩ := List.nodup_cons.1 hn
    let others := edges.filter fun edge => !decide (edge.includer = file)
    have hothers : (files.map fun other => edges.countP (·.includer = other)) =
        files.map fun other => others.countP (·.includer = other) := by
      refine List.map_congr_left fun other ho => ?_
      rw [List.countP_filter]
      refine List.countP_congr fun edge _ => ?_
      have hne : other ≠ file := fun heq => hfile (heq ▸ ho)
      simp only [decide_eq_true_eq, Bool.and_eq_true, Bool.not_eq_true', decide_eq_false_iff_not]
      exact ⟨fun heq => ⟨heq, heq ▸ hne⟩, And.left⟩
    have hsplit := List.length_eq_countP_add_countP (fun edge : Inclusion => edge.includer = file)
      (l := edges)
    have hlength : others.length = edges.countP fun edge => !decide (edge.includer = file) :=
      List.countP_eq_length_filter.symm
    have hrest := ih hn others
    rw [List.map_cons, List.sum_cons, hothers]
    simp only [decide_not, decide_eq_true_eq] at hsplit
    omega

/-- At the start there is no more to do than there are sources and edges. -/
theorem workLeft_nil_le (h : graph.Closed) (cut : List Nat) :
    graph.workLeft cut [] graph.files ≤ graph.files.length + graph.edges.size := by
  have hcount : ∀ file, (graph.successors cut file).length ≤
      graph.edges.toList.countP (·.includer = file) := fun file => by
    have hedges : (graph.edgesFrom file).length =
        graph.edges.toList.countP (·.includer = file) := by
      have hzip := List.zipIdx_map_fst 0 graph.edges.toList
      rw [edgesFrom, List.length_map, List.length_reverse, ← List.countP_eq_length_filter]
      conv => rhs; rw [← hzip]
      rw [List.countP_map]
      rfl
    rw [← hedges, successors, List.length_map]
    exact List.length_filter_le ..
  have hall : graph.files.filter (fun file => !([] : List SourceId).contains file) = graph.files :=
    List.filter_eq_self.2 fun _ _ => by simp
  rw [workLeft, hall]
  have hsum := sum_countP_le h.nodup graph.edges.toList
  rw [Array.length_toList] at hsum
  refine Nat.le_trans ?_ (Nat.add_le_add_left hsum _)
  generalize graph.files = files
  clear hall hsum
  induction files with
  | nil => exact Nat.zero_le _
  | cons file files ih =>
    have := hcount file
    rw [List.map_cons, List.sum_cons, List.map_cons, List.sum_cons, List.length_cons]
    omega

/-- The source that the walk starts from is listed. -/
theorem mem_mergeOrder (h : graph.Closed) (hm : file ∈ graph.files) :
    file ∈ graph.mergeOrder file cut := by
  unfold mergeOrder
  rw [if_pos (by simpa using hm)]
  refine mem_postOrderFrom h (fun other ho => List.mem_singleton.1 ho ▸ hm) ?_
    List.mem_cons_self List.not_mem_nil
  have := workLeft_nil_le h cut
  rw [List.length_singleton]
  omega

/-- Only registered sources are listed. -/
theorem mem_files_of_mem_postOrderFrom (h : graph.Closed) {rounds : Nat}
    {stack discovered finished : List SourceId} (hs : ∀ file ∈ stack, file ∈ graph.files)
    (hm : file ∈ graph.postOrderFrom cut rounds stack discovered finished) :
    file ∈ graph.files := by
  fun_induction postOrderFrom graph cut rounds stack discovered finished with
  | case1 | case2 => cases hm
  | case3 rounds first stack discovered finished _ discovered' above ih =>
    refine ih (fun other ho => ?_) hm
    rcases List.mem_append.1 ho with ho | ho
    · exact mem_files_of_mem_successors h (List.mem_filter.1 (List.mem_reverse.1 ho)).1
    · exact hs other ho
  | case4 rounds first stack discovered finished _ _ ih =>
    rcases List.mem_cons.1 hm with rfl | hm
    · exact hs _ List.mem_cons_self
    · exact ih (fun other ho => hs other (List.mem_cons_of_mem _ ho)) hm
  | case5 rounds first stack discovered finished _ _ ih =>
    exact ih (fun other ho => hs other (List.mem_cons_of_mem _ ho)) hm

/-- All sources that are merged are registered. -/
theorem mem_files_of_mem_mergeOrder (h : graph.Closed) {root : SourceId}
    (hm : file ∈ graph.mergeOrder root cut) : file ∈ graph.files := by
  unfold mergeOrder at hm
  split at hm
  · next hroot =>
    have hroot : root ∈ graph.files := by simpa using hroot
    exact mem_files_of_mem_postOrderFrom h (fun other ho => List.mem_singleton.1 ho ▸ hroot) hm
  · cases hm

/-! ## The edges out of a source -/

/-- The includes of a file are the edges that leave it. -/
theorem mem_includesOf {edge : Inclusion} :
    edge ∈ graph.includesOf file ↔
      ∃ index, graph.edge? index = some edge ∧ edge.includer = file := by
  simp only [includesOf, List.mem_map, List.mem_mergeSort, Prod.exists, exists_eq_right,
    mem_edgesFrom]

/-- Every edge out of a source is met once. -/
theorem edgesFrom_pairwise (graph : IncludeGraph) (file : SourceId) :
    (graph.edgesFrom file).Pairwise fun left right => left.1 ≠ right.1 := by
  have hindices : (graph.edges.toList.zipIdx.map Prod.snd).Nodup := by
    rw [List.zipIdx_map_snd]
    exact List.nodup_range'
  rw [edgesFrom, List.pairwise_map, List.pairwise_reverse]
  refine ((List.pairwise_map.1 hindices).sublist List.filter_sublist).imp fun hne heq => ?_
  exact hne heq.symm

/-- What holds between any two edges out of a source holds along the text. -/
theorem includesOf_pairwise {r : Inclusion → Inclusion → Prop}
    (hr : ∀ index index' edge edge', index ≠ index' → graph.edge? index = some edge →
      graph.edge? index' = some edge' → edge.includer = file → edge'.includer = file →
      r edge edge') :
    (graph.includesOf file).Pairwise r := by
  have hsorted : ((graph.edgesFrom file).mergeSort startsBefore).Pairwise
      fun left right => left.1 ≠ right.1 :=
    ((List.mergeSort_perm ..).pairwise_iff Ne.symm).2 (graph.edgesFrom_pairwise file)
  refine List.pairwise_map.2 (hsorted.imp_of_mem fun {left right} hl hr' hne => ?_)
  obtain ⟨h1, h2⟩ := mem_edgesFrom.1 (List.mem_mergeSort.1 hl)
  obtain ⟨h3, h4⟩ := mem_edgesFrom.1 (List.mem_mergeSort.1 hr')
  exact hr _ _ _ _ hne h1 h3 h2 h4

end

end OpenQasm.IncludeGraph
