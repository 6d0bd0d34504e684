import OpenQasm.Proofs.Include.Cycles

/-!
# The order of merging is topological

A source is put on the stack by every source that includes it, so it may stand there several times.
Where it was discovered, all that stands above it was put there since: its successors that are not
finished, and what these lead to. So when it is on top again, its successors are finished, unless a
cycle leads back to it.
-/

namespace OpenQasm.IncludeGraph

/-- What holds in every round of the walk from `root` if no cycle can be reached. The place of a
source on the stack is the uppermost one. -/
structure Stacked (graph : IncludeGraph) (cut : List Nat) (root : SourceId)
    (stack discovered finished : List SourceId) : Prop where
  reached : ∀ file ∈ stack, graph.Reaches cut root file
  open_mem : ∀ file ∈ discovered, file ∉ finished → file ∈ stack
  above : ∀ above file below, stack = above ++ file :: below → file ∉ above →
    file ∈ discovered → file ∉ finished →
    (∀ next, graph.Follows cut file next → next ∈ finished ∨ next ∈ above) ∧
      ∀ other ∈ above, Relation.TransGen (graph.Follows cut) file other

/-- An order in which each source that `root` leads to by edges outside `cut` stands once, after
those that it includes by such edges. -/
structure Topological (graph : IncludeGraph) (cut : List Nat) (root : SourceId)
    (order : List SourceId) : Prop where
  nodup : order.Nodup
  mem_iff : ∀ file, file ∈ order ↔ root ∈ graph.files ∧ graph.Reaches cut root file
  last : root ∈ graph.files → order.getLast? = some root
  included : ∀ index edge, graph.edge? index = some edge → index ∉ cut → edge.includer ∈ order →
    Precedes order edge.included edge.includer

section
variable {graph : IncludeGraph} {cut : List Nat} {root file next : SourceId}
  {stack discovered finished : List SourceId}

/-- Every open source leads to a new one on top of the stack. -/
theorem Stacked.leads_to_top (h : graph.Stacked cut root (file :: stack) discovered finished)
    (hnew : file ∉ discovered) (hd : next ∈ discovered) (hf : next ∉ finished) :
    Relation.TransGen (graph.Follows cut) next file := by
  obtain ⟨above, below, hplace, habove⟩ := List.eq_append_cons_of_mem (h.open_mem next hd hf)
  cases above with
  | nil => exact absurd ((List.cons.inj hplace).1 ▸ hd) hnew
  | cons top above =>
    obtain ⟨rfl, -⟩ := List.cons.inj hplace
    exact (h.above _ next below hplace habove hd hf).2 file List.mem_cons_self

/-- Successors of the source on top are finished or new: an open one would lead back to it. -/
theorem Stacked.settled_of_new (ha : graph.AcyclicFrom cut root)
    (h : graph.Stacked cut root (file :: stack) discovered finished) (hnew : file ∉ discovered)
    (hstep : graph.Follows cut file next) :
    next ∈ finished ∨ next ≠ file ∧ next ∉ discovered := by
  have hreach := h.reached file List.mem_cons_self
  by_cases hnext : next ∈ discovered
  · left
    by_contra hdone
    exact ha file hreach (.head hstep (h.leads_to_top hnew hnext hdone))
  · right
    refine ⟨?_, hnext⟩
    rintro rfl
    exact ha next hreach (.single hstep)

/-- What is not among the elements put in front stands behind them. -/
theorem exists_behind {pushed above below : List SourceId} (hf : file ∉ pushed)
    (heq : pushed ++ stack = above ++ file :: below) :
    ∃ between, above = pushed ++ between ∧ stack = between ++ file :: below := by
  obtain hcase | ⟨rest, hrest, hbelow⟩ := List.append_eq_append_iff.1 heq
  · exact hcase
  cases rest with
  | nil => exact ⟨[], by simp [hrest], hbelow.symm⟩
  | cons top rest =>
    obtain ⟨rfl, -⟩ := List.cons.inj hbelow
    exact absurd (by simp [hrest]) hf

/-- Discovering the source on top puts its new successors above it. -/
theorem Stacked.discover (ha : graph.AcyclicFrom cut root)
    (h : graph.Stacked cut root (file :: stack) discovered finished) (hnew : file ∉ discovered) :
    graph.Stacked cut root
      (((graph.successors cut file).filter fun next =>
        !(file :: discovered).contains next).reverse ++ file :: stack)
      (file :: discovered) finished := by
  have hpushed : ∀ next, next ∈ ((graph.successors cut file).filter fun next =>
      !(file :: discovered).contains next).reverse ↔
        graph.Follows cut file next ∧ next ≠ file ∧ next ∉ discovered := by
    simp [mem_successors]
  generalize ((graph.successors cut file).filter fun next =>
    !(file :: discovered).contains next).reverse = pushed at hpushed
  constructor
  · intro other ho
    obtain ho | ho := List.mem_append.1 ho
    · exact (h.reached file List.mem_cons_self).tail ((hpushed other).1 ho).1
    · exact h.reached other ho
  · intro other ho hf
    obtain rfl | ho := List.mem_cons.1 ho
    · simp
    · exact List.mem_append_right _ (h.open_mem other ho hf)
  · intro above other below heq hn hd hf
    have hnot : other ∉ pushed := by
      intro hm
      obtain ⟨-, hne, hold⟩ := (hpushed other).1 hm
      exact (List.mem_cons.1 hd).elim hne hold
    obtain ⟨between, rfl, hstack⟩ := exists_behind hnot heq
    cases between with
    | nil =>
      -- The source on top itself.
      obtain ⟨rfl, rfl⟩ := List.cons.inj hstack
      rw [List.append_nil]
      constructor
      · intro next hstep
        exact (h.settled_of_new ha hnew hstep).imp_right fun hnext =>
          (hpushed next).2 ⟨hstep, hnext⟩
      · intro led hled
        exact .single ((hpushed led).1 hled).1
    | cons top between =>
      -- A source below: it leads to the source on top, and so to what is pushed.
      obtain ⟨rfl, rfl⟩ := List.cons.inj hstack
      simp only [List.mem_append, List.mem_cons, not_or] at hn
      have hold : other ∈ discovered := (List.mem_cons.1 hd).resolve_left hn.2.1
      obtain ⟨hsettled, hleads⟩ :=
        h.above (file :: between) other below rfl (by simp [hn]) hold hf
      constructor
      · intro next hstep
        exact (hsettled next hstep).imp_right (List.mem_append_right _)
      · intro led hled
        obtain hled | hled := List.mem_append.1 hled
        · exact (hleads file List.mem_cons_self).tail ((hpushed led).1 hled).1
        · exact hleads led hled

/-- Taking the source off the top leaves what is below it. -/
theorem Stacked.pop {finished' : List SourceId}
    (h : graph.Stacked cut root (file :: stack) discovered finished)
    (hf : ∀ other, other ∈ finished' ↔ other = file ∨ other ∈ finished) :
    graph.Stacked cut root stack discovered finished' := by
  constructor
  · exact fun other ho => h.reached other (List.mem_cons_of_mem _ ho)
  · intro other ho hn
    rw [hf, not_or] at hn
    exact (List.mem_cons.1 (h.open_mem other ho hn.2)).resolve_left hn.1
  · intro above other below heq hn ho hn'
    rw [hf, not_or] at hn'
    obtain ⟨hsettled, hleads⟩ := h.above (file :: above) other below (by rw [heq]; rfl)
      (by simp [hn, hn'.1]) ho hn'.2
    refine ⟨fun next hstep => ?_, fun led hled => hleads led (List.mem_cons_of_mem _ hled)⟩
    rw [hf]
    obtain hdone | hm := hsettled next hstep
    · exact .inl (.inr hdone)
    · exact (List.mem_cons.1 hm).imp .inl id

/-- What is listed comes after all that it includes. -/
theorem Stacked.ordered (ha : graph.AcyclicFrom cut root) (rounds : Nat)
    (h : graph.Stacked cut root stack discovered finished) (hstep : graph.Follows cut file next)
    {back : List SourceId} : ∀ front,
    graph.postOrderFrom cut rounds stack discovered finished = front ++ file :: back →
      next ∈ finished ∨ next ∈ front := by
  fun_induction postOrderFrom graph cut rounds stack discovered finished with
  | case1 | case2 => simp
  | case3 rounds first stack discovered finished hd discovered' above ih =>
    exact ih (h.discover ha (by simpa using hd))
  | case4 rounds first stack discovered finished hd hf ih =>
    intro front heq
    have hd : first ∈ discovered := by simpa using hd
    have hf : first ∉ finished := by simpa using hf
    cases front with
    | nil =>
      obtain ⟨rfl, -⟩ := List.cons.inj heq
      exact (h.above [] first stack rfl List.not_mem_nil hd hf).1 next hstep
    | cons other front =>
      obtain ⟨rfl, hrest⟩ := List.cons.inj heq
      obtain hm | hm := ih (h.pop fun _ => List.mem_cons) front hrest
      · exact (List.mem_cons.1 hm).elim (fun heq => .inr (heq ▸ List.mem_cons_self)) .inl
      · exact .inr (List.mem_cons_of_mem _ hm)
  | case5 rounds first stack discovered finished hd hf ih =>
    have hf : first ∈ finished := by simpa using hf
    refine ih (h.pop fun other => ?_)
    exact ⟨.inr, fun hm => hm.elim (fun heq => heq ▸ hf) id⟩

/-- What is listed can be reached. -/
theorem Stacked.reached_of_mem (ha : graph.AcyclicFrom cut root) (rounds : Nat)
    (h : graph.Stacked cut root stack discovered finished)
    (hm : file ∈ graph.postOrderFrom cut rounds stack discovered finished) :
    graph.Reaches cut root file := by
  fun_induction postOrderFrom graph cut rounds stack discovered finished with
  | case1 | case2 => cases hm
  | case3 rounds first stack discovered finished hd discovered' above ih =>
    exact ih (h.discover ha (by simpa using hd)) hm
  | case4 rounds first stack discovered finished hd hf ih =>
    obtain rfl | hm := List.mem_cons.1 hm
    · exact h.reached _ List.mem_cons_self
    · exact ih (h.pop fun _ => List.mem_cons) hm
  | case5 rounds first stack discovered finished hd hf ih =>
    have hf : first ∈ finished := by simpa using hf
    refine ih (h.pop fun other => ?_) hm
    exact ⟨.inr, fun hm => hm.elim (fun heq => heq ▸ hf) id⟩

/-! ## The whole order -/

/-- The walk starts with the root on its stack. -/
theorem stacked_root (graph : IncludeGraph) (cut : List Nat) (root : SourceId) :
    graph.Stacked cut root [root] [] [] :=
  ⟨fun _ hm => List.mem_singleton.1 hm ▸ .refl, nofun, nofun⟩

/-- The order is that of a walk with enough steps. -/
theorem mergeOrder_eq (hr : root ∈ graph.files) : graph.mergeOrder root cut =
    graph.postOrderFrom cut (graph.files.length + graph.edges.size + 1) [root] [] [] :=
  if_pos (by simpa using hr)

/-- A file listed comes after each file that it includes. -/
theorem precedes_mergeOrder (ha : graph.AcyclicFrom cut root)
    (hm : file ∈ graph.mergeOrder root cut) (hstep : graph.Follows cut file next) :
    Precedes (graph.mergeOrder root cut) next file := by
  by_cases hr : root ∈ graph.files
  · rw [mergeOrder_eq hr] at hm ⊢
    obtain ⟨front, back, heq⟩ := List.append_of_mem hm
    obtain hm | hm := (stacked_root graph cut root).ordered ha _ hstep front heq
    · cases hm
    · exact ⟨front, back, heq, hm⟩
  · rw [mergeOrder, if_neg (by simpa using hr)] at hm
    cases hm

/-- The order holds the files that are reached from the root. -/
theorem mem_mergeOrder_iff (hc : graph.Closed) (ha : graph.AcyclicFrom cut root) :
    file ∈ graph.mergeOrder root cut ↔ root ∈ graph.files ∧ graph.Reaches cut root file := by
  by_cases hr : root ∈ graph.files
  · refine ⟨fun hm => ⟨hr, ?_⟩, fun h => ?_⟩
    · rw [mergeOrder_eq hr] at hm
      exact (stacked_root graph cut root).reached_of_mem ha _ hm
    · induction h.2 with
      | refl => exact mem_mergeOrder hc hr
      | tail _ hstep ih => exact (precedes_mergeOrder ha (ih ⟨hr, ‹_›⟩) hstep).mem_left
  · rw [mergeOrder, if_neg (by simpa using hr)]
    exact iff_of_false List.not_mem_nil fun h => hr h.1

/-- What a listed file leads to comes before it. -/
theorem precedes_of_reaches (ha : graph.AcyclicFrom cut root)
    (hm : file ∈ graph.mergeOrder root cut) (h : graph.Reaches cut file next) :
    next = file ∨ Precedes (graph.mergeOrder root cut) next file := by
  induction h with
  | refl => exact .inl rfl
  | tail _ hstep ih =>
    obtain rfl | ih := ih
    · exact .inr (precedes_mergeOrder ha hm hstep)
    · exact .inr ((precedes_mergeOrder ha ih.mem_left hstep).trans
        (nodup_mergeOrder ..) ih)

/-- The root comes last, since it leads to all others. -/
theorem getLast?_mergeOrder (hc : graph.Closed) (ha : graph.AcyclicFrom cut root)
    (hr : root ∈ graph.files) : (graph.mergeOrder root cut).getLast? = some root := by
  have hroot : root ∈ graph.mergeOrder root cut := mem_mergeOrder hc hr
  obtain ⟨front, back, heq⟩ := List.append_of_mem hroot
  cases back with
  | nil => simp [heq]
  | cons other back =>
    have hn := heq ▸ nodup_mergeOrder graph root cut
    have hother : other ∈ graph.mergeOrder root cut := by simp [heq]
    have hfront : other = root ∨ other ∈ front :=
      (precedes_of_reaches ha hroot ((mem_mergeOrder_iff hc ha).1 hother).2).imp_right
        (precedes_iff (heq ▸ hn) heq).1
    simp only [List.nodup_append, List.nodup_cons, List.mem_cons] at hn
    obtain rfl | hm := hfront
    · exact absurd (.inl rfl) hn.2.1.1
    · exact absurd rfl (hn.2.2 other hm other (.inr (.inl rfl)))

end

/-- However a graph was built, wherever the walk starts and whatever edges are cut: if no cycle is
left to be reached, the order of merging is topological. -/
theorem mergeOrder_topological (calls : List Registration) (root : SourceId) (cut : List Nat)
    (h : (built calls).AcyclicFrom cut root) :
    (built calls).Topological cut root ((built calls).mergeOrder root cut) where
  nodup := nodup_mergeOrder ..
  mem_iff := fun _ => mem_mergeOrder_iff (closed_built calls) h
  last := getLast?_mergeOrder (closed_built calls) h
  included := fun index edge he hcut hm =>
    precedes_mergeOrder h hm ⟨index, edge, he, hcut, rfl, rfl⟩

/-- Two sources that include the same one, which closes a cycle. -/
def diamond : List Registration :=
  [.inclusion ⟨⟨0⟩, ⟨1⟩, ⟨⟨0⟩, 0, 4⟩, ⟨1⟩⟩, .inclusion ⟨⟨0⟩, ⟨2⟩, ⟨⟨0⟩, 5, 9⟩, ⟨2⟩⟩,
    .inclusion ⟨⟨1⟩, ⟨3⟩, ⟨⟨1⟩, 0, 4⟩, ⟨1⟩⟩, .inclusion ⟨⟨2⟩, ⟨3⟩, ⟨⟨2⟩, 0, 4⟩, ⟨1⟩⟩,
    .inclusion ⟨⟨3⟩, ⟨0⟩, ⟨⟨3⟩, 0, 4⟩, ⟨1⟩⟩]

/-- The source that two others include comes before both, and once. -/
theorem mergeOrder_topological_diamond :
    (built diamond).AcyclicFrom [4] ⟨0⟩ ∧
      (built diamond).mergeOrder ⟨0⟩ [4] = [⟨3⟩, ⟨1⟩, ⟨2⟩, ⟨0⟩] ∧
      (built diamond).Topological [4] ⟨0⟩ ((built diamond).mergeOrder ⟨0⟩ [4]) := by
  have hcut : (built diamond).backEdges ⟨0⟩ = [4] := by decide +kernel
  have hacyclic : (built diamond).AcyclicFrom [4] ⟨0⟩ :=
    hcut ▸ acyclicFrom_backEdges (closed_built diamond) ⟨0⟩
  exact ⟨hacyclic, by decide +kernel, mergeOrder_topological diamond ⟨0⟩ [4] hacyclic⟩

end OpenQasm.IncludeGraph
