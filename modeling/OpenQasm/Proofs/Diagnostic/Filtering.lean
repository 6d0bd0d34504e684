import OpenQasm.Proofs.Diagnostic.Buffer

/-!
# Buffers with reports left out

Leaving reports out of a buffer and sorting it commute, if no report is left out before one that
says the same and stays. Otherwise the later one would come up where the earlier one has stood among
reports on the same location, and the order would change.
-/

namespace OpenQasm

/-! ## Sorting -/

section
variable {α : Type} {le : α → α → Bool}

/-- A list is cut in one place only so that all before it and nothing behind it is of a kind. -/
theorem append_inj_of_filter {front back front' back' : List α} {p : α → Bool}
    (h : front ++ back = front' ++ back') (hf : ∀ a ∈ front, p a) (hb : ∀ a ∈ back, ¬p a)
    (hf' : ∀ a ∈ front', p a) (hb' : ∀ a ∈ back', ¬p a) : front = front' ∧ back = back' := by
  have hfront : (front ++ back).filter p = front := by
    rw [List.filter_append, List.filter_eq_self.2 hf, List.filter_eq_nil_iff.2 hb, List.append_nil]
  have hfront' : (front' ++ back').filter p = front' := by
    rw [List.filter_append, List.filter_eq_self.2 hf', List.filter_eq_nil_iff.2 hb',
      List.append_nil]
  have heq : front = front' := by rw [← hfront, h, hfront']
  subst heq
  exact ⟨rfl, List.append_cancel_left h⟩

/-- What a sort puts behind a member is not less than it. -/
theorem le_of_mergeSort_cons (trans : ∀ a b c, le a b → le b c → le a c)
    (total : ∀ a b, le a b || le b a) {a : α} {list front back : List α}
    (h : (a :: list).mergeSort le = front ++ a :: back) : ∀ b ∈ back, le a b := by
  have hsorted := List.pairwise_mergeSort trans total (a :: list)
  rw [h, List.pairwise_append, List.pairwise_cons] at hsorted
  exact hsorted.2.1.1

/-- Sorting and leaving members out commute. -/
theorem filter_mergeSort (trans : ∀ a b c, le a b → le b c → le a c)
    (total : ∀ a b, le a b || le b a) (p : α → Bool) (list : List α) :
    (list.mergeSort le).filter p = (list.filter p).mergeSort le := by
  induction list with
  | nil => simp
  | cons a list ih =>
    obtain ⟨front, back, hcons, hlist, hfront⟩ := List.mergeSort_cons trans total a list
    have hback := le_of_mergeSort_cons trans total hcons
    rw [hlist, List.filter_append] at ih
    rw [hcons, List.filter_append]
    by_cases ha : p a
    · obtain ⟨front', back', hcons', hlist', hfront'⟩ :=
        List.mergeSort_cons trans total a (list.filter p)
      have hback' := le_of_mergeSort_cons trans total hcons'
      obtain ⟨rfl, rfl⟩ := append_inj_of_filter (p := fun b => !le a b) (ih.trans hlist')
        (fun b hb => hfront b ((List.mem_filter.1 hb).1))
        (fun b hb => by simp [hback b ((List.mem_filter.1 hb).1)]) hfront'
        (fun b hb => by simp [hback' b hb])
      rw [List.filter_cons_of_pos ha, List.filter_cons_of_pos ha, hcons']
    · rw [List.filter_cons_of_neg ha, List.filter_cons_of_neg ha, ih]

end

namespace Diagnostics

/-- The order of locations. -/
def before (left right : Diagnostic) : Bool := left.span.before right.span

/-- The order of diagnostics is transitive. -/
theorem before_trans (a b c : Diagnostic) (hab : before a b) (hbc : before b c) : before a c :=
  Span.before_trans hab hbc

/-- It is total. -/
theorem before_total (a b : Diagnostic) : before a b || before b a := Span.before_total _ _

/-- What lies on one span is in order as it stands. -/
theorem pairwise_of_span {α : Type} {list : List α} (spanOf : α → Span) {span : Span}
    (h : ∀ a ∈ list, spanOf a = span) :
    list.Pairwise fun a b => (spanOf a).before (spanOf b) := by
  refine List.pairwise_iff_forall_sublist.2 fun {a b} hab => ?_
  have ha := h a (hab.subset List.mem_cons_self)
  have hb := h b (hab.subset (List.mem_cons_of_mem _ List.mem_cons_self))
  rw [ha, hb]
  simpa using Span.before_total span span

/-- Reports, each marked as one that stays or is left out. -/
abbrev Marked := List (Diagnostic × Bool)

/-- The reports that stay. -/
def kept (marked : Marked) : List Diagnostic := (marked.filter Prod.snd).map Prod.fst

/-- No report is left out before one that says the same and stays. -/
def Orderly (marked : Marked) : Prop :=
  marked.Pairwise fun left right =>
    left.2 = false → right.2 = true → left.1.identity ≠ right.1.identity

section
variable {marked : Marked}

/-- What is kept is kept part by part. -/
theorem kept_append (marked more : Marked) : kept (marked ++ more) = kept marked ++ kept more := by
  simp [kept]

/-- Marked reports in the order of locations. -/
def sortMarked (marked : Marked) : Marked := marked.mergeSort fun left right =>
  before left.1 right.1

/-- Marks do not matter to the order. -/
theorem map_sortMarked (marked : Marked) :
    (sortMarked marked).map Prod.fst = (marked.map Prod.fst).mergeSort before :=
  List.map_mergeSort fun _ _ _ _ => rfl

/-- A filter may come before or after sorting. -/
theorem filter_sortMarked (p : Diagnostic × Bool → Bool) (marked : Marked) :
    (sortMarked marked).filter p = sortMarked (marked.filter p) :=
  filter_mergeSort (fun a b c => before_trans a.1 b.1 c.1) (fun a b => before_total a.1 b.1) p
    marked

/-- So may what is kept. -/
theorem kept_sortMarked (marked : Marked) :
    kept (sortMarked marked) = (kept marked).mergeSort before := by
  rw [kept, filter_sortMarked, map_sortMarked]
  rfl

/-- Reports that say the same stay in their order. -/
theorem Orderly.sort (h : Orderly marked) : Orderly (sortMarked marked) := by
  refine List.pairwise_iff_forall_sublist.2 fun {left right} hsub hleft hright heq => ?_
  let same (mark : Diagnostic × Bool) : Bool := decide (mark.1.identity = left.1.identity)
  have hsame : ([left, right] : Marked).filter same = [left, right] := by
    simp [same, heq]
  have hspan : ∀ mark ∈ marked.filter same, mark.1.span = left.1.span := by
    intro mark hm
    have hidentity : mark.1.identity = left.1.identity := of_decide_eq_true (List.mem_filter.1 hm).2
    simp only [Diagnostic.identity, Prod.mk.injEq] at hidentity
    exact hidentity.2.1
  have hspans : (marked.filter same).Pairwise fun left right => before left.1 right.1 :=
    pairwise_of_span (fun mark : Diagnostic × Bool => mark.1.span) hspan
  have hfiltered : ([left, right] : Marked).Sublist (marked.filter same) := by
    have hsub := hsub.filter same
    rw [hsame, filter_sortMarked, sortMarked, List.mergeSort_of_pairwise hspans] at hsub
    exact hsub
  have hmarked := hfiltered.trans List.filter_sublist
  exact List.pairwise_iff_forall_sublist.1 h hmarked hleft hright heq

/-- Of reports that say the same, the first one stays if any of them does. -/
theorem dropRepeated_kept_sublist (h : Orderly marked) (seen seen' : List (Code × Span × String))
    (hseen : ∀ identity ∈ seen', identity ∈ seen)
    (hkept : ∀ diagnostic ∈ kept marked, diagnostic.identity ∈ seen → diagnostic.identity ∈ seen') :
    (dropRepeated seen' (kept marked)).Sublist (dropRepeated seen (marked.map Prod.fst)) := by
  induction marked generalizing seen seen' with
  | nil => exact .slnil
  | cons mark marked ih =>
    obtain ⟨diagnostic, stays⟩ := mark
    obtain ⟨hfirst, hrest⟩ := List.pairwise_cons.1 h
    rw [List.map_cons, dropRepeated]
    cases stays with
    | true =>
      have hcons : kept ((diagnostic, true) :: marked) = diagnostic :: kept marked := rfl
      rw [hcons] at hkept ⊢
      rw [dropRepeated]
      by_cases hm : diagnostic.identity ∈ seen
      · rw [if_pos hm, if_pos (hkept diagnostic List.mem_cons_self hm)]
        exact ih hrest _ _ hseen fun other ho => hkept other (List.mem_cons_of_mem _ ho)
      · rw [if_neg hm, if_neg fun hm' => hm (hseen _ hm')]
        refine .cons_cons _ (ih hrest _ _ ?_ ?_)
        · intro identity hi
          exact (List.mem_cons.1 hi).elim (fun heq => heq ▸ List.mem_cons_self)
            fun hi => List.mem_cons_of_mem _ (hseen identity hi)
        · intro other ho hi
          exact (List.mem_cons.1 hi).elim (fun heq => heq ▸ List.mem_cons_self)
            fun hi => List.mem_cons_of_mem _ (hkept other (List.mem_cons_of_mem _ ho) hi)
    | false =>
      have hcons : kept ((diagnostic, false) :: marked) = kept marked := rfl
      rw [hcons] at hkept ⊢
      split
      · exact ih hrest _ _ hseen hkept
      · have hseen' : ∀ identity ∈ seen', identity ∈ diagnostic.identity :: seen :=
          fun identity hi => List.mem_cons_of_mem _ (hseen identity hi)
        refine .cons _ (ih hrest _ _ hseen' ?_)
        intro other ho hi
        refine hkept other ho ((List.mem_cons.1 hi).resolve_left fun heq => ?_)
        obtain ⟨mark, hmark, rfl⟩ := List.mem_map.1 ho
        obtain ⟨hmark, hstays⟩ := List.mem_filter.1 hmark
        exact hfirst mark hmark rfl hstays heq.symm

/-- What stays is shown in the order in which it is shown with the rest. -/
theorem sorted_kept_sublist (h : Orderly marked) :
    (sorted ⟨kept marked⟩).Sublist (sorted ⟨marked.map Prod.fst⟩) := by
  have hsub := dropRepeated_kept_sublist h.sort [] [] (fun _ hm => hm) fun _ _ hm => hm
  rw [kept_sortMarked, map_sortMarked] at hsub
  exact hsub

/-! ## What is not left out -/

/-- Dropping repetitions and leaving out all that says certain things commute. -/
theorem filter_dropRepeated (p : Code × Span × String → Bool)
    {seen seen' : List (Code × Span × String)}
    (h : ∀ identity, p identity → (identity ∈ seen ↔ identity ∈ seen'))
    (diagnostics : List Diagnostic) :
    (dropRepeated seen diagnostics).filter (p ·.identity) =
      dropRepeated seen' (diagnostics.filter (p ·.identity)) := by
  induction diagnostics generalizing seen seen' with
  | nil => rfl
  | cons first rest ih =>
    rw [dropRepeated, List.filter_cons]
    by_cases hp : p first.identity
    · rw [if_pos hp, dropRepeated]
      by_cases hm : first.identity ∈ seen
      · rw [if_pos hm, if_pos ((h _ hp).1 hm)]
        exact ih h
      · rw [if_neg hm, if_neg fun hm' => hm ((h _ hp).2 hm'), List.filter_cons, if_pos hp]
        refine congrArg (first :: ·) (ih fun identity hi => ?_)
        rw [List.mem_cons, List.mem_cons, h identity hi]
    · rw [if_neg hp]
      split
      · exact ih h
      · rw [List.filter_cons, if_neg hp]
        refine ih fun identity hi => ?_
        have hne : identity ≠ first.identity := fun heq => hp (heq ▸ hi)
        rw [List.mem_cons, ← h identity hi]
        simp [hne]

/-- A filter by identity may come before or after sorting. -/
theorem filter_sorted (p : Code × Span × String → Bool) (buffer : Diagnostics) :
    buffer.sorted.filter (p ·.identity) = sorted ⟨buffer.items.filter (p ·.identity)⟩ := by
  rw [sorted, filter_dropRepeated p (fun _ _ => Iff.rfl)]
  exact congrArg (dropRepeated []) (filter_mergeSort before_trans before_total _ _)

/-- What is shown and is not of the kind that may be left out is shown without what is left out,
too. -/
theorem mem_sorted_kept {p : Code × Span × String → Bool}
    (hp : ∀ mark ∈ marked, mark.2 = false → p mark.1.identity = false) {diagnostic : Diagnostic}
    (hd : diagnostic ∈ sorted ⟨marked.map Prod.fst⟩) (h : p diagnostic.identity) :
    diagnostic ∈ sorted ⟨kept marked⟩ := by
  have hsame : (marked.map Prod.fst).filter (p ·.identity) =
      (kept marked).filter (p ·.identity) := by
    rw [kept, List.filter_map, List.filter_map, List.filter_filter]
    refine congrArg _ (List.filter_congr fun mark hm => ?_)
    cases hstays : mark.2 with
    | true => simp
    | false => simp [hp mark hm hstays]
  have hm : diagnostic ∈ (sorted ⟨marked.map Prod.fst⟩).filter (p ·.identity) :=
    List.mem_filter.2 ⟨hd, h⟩
  rw [filter_sorted, hsame, ← filter_sorted p ⟨kept marked⟩] at hm
  exact (List.mem_filter.1 hm).1

end

end Diagnostics

end OpenQasm
