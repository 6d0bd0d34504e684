import Mathlib.Data.List.Basic
import OpenQasm.Diagnostic.Buffer

/-!
# What a buffer shows

Sorting a buffer keeps all that is said in it and adds nothing. Without a limit on errors, what is
sorted is what is shown. A limit cuts the errors down to the first ones and touches nothing else,
and a note at the last error that stays tells how many are gone. As a limit keeps one error at
least, it does not change whether there are errors.
-/

namespace OpenQasm

/-- Diagnostics that say the same. -/
theorem Diagnostic.identity_eq_iff {diagnostic other : Diagnostic} :
    diagnostic.identity = other.identity ↔ diagnostic.code = other.code ∧
      diagnostic.span = other.span ∧ diagnostic.message = other.message := by
  simp only [identity, Prod.mk.injEq]

namespace Diagnostics

section
variable {seen : List (Code × Span × String)} {diagnostics : List Diagnostic} {buffer : Diagnostics}
  {diagnostic : Diagnostic}

/-- Dropping repetitions adds nothing. -/
theorem dropRepeated_sublist (seen : List (Code × Span × String)) (diagnostics : List Diagnostic) :
    (dropRepeated seen diagnostics).Sublist diagnostics := by
  induction diagnostics generalizing seen with
  | nil => exact .slnil
  | cons first rest ih =>
    rw [dropRepeated]
    split
    · exact (ih seen).cons first
    · exact (ih _).cons_cons first

/-- What is dropped as a repetition says the same as something that stays. -/
theorem exists_mem_dropRepeated (hm : diagnostic ∈ diagnostics) (hs : diagnostic.identity ∉ seen) :
    ∃ other ∈ dropRepeated seen diagnostics, other.identity = diagnostic.identity := by
  induction diagnostics generalizing seen with
  | nil => cases hm
  | cons first rest ih =>
    rw [dropRepeated]
    by_cases hfirst : first.identity = diagnostic.identity
    · rw [if_neg (hfirst ▸ hs)]
      exact ⟨first, List.mem_cons_self, hfirst⟩
    · have hrest : diagnostic ∈ rest := (List.mem_cons.1 hm).resolve_left fun heq =>
        hfirst (congrArg Diagnostic.identity heq.symm)
      split
      · exact ih hrest hs
      · have hseen : diagnostic.identity ∉ first.identity :: seen := fun hm =>
          (List.mem_cons.1 hm).elim (fun heq => hfirst heq.symm) hs
        obtain ⟨other, ho, heq⟩ := ih hrest hseen
        exact ⟨other, List.mem_cons_of_mem _ ho, heq⟩

/-- What is sorted was in the buffer. -/
theorem mem_of_mem_sorted (h : diagnostic ∈ buffer.sorted) : diagnostic ∈ buffer.items :=
  List.mem_mergeSort.1 ((dropRepeated_sublist _ _).subset h)

/-- What was in the buffer is sorted, or one just like it. -/
theorem exists_mem_sorted (h : diagnostic ∈ buffer.items) :
    ∃ other ∈ buffer.sorted, other.identity = diagnostic.identity :=
  exists_mem_dropRepeated (List.mem_mergeSort.2 h) List.not_mem_nil

/-- Nothing is shown if and only if there is nothing to show. -/
theorem sorted_eq_nil_iff : buffer.sorted = [] ↔ buffer.items = [] := by
  simp only [List.eq_nil_iff_forall_not_mem]
  constructor
  · intro hnone diagnostic hd
    obtain ⟨other, hother, -⟩ := exists_mem_sorted hd
    exact hnone other hother
  · exact fun hnone diagnostic hd => hnone diagnostic (mem_of_mem_sorted hd)

/-- A single diagnostic is sorted. -/
theorem sorted_singleton (diagnostic : Diagnostic) :
    sorted ⟨[diagnostic]⟩ = [diagnostic] := by
  simp [sorted, dropRepeated]

/-- What stays when repetitions are dropped says nothing twice. -/
theorem pairwise_dropRepeated (seen : List (Code × Span × String)) (diagnostics : List Diagnostic) :
    (dropRepeated seen diagnostics).Pairwise (fun left right => left.identity ≠ right.identity) ∧
      ∀ diagnostic ∈ dropRepeated seen diagnostics, diagnostic.identity ∉ seen := by
  induction diagnostics generalizing seen with
  | nil => exact ⟨.nil, fun _ hm => nomatch hm⟩
  | cons first rest ih =>
    rw [dropRepeated]
    split
    · exact ih seen
    · next hnew =>
      obtain ⟨hrest, hseen⟩ := ih (first.identity :: seen)
      refine ⟨List.pairwise_cons.2 ⟨fun other ho heq => ?_, hrest⟩, fun other ho => ?_⟩
      · exact hseen other ho (heq ▸ List.mem_cons_self)
      · rcases List.mem_cons.1 ho with rfl | ho
        · exact hnew
        · exact fun hm => hseen other ho (List.mem_cons_of_mem _ hm)

/-- Nothing is dropped if nothing is said twice. -/
theorem dropRepeated_eq_self (h : (diagnostics.map Diagnostic.identity).Nodup)
    (hs : ∀ diagnostic ∈ diagnostics, diagnostic.identity ∉ seen) :
    dropRepeated seen diagnostics = diagnostics := by
  induction diagnostics generalizing seen with
  | nil => rfl
  | cons first rest ih =>
    obtain ⟨hfirst, hrest⟩ := List.nodup_cons.1 h
    rw [dropRepeated, if_neg (hs first List.mem_cons_self)]
    refine congrArg (first :: ·) (ih hrest fun diagnostic hd hm => ?_)
    rcases List.mem_cons.1 hm with heq | hm
    · exact hfirst (heq ▸ List.mem_map_of_mem hd)
    · exact hs diagnostic (List.mem_cons_of_mem _ hd) hm

/-- Reports that begin apart are all shown. -/
theorem sorted_perm (h : (buffer.items.map (·.span.start)).Nodup) :
    buffer.sorted.Perm buffer.items := by
  let list := buffer.items.mergeSort fun a b => a.span.before b.span
  have hperm : list.Perm buffer.items := List.mergeSort_perm _ _
  have hstarts : ((list.map Diagnostic.identity).map (·.2.1.start)).Nodup := by
    rw [List.map_map]
    exact (hperm.map (·.span.start)).nodup_iff.2 h
  have hsame : buffer.sorted = list :=
    dropRepeated_eq_self (List.Pairwise.of_map _ (fun _ _ hne heq => hne (heq ▸ rfl)) hstarts)
      fun _ _ => List.not_mem_nil
  exact hsame ▸ hperm

/-- What nothing else is said beside is shown once. -/
theorem filter_sorted_eq {code : Code} {span : Span} (hd : diagnostic ∈ buffer.items)
    (hcode : diagnostic.code = code) (hspan : diagnostic.span = span)
    (hsame : ∀ other ∈ buffer.items, other.code = code → other.span = span → other = diagnostic) :
    (buffer.sorted.filter fun other => other.code = code ∧ other.span = span) = [diagnostic] := by
  let shown := buffer.sorted.filter fun other => other.code = code ∧ other.span = span
  have hshown : ∀ other ∈ shown, other = diagnostic := fun other ho => by
    obtain ⟨hm, heq⟩ := List.mem_filter.1 ho
    obtain ⟨hcode', hspan'⟩ := of_decide_eq_true heq
    exact hsame other (mem_of_mem_sorted hm) hcode' hspan'
  have hpairwise : shown.Pairwise fun left right => left.identity ≠ right.identity :=
    (pairwise_dropRepeated _ _).1.filter _
  obtain ⟨other, ho, heq⟩ := exists_mem_sorted hd
  obtain ⟨hcode', hspan', -⟩ := Diagnostic.identity_eq_iff.1 heq
  have hmem : other ∈ shown := List.mem_filter.2
    ⟨ho, decide_eq_true ⟨hcode'.trans hcode, hspan'.trans hspan⟩⟩
  show shown = [diagnostic]
  match shown, hshown, hpairwise, hmem with
  | [only], hshown, _, _ => rw [hshown only List.mem_cons_self]
  | first :: second :: rest, hshown, hpairwise, _ =>
    refine absurd ?_ ((List.pairwise_cons.1 hpairwise).1 second List.mem_cons_self)
    rw [hshown first List.mem_cons_self,
      hshown second (List.mem_cons_of_mem _ List.mem_cons_self)]

/-- Without a limit the buffer is sorted. -/
theorem finish_zero (buffer : Diagnostics) : buffer.finish 0 = buffer.sorted := rfl

/-- Without a limit, what is reported is shown. -/
theorem reports_finish_zero (code : Code) (span : Span) :
    (∃ diagnostic ∈ buffer.finish 0, diagnostic.code = code ∧ diagnostic.span = span) ↔
      ∃ diagnostic ∈ buffer.items, diagnostic.code = code ∧ diagnostic.span = span := by
  rw [finish_zero]
  constructor
  · rintro ⟨diagnostic, hd, h⟩
    exact ⟨diagnostic, mem_of_mem_sorted hd, h⟩
  · rintro ⟨diagnostic, hd, hcode, hspan⟩
    obtain ⟨other, ho, heq⟩ := exists_mem_sorted hd
    obtain ⟨hcode', hspan', -⟩ := Diagnostic.identity_eq_iff.1 heq
    exact ⟨other, ho, hcode'.trans hcode, hspan'.trans hspan⟩

end

/-! ## Limits -/

/-- What a limit on errors makes of a list: all that is no error stays, and so do the first errors,
so many at most, in their order. The others are dropped. -/
structure Limited (limit : Nat) (diagnostics shown : List Diagnostic) (dropped : Nat) : Prop where
  sublist : shown.Sublist diagnostics
  others : shown.filter (!·.isError) = diagnostics.filter (!·.isError)
  errors : shown.filter (·.isError) = (diagnostics.filter (·.isError)).take limit
  length : shown.length + dropped = diagnostics.length

section
variable {limit dropped : Nat} {first diagnostic : Diagnostic}
  {diagnostics rest shown : List Diagnostic} {buffer : Diagnostics}

/-- The errors beyond the limit are dropped. -/
theorem Limited.dropped_eq (h : Limited limit diagnostics shown dropped) :
    dropped = (diagnostics.filter (·.isError)).length - limit := by
  have hsplit (list : List Diagnostic) : list.length =
      (list.filter (·.isError)).length + (list.filter (!·.isError)).length :=
    list.length_eq_length_filter_add _
  have hlength := h.length
  rw [hsplit shown, hsplit diagnostics, h.others, h.errors, List.length_take] at hlength
  omega

/-- If there is room for an error, there is one among what is shown if there is one at all. -/
theorem Limited.any_isError (h : Limited limit diagnostics shown dropped) (hlimit : 0 < limit) :
    shown.any (·.isError) = diagnostics.any (·.isError) := by
  have hany (list : List Diagnostic) :
      list.any (·.isError) = true ↔ list.filter (·.isError) ≠ [] := by
    simp [List.filter_eq_nil_iff]
  rw [Bool.eq_iff_iff, hany, hany, h.errors, Ne, List.take_eq_nil_iff,
    or_iff_right (Nat.ne_of_gt hlimit)]

/-- Without room an error is dropped. -/
theorem keep_zero_cons (he : first.isError) : keep 0 (first :: rest) =
    ⟨(keep 0 rest).items, (keep 0 rest).dropped + 1, (keep 0 rest).lastError⟩ := by
  simp only [keep, he, if_true]

/-- With room for one more an error is kept. -/
theorem keep_succ_cons (he : first.isError) (room : Nat) : keep (room + 1) (first :: rest) =
    ⟨first :: (keep room rest).items, (keep room rest).dropped,
      (keep room rest).lastError.or (some first.span)⟩ := by
  simp only [keep, he, if_true]

/-- What is no error is kept. -/
theorem keep_cons (he : ¬first.isError) (room : Nat) : keep room (first :: rest) =
    ⟨first :: (keep room rest).items, (keep room rest).dropped, (keep room rest).lastError⟩ := by
  cases room <;> simp only [keep, if_neg he]

/-- The first errors are kept, so many as there is room for, and all that is no error. -/
theorem keep_limited (room : Nat) (diagnostics : List Diagnostic) :
    Limited room diagnostics (keep room diagnostics).items (keep room diagnostics).dropped := by
  induction diagnostics generalizing room with
  | nil => exact ⟨.slnil, rfl, by rw [List.filter_nil, List.take_nil]; rfl, rfl⟩
  | cons first rest ih =>
    by_cases he : first.isError
    · cases room with
      | zero =>
        obtain ⟨hsub, hothers, herrors, hlength⟩ := ih 0
        rw [keep_zero_cons he]
        refine ⟨hsub.cons first, ?_, ?_, congrArg (· + 1) hlength⟩
        · simp [he, hothers]
        · rw [herrors, List.take_zero, List.take_zero]
      | succ room =>
        obtain ⟨hsub, hothers, herrors, hlength⟩ := ih room
        rw [keep_succ_cons he]
        refine ⟨hsub.cons_cons first, ?_, ?_, ?_⟩
        · simp [he, hothers]
        · simp [he, herrors]
        · rw [List.length_cons, List.length_cons, ← hlength, Nat.add_right_comm]
    · obtain ⟨hsub, hothers, herrors, hlength⟩ := ih room
      rw [keep_cons he]
      refine ⟨hsub.cons_cons first, ?_, ?_, ?_⟩
      · simp [he, hothers]
      · simp [he, herrors]
      · rw [List.length_cons, List.length_cons, ← hlength, Nat.add_right_comm]

/-- The span that is remembered is that of the last error kept. -/
theorem lastError_keep (room : Nat) (diagnostics : List Diagnostic) :
    (keep room diagnostics).lastError =
      ((keep room diagnostics).items.filter (·.isError)).getLast?.map (·.span) := by
  induction diagnostics generalizing room with
  | nil => rfl
  | cons first rest ih =>
    by_cases he : first.isError
    · cases room with
      | zero =>
        rw [keep_zero_cons he]
        exact ih 0
      | succ room =>
        rw [keep_succ_cons he, List.filter_cons_of_pos he, List.getLast?_cons, ih room]
        cases ((keep room rest).items.filter (·.isError)).getLast? <;> rfl
    · rw [keep_cons he, List.filter_cons_of_neg he, ih room]

/-- If errors are dropped under a limit, one is shown. -/
theorem Limited.exists_last (h : Limited limit diagnostics shown dropped) (hlimit : 0 < limit)
    (hdropped : 0 < dropped) : ∃ last, (shown.filter (·.isError)).getLast? = some last := by
  have hne : shown.filter (·.isError) ≠ [] := by
    have := h.dropped_eq
    rw [← List.length_pos_iff, h.errors, List.length_take]
    omega
  exact ⟨_, List.getLast?_eq_some_getLast hne⟩

/-- What is shown under a limit: without a note if nothing is dropped, or else with one. -/
theorem finish_limited (buffer : Diagnostics) (hlimit : 0 < limit) :
    ∃ shown dropped, Limited limit buffer.sorted shown dropped ∧
      (dropped = 0 → buffer.finish limit = shown) ∧
      (0 < dropped → ∃ last, (shown.filter (·.isError)).getLast? = some last ∧
        buffer.finish limit = shown ++ [limitNote limit dropped last.span]) := by
  have hkeep := keep_limited limit buffer.sorted
  have hlast := lastError_keep limit buffer.sorted
  refine ⟨_, _, hkeep, fun hdropped => ?_, fun hdropped => ?_⟩
  · rw [finish, if_neg (Nat.ne_of_gt hlimit)]
    dsimp only
    split
    · rw [if_neg (hdropped ▸ Nat.lt_irrefl 0)]
    · rfl
  · obtain ⟨last, hget⟩ := hkeep.exists_last hlimit hdropped
    rw [hget] at hlast
    refine ⟨last, hget, ?_⟩
    rw [finish, if_neg (Nat.ne_of_gt hlimit)]
    dsimp only
    rw [hlast]
    exact if_pos hdropped

/-- A limit does not change whether there are errors. -/
theorem any_isError_finish (buffer : Diagnostics) (limit : Nat) :
    (buffer.finish limit).any (·.isError) = buffer.sorted.any (·.isError) := by
  rcases Nat.eq_zero_or_pos limit with rfl | hlimit
  · rfl
  · obtain ⟨shown, dropped, hshown, hnone, hsome⟩ := finish_limited buffer hlimit
    rw [← hshown.any_isError hlimit]
    rcases Nat.eq_zero_or_pos dropped with hdropped | hdropped
    · rw [hnone hdropped]
    · obtain ⟨last, -, hfinish⟩ := hsome hdropped
      have hnote : (limitNote limit dropped last.span).isError = false := rfl
      rw [hfinish, List.any_append, List.any_cons, hnote, List.any_nil, Bool.or_false,
        Bool.or_false]

/-- What is shown has been reported, or stands at the span of something that has been and tells how
many errors are left out. -/
theorem mem_or_limitNote (h : diagnostic ∈ buffer.finish limit) :
    diagnostic ∈ buffer.items ∨
      ∃ other ∈ buffer.items, ∃ dropped, diagnostic = limitNote limit dropped other.span := by
  rcases Nat.eq_zero_or_pos limit with rfl | hlimit
  · exact .inl (mem_of_mem_sorted h)
  · obtain ⟨shown, dropped, hshown, hnone, hsome⟩ := finish_limited buffer hlimit
    have hreported {other : Diagnostic} (ho : other ∈ shown) : other ∈ buffer.items :=
      mem_of_mem_sorted (hshown.sublist.subset ho)
    rcases Nat.eq_zero_or_pos dropped with hdropped | hdropped
    · rw [hnone hdropped] at h
      exact .inl (hreported h)
    · obtain ⟨last, hget, hfinish⟩ := hsome hdropped
      have hlast : last ∈ shown := (List.mem_filter.1 (List.mem_of_getLast? hget)).1
      rw [hfinish, List.mem_append, List.mem_singleton] at h
      exact h.imp hreported fun heq => ⟨last, hreported hlast, dropped, heq⟩

end

end Diagnostics

end OpenQasm
