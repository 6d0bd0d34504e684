import Mathlib.Data.Prod.Lex
import OpenQasm.Proofs.Diagnostic.Filtering

/-!
# Finished buffers

Finishing a buffer puts its diagnostics in the order of their spans, those on one span in the order
in which they were first emitted, and leaves out what says the same as an earlier one. Of each thing
said, the diagnostic that said it first stays, with its own severity, labels and notes. So there is
one list only that sorting can yield, and the limit on errors cuts it (`Diagnostics.finish_exact`).
-/

namespace OpenQasm

/-! ## The order of spans -/

/-- Where a span stands: its source, then its start, then its end. -/
def Span.position (span : Span) : ℕ ×ₗ ℕ ×ₗ ℕ :=
  toLex (span.source.index, toLex (span.start, span.stop))

/-- Spans are ordered by their position. -/
theorem Span.before_iff_position {a b : Span} : a.before b ↔ a.position ≤ b.position := by
  rw [before_iff, position, position, Prod.Lex.toLex_le_toLex, Prod.Lex.toLex_le_toLex]

/-- Spans that stand in one place are the same. -/
theorem Span.eq_of_position {a b : Span} (h : a.position = b.position) : a = b := by
  obtain ⟨⟨_⟩, _, _⟩ := a
  obtain ⟨⟨_⟩, _, _⟩ := b
  simpa [position] using h

namespace Diagnostics

section
variable {seen : List (Code × Span × String)} {diagnostics : List Diagnostic}

/-- The sorted diagnostics are in order of position. -/
theorem sorted_pairwise (buffer : Diagnostics) :
    buffer.sorted.Pairwise fun a b => a.span.position ≤ b.span.position := by
  refine List.Pairwise.sublist (dropRepeated_sublist _ _) ?_
  exact (List.pairwise_mergeSort before_trans before_total _).imp Span.before_iff_position.1

/-! ## Repetitions -/

/-- What has been said is dropped. -/
theorem dropRepeated_eq_nil (h : ∀ diagnostic ∈ diagnostics, diagnostic.identity ∈ seen) :
    dropRepeated seen diagnostics = [] := by
  induction diagnostics with
  | nil => rfl
  | cons first rest ih =>
    rw [dropRepeated, if_pos (h first List.mem_cons_self)]
    exact ih fun diagnostic hd => h diagnostic (List.mem_cons_of_mem _ hd)

/-- Diagnostics on one span are in order as they are emitted. -/
theorem sorted_of_span (span : Span) (h : ∀ diagnostic ∈ diagnostics, diagnostic.span = span) :
    sorted ⟨diagnostics⟩ = dropRepeated [] diagnostics :=
  congrArg (dropRepeated []) (List.mergeSort_of_pairwise (pairwise_of_span Diagnostic.span h))

/-- Of the diagnostics that say one thing, the first that was emitted stays. -/
theorem filter_sorted_identity (buffer : Diagnostics) (said : Code × Span × String) :
    buffer.sorted.filter (·.identity = said) =
      (buffer.items.find? (·.identity = said)).toList := by
  have hsaid : ∀ diagnostic ∈ buffer.items.filter (·.identity = said),
      diagnostic.identity = said := fun diagnostic hd =>
    of_decide_eq_true (List.mem_filter.1 hd).2
  rw [filter_sorted (fun identity => decide (identity = said)), ← List.head?_filter,
    sorted_of_span said.2.1 fun diagnostic hd => by rw [← hsaid diagnostic hd]; rfl]
  cases h : buffer.items.filter (·.identity = said) with
  | nil => rfl
  | cons first rest =>
    rw [h] at hsaid
    rw [dropRepeated, if_neg List.not_mem_nil, dropRepeated_eq_nil fun diagnostic hd => ?_]
    · rfl
    · rw [hsaid first List.mem_cons_self, hsaid diagnostic (List.mem_cons_of_mem _ hd)]
      exact List.mem_singleton_self said

/-- Sorting what is sorted changes nothing. -/
theorem sorted_sorted (buffer : Diagnostics) : sorted ⟨buffer.sorted⟩ = buffer.sorted := by
  have hle : buffer.sorted.Pairwise fun a b => a.span.before b.span :=
    (sorted_pairwise buffer).imp Span.before_iff_position.2
  have hnodup : (buffer.sorted.map Diagnostic.identity).Nodup :=
    List.pairwise_map.2 (pairwise_dropRepeated _ _).1
  exact (congrArg (dropRepeated []) (List.mergeSort_of_pairwise hle)).trans
    (dropRepeated_eq_self hnodup fun _ _ => List.not_mem_nil)

/-! ## The order of emission -/

/-- The number of diagnostics emitted before the first one that says the same. -/
def emission (buffer : Diagnostics) (diagnostic : Diagnostic) : Nat :=
  buffer.items.findIdx (·.identity = diagnostic.identity)

/-- The first diagnostic was emitted first. -/
theorem emission_cons_self (first : Diagnostic) (rest : List Diagnostic) :
    emission ⟨first :: rest⟩ first = 0 := by
  rw [emission, List.findIdx_cons, decide_eq_true rfl]
  rfl

/-- One that differs from it was emitted behind it. -/
theorem emission_cons_of_ne {first diagnostic : Diagnostic}
    (hne : diagnostic.identity ≠ first.identity) (rest : List Diagnostic) :
    emission ⟨first :: rest⟩ diagnostic = emission ⟨rest⟩ diagnostic + 1 := by
  rw [emission, List.findIdx_cons, decide_eq_false hne.symm]
  rfl

/-- What stays is in the order in which it was first said. -/
theorem dropRepeated_pairwise (seen : List (Code × Span × String))
    (diagnostics : List Diagnostic) :
    (dropRepeated seen diagnostics).Pairwise fun a b =>
      emission ⟨diagnostics⟩ a < emission ⟨diagnostics⟩ b := by
  induction diagnostics generalizing seen with
  | nil => exact .nil
  | cons first rest ih =>
    have hlater {seen : List (Code × Span × String)} (hfirst : first.identity ∈ seen) :
        ∀ diagnostic ∈ dropRepeated seen rest,
          emission ⟨first :: rest⟩ diagnostic = emission ⟨rest⟩ diagnostic + 1 := by
      refine fun diagnostic hd => emission_cons_of_ne (fun heq => ?_) rest
      exact (pairwise_dropRepeated seen rest).2 diagnostic hd (heq ▸ hfirst)
    have hrest {seen : List (Code × Span × String)} (hfirst : first.identity ∈ seen) :
        (dropRepeated seen rest).Pairwise fun a b =>
          emission ⟨first :: rest⟩ a < emission ⟨first :: rest⟩ b := by
      refine (ih seen).imp_of_mem fun {a b} ha hb hlt => ?_
      rw [hlater hfirst a ha, hlater hfirst b hb]
      exact Nat.succ_lt_succ hlt
    rw [dropRepeated]
    split
    · next hfirst => exact hrest hfirst
    · refine List.pairwise_cons.2 ⟨fun diagnostic hd => ?_, hrest List.mem_cons_self⟩
      rw [emission_cons_self, hlater List.mem_cons_self diagnostic hd]
      exact Nat.succ_pos _

/-- Leaving out what satisfies neither predicate does not change which one is satisfied first. -/
theorem findIdx_lt_of_filter {α : Type} {p q r : α → Bool} (hq : ∀ a, q a → p a)
    (hr : ∀ a, r a → p a) {list : List α}
    (h : (list.filter p).findIdx q < (list.filter p).findIdx r) :
    list.findIdx q < list.findIdx r := by
  induction list with
  | nil => exact h
  | cons a list ih =>
    rw [List.findIdx_cons, List.findIdx_cons]
    by_cases hp : p a
    · rw [List.filter_cons_of_pos hp, List.findIdx_cons, List.findIdx_cons] at h
      -- Only where neither holds of the first member does the rest of the list matter.
      cases hqa : q a <;> cases hra : r a <;> simp only [hqa, hra, cond_true, cond_false] at h ⊢
      · exact Nat.succ_lt_succ (ih (Nat.lt_of_succ_lt_succ h))
      all_goals omega
    · have hqa : q a = false := Bool.eq_false_iff.2 fun hqa => hp (hq a hqa)
      have hra : r a = false := Bool.eq_false_iff.2 fun hra => hp (hr a hra)
      rw [List.filter_cons_of_neg hp] at h
      rw [hqa, hra]
      exact Nat.succ_lt_succ (ih h)

/-- On one span, what was said first stands first. -/
theorem sorted_emission (buffer : Diagnostics) :
    buffer.sorted.Pairwise fun a b =>
      a.span.position = b.span.position → buffer.emission a < buffer.emission b := by
  refine List.pairwise_iff_forall_sublist.2 fun {a b} hab heq => ?_
  have hspan : a.span = b.span := Span.eq_of_position heq
  let here (said : Code × Span × String) : Bool := decide (said.2.1 = b.span)
  have hhere (diagnostic : Diagnostic) : here diagnostic.identity ↔ diagnostic.span = b.span :=
    decide_eq_true_iff
  -- Cut down to their span, the buffer is sorted as it stands, and only repetitions are dropped.
  have hsub : [a, b].Sublist (dropRepeated [] (buffer.items.filter (here ·.identity))) := by
    have hsub := hab.filter (here ·.identity)
    rw [filter_sorted, sorted_of_span b.span fun diagnostic hd =>
      (hhere diagnostic).1 (List.mem_filter.1 hd).2] at hsub
    simpa [hhere, hspan] using hsub
  refine findIdx_lt_of_filter (p := (here ·.identity)) (fun other ho => ?_) (fun other ho => ?_)
    (List.pairwise_iff_forall_sublist.1 (dropRepeated_pairwise [] _) hsub)
  · have hidentity : other.identity = a.identity := of_decide_eq_true ho
    rw [hidentity, hhere, hspan]
  · have hidentity : other.identity = b.identity := of_decide_eq_true ho
    rw [hidentity, hhere]

end

/-- What finishing a buffer makes of it. Sorting puts the diagnostics in the order of their spans,
and those on one span in the order in which they were first said; of all that say one thing, the
earliest stays, and nothing else is left out. Sorting again changes nothing. Without a limit, what
is sorted is shown. Under a limit, all of it that is no error and its first errors are, so many at
most; behind them, if and only if errors are dropped, a note at the last error shown tells how many.
And no limit changes whether there are errors. -/
theorem finish_exact (buffer : Diagnostics) :
    (buffer.sorted.Pairwise fun a b => a.span.position ≤ b.span.position) ∧
    (∀ said, buffer.sorted.filter (·.identity = said) =
      (buffer.items.find? (·.identity = said)).toList) ∧
    (buffer.sorted.Pairwise fun a b =>
      a.span.position = b.span.position → buffer.emission a < buffer.emission b) ∧
    sorted ⟨buffer.sorted⟩ = buffer.sorted ∧
    buffer.finish 0 = buffer.sorted ∧
    (∀ limit, 0 < limit → ∃ shown dropped, Limited limit buffer.sorted shown dropped ∧
      (dropped = 0 → buffer.finish limit = shown) ∧
      (0 < dropped → ∃ last, (shown.filter (·.isError)).getLast? = some last ∧
        buffer.finish limit = shown ++
          [{ code := .errorLimitReached, severity := .note, span := last.span,
             message := s!"error limit of {limit} reached; {dropped} more error(s) not shown" }])) ∧
    ∀ limit other,
      (buffer.finish limit).any (·.isError) = (buffer.finish other).any (·.isError) := by
  refine ⟨sorted_pairwise buffer, filter_sorted_identity buffer, sorted_emission buffer,
    sorted_sorted buffer, finish_zero buffer, fun limit hlimit => finish_limited buffer hlimit,
    fun limit other => ?_⟩
  rw [any_isError_finish, any_isError_finish]

/-- An error said twice, a warning in the same words, and an earlier error emitted last. -/
theorem finish_exact_repeated :
    let early : Diagnostic := { code := .syntaxError, span := ⟨⟨0⟩, 2, 3⟩, message := "y" }
    let error : Diagnostic := { code := .syntaxError, span := ⟨⟨0⟩, 5, 6⟩, message := "x" }
    let labelled : Diagnostic := { error with labels := [⟨early.span, "y"⟩] }
    let warning : Diagnostic := { error with code := .semanticWarning, severity := .warning }
    let buffer : Diagnostics := ⟨[labelled, warning, error, early]⟩
    buffer.sorted = [early, labelled, warning] ∧
      labelled.span.position = warning.span.position ∧
      buffer.emission labelled < buffer.emission warning ∧ 0 < 1 ∧
      ∃ shown last, Limited 1 buffer.sorted shown 1 ∧
        (shown.filter (·.isError)).getLast? = some last ∧
        buffer.finish 1 = shown ++
          [{ code := .errorLimitReached, severity := .note, span := last.span,
             message := "error limit of 1 reached; 1 more error(s) not shown" }] := by
  intro early error labelled warning buffer
  have hsort : buffer.items.mergeSort (fun a b => a.span.before b.span) =
      [early, labelled, warning, error] := by
    simp [buffer, early, error, labelled, warning, List.mergeSort,
      List.MergeSort.Internal.splitInTwo, Span.before]
  have hsorted : buffer.sorted = [early, labelled, warning] := by
    rw [sorted, hsort]
    rfl
  obtain ⟨-, -, hemission, -, -, hlimits, -⟩ := finish_exact buffer
  rw [hsorted] at hemission
  have hlt : buffer.emission labelled < buffer.emission warning :=
    List.rel_of_pairwise_cons (List.pairwise_cons.1 hemission).2 List.mem_cons_self rfl
  obtain ⟨shown, dropped, hlimited, -, hnote⟩ := hlimits 1 Nat.one_pos
  obtain rfl : dropped = 1 := by
    rw [hlimited.dropped_eq, hsorted]
    rfl
  obtain ⟨last, hlast, hfinish⟩ := hnote Nat.one_pos
  exact ⟨hsorted, rfl, hlt, Nat.one_pos, shown, last, hlimited, hlast, hfinish⟩

end Diagnostics

end OpenQasm
