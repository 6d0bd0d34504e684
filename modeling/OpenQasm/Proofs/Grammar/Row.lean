import OpenQasm.Span

/-!
# Spans in a row

Spans of one source that follow each other, each from where the one before it ends or later. The
tokens of a text stand in a row, and so do the children of a node within the span of the node.
-/

namespace OpenQasm.Span

/-- Spans of a source that follow each other between two offsets. -/
def InRow (source : SourceId) : Nat → Nat → List Span → Prop
  | _, _, [] => True
  | low, high, span :: spans =>
    span.source = source ∧ low ≤ span.start ∧ span.start ≤ span.stop ∧ span.stop ≤ high ∧
      InRow source span.stop high spans

section
variable {source : SourceId} {low low' high high' middle : Nat} {span : Span} {row more : List Span}

@[simp] theorem inRow_nil : InRow source low high [] := trivial

@[simp] theorem inRow_singleton : InRow source low high [span] ↔
    span.source = source ∧ low ≤ span.start ∧ span.start ≤ span.stop ∧ span.stop ≤ high := by
  simp [InRow]

/-- A row stays one between offsets that leave more room. -/
theorem InRow.mono (h : InRow source low high row) (hl : low' ≤ low) (hh : high ≤ high') :
    InRow source low' high' row := by
  induction row generalizing low low' with
  | nil => trivial
  | cons span spans ih =>
    obtain ⟨hs, h1, h2, h3, h4⟩ := h
    exact ⟨hs, by omega, h2, by omega, ih h4 (Nat.le_refl _)⟩

/-- A row goes on with another one that begins where it ends. -/
theorem InRow.append (hl : InRow source low middle row) (hr : InRow source middle high more)
    (h1 : low ≤ middle) (h2 : middle ≤ high) : InRow source low high (row ++ more) := by
  induction row generalizing low with
  | nil => exact hr.mono h1 (Nat.le_refl _)
  | cons span spans ih =>
    obtain ⟨hs, h3, h4, h5, h6⟩ := hl
    exact ⟨hs, h3, h4, by omega, ih h6 h5⟩

/-- The first piece of a row is a row. -/
theorem InRow.of_append_left (h : InRow source low high (row ++ more)) :
    InRow source low high row := by
  induction row generalizing low with
  | nil => trivial
  | cons span spans ih => exact ⟨h.1, h.2.1, h.2.2.1, h.2.2.2.1, ih h.2.2.2.2⟩

/-- The last piece of a row is a row from where the first one ends. -/
theorem InRow.of_append_right (h : InRow source low high (row ++ more)) :
    InRow source (row.foldl (fun _ span => span.stop) low) high more := by
  induction row generalizing low with
  | nil => exact h
  | cons span spans ih => exact ih h.2.2.2.2

/-- Every span of a row lies between the two offsets. -/
theorem InRow.mem (h : InRow source low high row) (hs : span ∈ row) :
    span.source = source ∧ low ≤ span.start ∧ span.start ≤ span.stop ∧ span.stop ≤ high := by
  induction row generalizing low with
  | nil => cases hs
  | cons first spans ih =>
    obtain ⟨h1, h2, h3, h4, h5⟩ := h
    rcases List.mem_cons.1 hs with rfl | hs
    · exact ⟨h1, h2, h3, h4⟩
    · obtain ⟨h6, h7, h8⟩ := ih h5 hs
      exact ⟨h6, by omega, h8⟩

/-- A row goes on with another one that begins after it. -/
theorem InRow.follow {start : Nat} (hr : InRow source low middle row)
    (hm : InRow source start high more) (h1 : low ≤ start) (h2 : middle ≤ start)
    (h3 : middle ≤ high) : InRow source low high (row ++ more) := by
  cases more with
  | nil => exact (List.append_nil row).symm ▸ hr.mono (Nat.le_refl _) h3
  | cons span spans =>
    have := hm.mem (List.mem_cons_self (a := span))
    exact (hr.mono (Nat.le_refl _) h2).append hm h1 (by omega)

/-- The end of the last span of a row lies between the two offsets. -/
theorem InRow.foldl_stop (h : InRow source low high row) (hlow : low ≤ high) :
    low ≤ row.foldl (fun _ span => span.stop) low ∧
      row.foldl (fun _ span => span.stop) low ≤ high := by
  induction row generalizing low with
  | nil => exact ⟨Nat.le_refl _, hlow⟩
  | cons span spans ih =>
    obtain ⟨-, h1, h2, h3, h4⟩ := h
    have ⟨h5, h6⟩ := ih h4 h3
    exact ⟨by simp only [List.foldl_cons]; omega, h6⟩

end

end OpenQasm.Span
