import OpenQasm.Text.Bytes

/-!
# Boundaries of a text

A boundary is an offset that falls inside no character. A text can be cut at its boundaries and
nowhere else: there is a text before an offset, behind it or between two of them if and only if they
are boundaries.
-/

namespace OpenQasm

namespace Text

section
variable {text piece front back : List Char} {offset start stop : Nat}

/-- A text that is not empty takes some bytes. -/
theorem width_pos (h : text ≠ []) : 0 < width text := by
  cases text with
  | nil => exact absurd rfl h
  | cons c text =>
    have := c.utf8Size_pos
    rw [width_cons]
    omega

/-- Every character takes a byte at least. -/
theorem length_le_width (text : List Char) : text.length ≤ width text := by
  induction text with
  | nil => exact Nat.le_refl _
  | cons c text ih =>
    have := c.utf8Size_pos
    rw [List.length_cons, width_cons]
    omega

/-- An offset at which a character begins, or the text ends. -/
def IsBoundary (text : List Char) (offset : Nat) : Prop :=
  ∃ front back, text = front ++ back ∧ width front = offset

theorem isBoundary_zero (text : List Char) : IsBoundary text 0 := ⟨[], text, rfl, rfl⟩

theorem isBoundary_width (text : List Char) : IsBoundary text (width text) :=
  ⟨text, [], (List.append_nil text).symm, rfl⟩

/-- A boundary is not behind the end. -/
theorem IsBoundary.le (h : IsBoundary text offset) : offset ≤ width text := by
  obtain ⟨front, back, rfl, rfl⟩ := h
  rw [width_append]
  exact Nat.le_add_right _ _

/-- Bytes are dropped up to a boundary. -/
theorem dropBytes?_eq_some_iff :
    dropBytes? text offset = some back ↔ ∃ front, text = front ++ back ∧ width front = offset := by
  constructor
  · intro h
    fun_induction dropBytes? text offset with
    | case1 text => exact ⟨[], Option.some.inj h, rfl⟩
    | case2 => cases h
    | case3 c text n hle ih =>
      obtain ⟨front, rfl, hw⟩ := ih h
      exact ⟨c :: front, rfl, by rw [width_cons, hw, Nat.add_sub_cancel' hle]⟩
    | case4 => cases h
  · rintro ⟨front, rfl, rfl⟩
    exact dropBytes?_width front back

/-- And taken up to one. -/
theorem takeBytes?_eq_some_iff :
    takeBytes? text offset = some front ↔ ∃ back, text = front ++ back ∧ width front = offset := by
  constructor
  · intro h
    fun_induction takeBytes? text offset generalizing front with
    | case1 text => exact ⟨text, by rw [← Option.some.inj h]; rfl, by rw [← Option.some.inj h]; rfl⟩
    | case2 => cases h
    | case3 c text n hle ih =>
      obtain ⟨rest, hrest, rfl⟩ := Option.map_eq_some_iff.1 h
      obtain ⟨back, rfl, hw⟩ := ih hrest
      exact ⟨back, rfl, by rw [width_cons, hw, Nat.add_sub_cancel' hle]⟩
    | case4 => cases h
  · rintro ⟨back, rfl, rfl⟩
    exact takeBytes?_width front back

/-- A slice is the text between two offsets. -/
theorem slice?_eq_some_iff : slice? text start stop = some piece ↔
    ∃ front back, text = front ++ (piece ++ back) ∧ width front = start ∧
      stop = start + width piece := by
  constructor
  · intro h
    unfold slice? at h
    split at h
    · next hle =>
      obtain ⟨rest, hdrop, htake⟩ := Option.bind_eq_some_iff.1 h
      obtain ⟨front, rfl, hfront⟩ := dropBytes?_eq_some_iff.1 hdrop
      obtain ⟨back, rfl, hpiece⟩ := takeBytes?_eq_some_iff.1 htake
      exact ⟨front, back, rfl, hfront, by rw [hpiece, Nat.add_sub_cancel' hle]⟩
    · cases h
  · rintro ⟨front, back, rfl, rfl, rfl⟩
    rw [← List.append_assoc]
    exact slice?_append front piece back

/-- What can be sliced has boundaries at both ends. -/
theorem isBoundary_of_slice? (h : slice? text start stop = some piece) :
    IsBoundary text start ∧ IsBoundary text stop := by
  obtain ⟨front, back, rfl, rfl, rfl⟩ := slice?_eq_some_iff.1 h
  refine ⟨⟨front, _, rfl, rfl⟩, front ++ piece, back, ?_, width_append front piece⟩
  rw [List.append_assoc]

/-- Between two boundaries, a text can be sliced. -/
theorem IsBoundary.exists_slice? (h : IsBoundary text start) (h' : IsBoundary text stop)
    (hle : start ≤ stop) : ∃ piece, slice? text start stop = some piece := by
  obtain ⟨front, back, rfl, rfl⟩ := h
  obtain ⟨front', back', heq, rfl⟩ := h'
  rcases List.append_eq_append_iff.1 heq with ⟨piece, rfl, rfl⟩ | ⟨piece, rfl, rfl⟩
  · exact ⟨piece, slice?_eq_some_iff.2 ⟨front, back', rfl, rfl, width_append front piece⟩⟩
  · have hnil : piece = [] := Decidable.by_contra fun hne => by
      have := width_pos hne
      rw [width_append] at hle
      omega
    exact ⟨[], slice?_eq_some_iff.2 ⟨front' ++ piece, back, rfl, rfl, by simp [hnil]⟩⟩

end

end Text

end OpenQasm
