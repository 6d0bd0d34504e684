/-!
# Texts by bytes

Positions in a text count the bytes of its UTF-8 form. A position that falls inside a character
has no text before or after it, so the cuts are partial.
-/

namespace OpenQasm.Text

/-- The number of bytes that a text takes. -/
def width : List Char → Nat
  | [] => 0
  | c :: text => c.utf8Size + width text

@[simp] theorem width_nil : width [] = 0 := rfl

@[simp] theorem width_cons (c : Char) (text : List Char) :
    width (c :: text) = c.utf8Size + width text := rfl

@[simp] theorem width_append (s t : List Char) : width (s ++ t) = width s + width t := by
  induction s with
  | nil => simp
  | cons c s ih => rw [List.cons_append, width_cons, ih, width_cons, Nat.add_assoc]

/-- The text from byte `offset` on, if a character begins or the text ends there. -/
def dropBytes? : List Char → Nat → Option (List Char)
  | text, 0 => some text
  | [], _ + 1 => none
  | c :: text, n + 1 => if c.utf8Size ≤ n + 1 then dropBytes? text (n + 1 - c.utf8Size) else none

/-- The text before byte `offset`, if a character begins or the text ends there. -/
def takeBytes? : List Char → Nat → Option (List Char)
  | _, 0 => some []
  | [], _ + 1 => none
  | c :: text, n + 1 =>
    if c.utf8Size ≤ n + 1 then (takeBytes? text (n + 1 - c.utf8Size)).map (c :: ·) else none

/-- The text between two bytes, if both cut it between characters and in this order. -/
def slice? (text : List Char) (start stop : Nat) : Option (List Char) :=
  if start ≤ stop then (dropBytes? text start).bind (takeBytes? · (stop - start)) else none

@[simp] theorem dropBytes?_width (s t : List Char) : dropBytes? (s ++ t) (width s) = some t := by
  induction s with
  | nil => simp [dropBytes?]
  | cons c s ih =>
    obtain ⟨n, hn⟩ : ∃ n, width (c :: s) = n + 1 :=
      ⟨width (c :: s) - 1, by have := c.utf8Size_pos; simp only [width_cons]; omega⟩
    have hw := width_cons c s
    have : n + 1 - c.utf8Size = width s := by omega
    rw [hn, List.cons_append, dropBytes?, if_pos (by omega), this, ih]

@[simp] theorem takeBytes?_width (s t : List Char) : takeBytes? (s ++ t) (width s) = some s := by
  induction s with
  | nil => simp [takeBytes?]
  | cons c s ih =>
    obtain ⟨n, hn⟩ : ∃ n, width (c :: s) = n + 1 :=
      ⟨width (c :: s) - 1, by have := c.utf8Size_pos; simp only [width_cons]; omega⟩
    have hw := width_cons c s
    have : n + 1 - c.utf8Size = width s := by omega
    rw [hn, List.cons_append, takeBytes?, if_pos (by omega), this, ih]
    rfl

/-- A slice is what stands between the two cuts. -/
theorem slice?_append (a b c : List Char) :
    slice? (a ++ b ++ c) (width a) (width a + width b) = some b := by
  simp [slice?, List.append_assoc]

end OpenQasm.Text
