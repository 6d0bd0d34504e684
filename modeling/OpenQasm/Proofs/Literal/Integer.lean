import Mathlib.Data.List.Forall2
import Mathlib.Data.Nat.Digits.Defs
import Mathlib.Tactic.IntervalCases
import OpenQasm.Proofs.Literal.Numeral

/-!
# Integers

The grammar of integer literals and what they stand for. An integer is read if and only if it is
digits of one radix, behind the mark of that radix, with separators that stand singly between two
digits; and its value is the positional value of the digits. An integer in decimal digits may stand
where a float or an angle may, and is the same number there.
-/

namespace OpenQasm.Literal

/-! ## Grammar -/

/-- A digit of a radix, in either letter case, with its value. -/
def DigitOf (radix : Nat) (c : Char) (value : Nat) : Prop :=
  value < radix ∧ c.toLower = Nat.digitChar value

/-- What stands before the digits of a number, and their radix. -/
inductive Announced : List Char → Nat → Prop
  | decimal : Announced [] 10
  | hexadecimal {mark : Char} : mark = 'x' ∨ mark = 'X' → Announced ['0', mark] 16
  | octal {mark : Char} : mark = 'o' ∨ mark = 'O' → Announced ['0', mark] 8
  | binary {mark : Char} : mark = 'b' ∨ mark = 'B' → Announced ['0', mark] 2

/-- Whole numbers in the digits of a radix, with their values: the mark of the radix, and digits
with separators between them. The value is positional, with the last digit in the lowest place. -/
inductive WholeNumeral (radix : Nat) : List Char → Nat → Prop
  | mk {mark body digits : List Char} {values : List Nat} :
      Announced mark radix → Spaced body digits → List.Forall₂ (DigitOf radix) digits values →
      WholeNumeral radix (mark ++ body) (Nat.ofDigits radix values.reverse)

/-- A text without its separators, in lower case. -/
def plain (text : List Char) : List Char := (text.filter (· ≠ '_')).map Char.toLower

/-! ## Digits -/

/-- Lower case is told by the number of the character. -/
theorem toNat_toLower (c : Char) :
    c.toLower.toNat = if 65 ≤ c.toNat ∧ c.toNat ≤ 90 then c.toNat + 32 else c.toNat := by
  have hrange : c.val ≥ 'A'.val ∧ c.val ≤ 'Z'.val ↔ 65 ≤ c.toNat ∧ c.toNat ≤ 90 := by
    simp [UInt32.le_iff_toNat_le]
  unfold Char.toLower
  split
  · next h =>
    obtain ⟨hlow, hhigh⟩ := hrange.1 h
    rw [if_pos ⟨hlow, hhigh⟩]
    show (c.val + ('a'.val - 'A'.val)).toNat = c.val.toNat + 32
    have hshift : ('a'.val - 'A'.val).toNat = 32 := rfl
    have hbound : c.val.toNat ≤ 90 := hhigh
    rw [UInt32.toNat_add, hshift]
    omega
  · next h => rw [if_neg (mt hrange.2 h)]

/-- The digits up to nine and the letters stand in two rows of characters. -/
theorem toNat_digitChar {value : Nat} (h : value < 16) :
    (Nat.digitChar value).toNat = if value < 10 then value + 48 else value + 87 := by
  interval_cases value <;> rfl

/-- The digits are in lower case. -/
theorem toLower_digitChar {value : Nat} (h : value < 16) :
    (Nat.digitChar value).toLower = Nat.digitChar value := by
  interval_cases value <;> rfl

section
variable {radix value : Nat} {c : Char} {text digits : List Char} {values : List Nat}

/-- The values of digits up to a radix of sixteen are those of the letters in lower case. -/
theorem digitOf_iff (hr : radix ≤ 16) :
    DigitOf radix c value ↔ Text.digitValue? c = some value ∧ value < radix := by
  rw [DigitOf, and_comm]
  refine and_congr_left fun hvalue => ?_
  rw [← Char.toNat_inj, toNat_toLower, toNat_digitChar (by omega)]
  simp only [Text.digitValue?, Char.le_def, UInt32.le_iff_toNat_le, Char.toNat_val, Char.reduceVal,
    Char.reduceToNat, UInt32.reduceToNat]
  grind

/-- A digit in a radix has a value in it. -/
theorem isDigitIn_iff (hr : radix ≤ 16) :
    Text.isDigitIn radix c = true ↔ ∃ value, DigitOf radix c value := by
  simp only [digitOf_iff hr, Text.isDigitIn, Option.any_eq_true, decide_eq_true_eq]

/-- The digits of the radix ten are the decimal ones. -/
theorem isDigitIn_ten : Text.isDigitIn 10 c = c.isDigit := by
  rw [Bool.eq_iff_iff]
  simp only [Text.isDigitIn, Text.digitValue?, Char.isDigit, Char.le_def, UInt32.le_iff_toNat_le,
    Char.toNat_val, Char.reduceVal, Char.reduceToNat, UInt32.reduceToNat]
  grind

/-- Digits are no separators. -/
theorem ne_separator_of_digits (hr : radix ≤ 16)
    (h : List.Forall₂ (DigitOf radix) digits values) : ∀ c ∈ digits, c ≠ '_' := by
  induction h with
  | nil => simp
  | cons hc _ ih =>
    refine List.forall_mem_cons.2 ⟨?_, ih⟩
    rintro rfl
    cases ((digitOf_iff hr).1 hc).1

/-- A digit in the other letter case has the same value. -/
theorem DigitOf.toLower (h : DigitOf radix c value) (hr : radix ≤ 16) :
    DigitOf radix c.toLower value := by
  obtain ⟨hvalue, hc⟩ := h
  refine ⟨hvalue, ?_⟩
  rw [hc, toLower_digitChar (by omega)]

/-- A text has the values of digits if each of its characters is a digit. -/
theorem exists_values_iff (hr : radix ≤ 16) :
    (∃ values, List.Forall₂ (DigitOf radix) digits values) ↔
      ∀ c ∈ digits, Text.isDigitIn radix c = true := by
  induction digits with
  | nil => exact ⟨fun _ => List.forall_mem_nil _, fun _ => ⟨[], .nil⟩⟩
  | cons c digits ih =>
    rw [List.forall_mem_cons, isDigitIn_iff hr, ← ih]
    constructor
    · rintro ⟨_, hall⟩
      cases hall with
      | cons hc hdigits => exact ⟨⟨_, hc⟩, _, hdigits⟩
    · rintro ⟨⟨value, hc⟩, values, hdigits⟩
      exact ⟨value :: values, .cons hc hdigits⟩

/-- Digits are taken in from the left, which amounts to their positional value. -/
theorem valueIn_eq_ofDigits (hr : radix ≤ 16) (h : List.Forall₂ (DigitOf radix) digits values) :
    Text.valueIn radix digits = Nat.ofDigits radix values.reverse := by
  have hfold : ∀ start, digits.foldl (fun value c => value * radix + (Text.digitValue? c).getD 0)
      start = values.foldl (fun rest value => value + radix * rest) start := by
    induction h with
    | nil => exact fun _ => rfl
    | cons hc _ ih =>
      intro start
      rw [List.foldl_cons, List.foldl_cons, ih, ((digitOf_iff hr).1 hc).1]
      simp [Nat.mul_comm, Nat.add_comm]
  rw [Nat.ofDigits_eq_foldr, List.foldr_reverse]
  exact hfold 0

end

/-! ## Marks -/

section
variable {radix value : Nat} {mark body text digits : List Char}

/-- No radix is above sixteen. -/
theorem Announced.radix_le (h : Announced mark radix) : radix ≤ 16 := by
  cases h <;> decide

/-- Ten is announced by nothing. -/
theorem Announced.eq_nil (h : Announced mark 10) : mark = [] := by
  cases h
  rfl

/-- The split finds the mark, if there is one. -/
theorem exists_announced (text : List Char) :
    ∃ mark, text = mark ++ (Radix.split text).2 ∧ Announced mark (Radix.split text).1.base := by
  unfold Radix.split
  split
  · exact ⟨['0', 'x'], rfl, .hexadecimal (.inl rfl)⟩
  · exact ⟨['0', 'X'], rfl, .hexadecimal (.inr rfl)⟩
  · exact ⟨['0', 'o'], rfl, .octal (.inl rfl)⟩
  · exact ⟨['0', 'O'], rfl, .octal (.inr rfl)⟩
  · exact ⟨['0', 'b'], rfl, .binary (.inl rfl)⟩
  · exact ⟨['0', 'B'], rfl, .binary (.inr rfl)⟩
  · exact ⟨[], rfl, .decimal⟩

/-- The characters that announce a radix. -/
def marks : List Char := ['x', 'X', 'o', 'O', 'b', 'B']

/-- A text without marks is one in decimal digits, if it is an integer. -/
theorem split_of_unmarked (h : ∀ c ∈ text, c ∉ marks) : Radix.split text = (.decimal, text) := by
  have hmark : ∀ {first mark : Char} {rest : List Char}, text = first :: mark :: rest →
      mark ∈ marks → False := by
    rintro first mark rest rfl hmem
    exact h mark (by simp) hmem
  unfold Radix.split
  split
  case h_7 => rfl
  all_goals exact (hmark rfl (by simp [marks])).elim

/-- A digit is no mark of a radix. -/
theorem unmarked_of_isDigitOrSeparator {c : Char} (h : isDigitOrSeparator c) : c ∉ marks := by
  intro hm
  simp only [marks, List.mem_cons, List.not_mem_nil, or_false] at hm
  rcases hm with rfl | rfl | rfl | rfl | rfl | rfl <;> cases h

/-- A mark is split off, unless there is none and the text is not of decimal digits. -/
theorem Announced.split_append (h : Announced mark radix)
    (hbody : radix = 10 → ∀ c ∈ body, isDigitOrSeparator c) :
    ∃ named : Radix, Radix.split (mark ++ body) = (named, body) ∧ named.base = radix := by
  cases h with
  | decimal =>
    have hunmarked : ∀ c ∈ body, c ∉ marks := fun c hc =>
      unmarked_of_isDigitOrSeparator (hbody rfl c hc)
    exact ⟨.decimal, split_of_unmarked hunmarked, rfl⟩
  | hexadecimal hmark => rcases hmark with rfl | rfl <;> exact ⟨.hexadecimal, rfl, rfl⟩
  | octal hmark => rcases hmark with rfl | rfl <;> exact ⟨.octal, rfl, rfl⟩
  | binary hmark => rcases hmark with rfl | rfl <;> exact ⟨.binary, rfl, rfl⟩

/-! ## Reading -/

/-- A digit does not make a number fractional. -/
theorem not_isFractional {c : Char} (h : isDigitOrSeparator c) : isFractional c = false := by
  simp only [isFractional, Bool.or_eq_false_iff, beq_eq_false_iff_ne]
  refine ⟨⟨?_, ?_⟩, ?_⟩ <;> (rintro rfl; cases h)

/-- An integer is read digit by digit: nothing of it may be fractional, its separators are stripped
off, and each character that is left must be a digit of the radix. -/
theorem readInteger_eq_ok_iff : readInteger text = .ok value ↔
    ((Radix.split text).1 = .decimal → ∀ c ∈ text, isFractional c = false) ∧
    ∃ digits, Spaced (Radix.split text).2 digits ∧
      (∀ c ∈ digits, Text.isDigitIn (Radix.split text).1.base c = true) ∧
      value = Text.valueIn (Radix.split text).1.base digits := by
  unfold readInteger
  obtain ⟨radix, body⟩ := Radix.split text
  dsimp only
  by_cases hrefused : radix = .decimal ∧ text.any isFractional = true
  · rw [if_pos hrefused]
    obtain ⟨hradix, hany⟩ := hrefused
    obtain ⟨c, hm, hc⟩ := List.any_eq_true.1 hany
    constructor
    · intro h
      cases h
    · rintro ⟨hplain, -⟩
      rw [hplain hradix c hm] at hc
      cases hc
  · have hplain : radix = .decimal → ∀ c ∈ text, isFractional c = false := by
      intro hradix c hm
      exact Bool.eq_false_iff.2 fun hc => hrefused ⟨hradix, List.any_eq_true.2 ⟨c, hm, hc⟩⟩
    rw [if_neg hrefused, bind_eq_ok_iff, and_iff_right hplain]
    refine exists_congr fun digits => ?_
    rw [stripSeparators_eq_ok_iff]
    cases digits with
    | nil =>
      constructor
      · rintro ⟨-, h⟩
        cases h
      · rintro ⟨h, -⟩
        exact absurd rfl h.ne_nil
    | cons c digits =>
      rw [or_iff_right (by simp)]
      refine and_congr_right fun _ => ?_
      rw [if_neg (by simp)]
      cases hfind : (c :: digits).find? (!Text.isDigitIn radix.base ·) with
      | none =>
        rw [List.find?_eq_none] at hfind
        have hall : ∀ d ∈ c :: digits, Text.isDigitIn radix.base d = true := by simpa using hfind
        rw [and_iff_right hall]
        exact (Iff.of_eq (Except.ok.injEq _ _)).trans eq_comm
      | some digit =>
        have hnot := List.find?_some hfind
        constructor
        · intro h
          cases h
        · rintro ⟨hall, -⟩
          rw [hall digit (List.mem_of_find?_eq_some hfind)] at hnot
          cases hnot

/-- Integers are whole numbers in the digits of a radix. -/
theorem readInteger_iff_wholeNumeral :
    readInteger text = .ok value ↔ ∃ radix, WholeNumeral radix text value := by
  rw [readInteger_eq_ok_iff]
  constructor
  · rintro ⟨-, digits, hspaced, hdigits, rfl⟩
    obtain ⟨mark, htext, hmark⟩ := exists_announced text
    obtain ⟨values, hvalues⟩ := (exists_values_iff hmark.radix_le).2 hdigits
    rw [valueIn_eq_ofDigits hmark.radix_le hvalues]
    have hnumeral := WholeNumeral.mk hmark hspaced hvalues
    rw [← htext] at hnumeral
    exact ⟨_, hnumeral⟩
  · rintro ⟨radix, h⟩
    cases h with
    | @mk mark body digits values hmark hspaced hvalues =>
      have hdigits := (exists_values_iff hmark.radix_le).1 ⟨values, hvalues⟩
      have hplain : radix = 10 → ∀ c ∈ body, isDigitOrSeparator c := by
        rintro rfl
        exact (grouped_iff.2 ⟨hspaced, by simpa only [isDigitIn_ten] using hdigits⟩).characters
      obtain ⟨named, hsplit, rfl⟩ := hmark.split_append hplain
      rw [hsplit]
      refine ⟨?_, digits, hspaced, hdigits, (valueIn_eq_ofDigits hmark.radix_le hvalues).symm⟩
      rintro rfl
      obtain rfl := hmark.eq_nil
      exact fun c hm => not_isFractional (hplain rfl c hm)

/-- An integer is read as such. -/
theorem read_integer_eq (text : List Char) :
    read text .integer = readInteger text >>= fun value => pure (.integer value) := by
  cases text <;> rfl

/-- What is read as an integer is a whole numeral. -/
theorem read_integer_eq_ok_iff {literal : Literal} : read text .integer = .ok literal ↔
    ∃ radix value, WholeNumeral radix text value ∧ literal = .integer value := by
  simp only [read_integer_eq, bind_eq_ok_iff, readInteger_iff_wholeNumeral, pure, Except.pure,
    Except.ok.injEq, @eq_comm _ literal]
  constructor
  · rintro ⟨value, ⟨radix, h⟩, hliteral⟩
    exact ⟨radix, value, h, hliteral⟩
  · rintro ⟨radix, value, h, hliteral⟩
    exact ⟨value, ⟨radix, h⟩, hliteral⟩

/-- Decimal digits make a numeral of the same value. -/
theorem WholeNumeral.numeral (h : WholeNumeral 10 text value) :
    Numeral text (.ofNat value) := by
  cases h with
  | @mk mark body digits values hmark hspaced hvalues =>
    obtain rfl := hmark.eq_nil
    have hdigits : ∀ c ∈ digits, c.isDigit := by
      simpa only [isDigitIn_ten] using (exists_values_iff (by decide)).1 ⟨values, hvalues⟩
    have hsignificand : Significand body digits [] :=
      .whole (.inr (grouped_iff.2 ⟨hspaced, hdigits⟩))
    rw [List.nil_append, ← List.append_nil body]
    refine .mk hsignificand (by simpa using hspaced.ne_nil) .none (Decimal.ofScaled_normal _ _) ?_
    rw [Decimal.ofNat, Decimal.value_ofScaled, List.append_nil,
      valueIn_eq_ofDigits (by decide) hvalues]
    simp

/-- A text is made plain part by part. -/
theorem plain_append (text rest : List Char) : plain (text ++ rest) = plain text ++ plain rest := by
  simp [plain]

/-- A whole number keeps its value without separators and in lower case. -/
theorem wholeNumeral_plain (h : WholeNumeral radix text value) :
    WholeNumeral radix (plain text) value := by
  cases h with
  | @mk mark body digits values hmark hspaced hvalues =>
    have hannounced : Announced (plain mark) radix := by
      cases hmark with
      | decimal => exact .decimal
      | hexadecimal hmark => rcases hmark with rfl | rfl <;> exact .hexadecimal (.inl rfl)
      | octal hmark => rcases hmark with rfl | rfl <;> exact .octal (.inl rfl)
      | binary hmark => rcases hmark with rfl | rfl <;> exact .binary (.inl rfl)
    have hlower : List.Forall₂ (DigitOf radix) (digits.map Char.toLower) values := by
      rw [List.forall₂_map_left_iff]
      exact hvalues.imp fun c value hc => hc.toLower hmark.radix_le
    have hbody : plain body = digits.map Char.toLower := by
      rw [plain, ← hspaced.digits_eq]
    have hne : digits.map Char.toLower ≠ [] := by simpa using hspaced.ne_nil
    rw [plain_append, hbody]
    exact .mk hannounced (spaced_self hne (ne_separator_of_digits hmark.radix_le hlower)) hlower

/-- Integers are read exactly, and nothing else is read as one. What is read is a whole number in
the digits of one radix, and all such numbers are, with their positional values. One in decimal
digits is read as a float and as an angle, too, with the same value. And neither separators nor the
letter case make a difference to the value. -/
theorem read_integer_exact (text : List Char) (literal : Literal) :
    (read text .integer = .ok literal ↔
      ∃ radix value, WholeNumeral radix text value ∧ literal = .integer value) ∧
    (∀ value, WholeNumeral 10 text value →
      read text .float = .ok (.float (.ofNat value)) ∧
      read text .angle = .ok (.angle (.ofNat value)) ∧ (Decimal.ofNat value).value = value) ∧
    (read text .integer = .ok literal → read (plain text) .integer = .ok literal) := by
  refine ⟨read_integer_eq_ok_iff, ?_, ?_⟩
  · intro value h
    have hread : readSuffixed (text ++ []) = .ok (.ofNat value, []) :=
      h.numeral.readSuffixed_append nofun
    rw [List.append_nil] at hread
    refine ⟨read_float_iff.2 ⟨_, hread, rfl⟩, read_angle_iff.2 ⟨_, hread, rfl⟩, ?_⟩
    rw [Decimal.ofNat, Decimal.value_ofScaled]
    simp
  · simp only [read_integer_eq_ok_iff]
    rintro ⟨radix, value, h, rfl⟩
    exact ⟨radix, value, wholeNumeral_plain h, rfl⟩

/-- Decimal digits with a separator, and hexadecimal ones in both letter cases. -/
theorem read_integer_exact_separated :
    (WholeNumeral 10 "1_0".toList 10 ∧ read "1_0".toList .float = .ok (.float (.ofNat 10))) ∧
      read "0XF_f".toList .integer = .ok (.integer 255) ∧
      read "0xff".toList .integer = .ok (.integer 255) := by
  have hnumeral : WholeNumeral 10 ([] ++ ['1', '_', '0']) (Nat.ofDigits 10 [0, 1]) :=
    .mk .decimal (.separated (by decide) (.single (by decide)))
      (.cons ⟨by decide, rfl⟩ (.cons ⟨by decide, rfl⟩ .nil))
  have hread : read "0XF_f".toList .integer = .ok (.integer 255) := by decide +kernel
  have hfloat := ((read_integer_exact "1_0".toList (.integer 10)).2.1 10 hnumeral).1
  exact ⟨⟨hnumeral, hfloat⟩, hread, (read_integer_exact _ _).2.2 hread⟩

end

end OpenQasm.Literal
