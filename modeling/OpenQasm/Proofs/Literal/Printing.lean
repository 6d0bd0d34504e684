import OpenQasm.Proofs.Literal.Integer

/-!
# Printed literals

What printed numbers read back as. A printed decimal is a numeral of the same value in each of its
layouts, as long as its exponent may be written. The reader bounds the exponent that is written,
but the printer writes the one of the normal form: zeros at the end of the digits that are read
raise it, and places behind the point lower it. So a literal near either end of the range may be
printed with an exponent that is refused.
-/

namespace OpenQasm

/-! ## Digits -/

namespace Text

variable {digits : List Char}

/-- Decimal digits are taken in as core does it. -/
theorem valueIn_eq_ofDigitChars (h : ∀ c ∈ digits, c.isDigit) :
    valueIn 10 digits = Nat.ofDigitChars 10 digits 0 := by
  have hfold : ∀ start, digits.foldl (fun value c => value * 10 + (digitValue? c).getD 0) start =
      Nat.ofDigitChars 10 digits start := by
    induction digits with
    | nil => intro start; rfl
    | cons c digits ih =>
      obtain ⟨hc, hrest⟩ := List.forall_mem_cons.1 h
      intro start
      have hvalue : digitValue? c = some (c.toNat - '0'.toNat) := by
        rw [digitValue?, if_pos]
        simpa [Char.isDigit, Char.le_def] using hc
      rw [List.foldl_cons, Nat.ofDigitChars_cons, ih hrest, hvalue, Nat.mul_comm, Option.getD_some]
  exact hfold 0

/-- A number is printed in digits. -/
theorem isDigit_toDigits (n : Nat) : ∀ c ∈ Nat.toDigits 10 n, c.isDigit :=
  fun _ hc => Nat.isDigit_of_mem_toDigits (by decide) (by decide) hc

/-- Zeros are digits. -/
theorem isDigit_zeros (count : Nat) : ∀ c ∈ List.replicate count '0', c.isDigit := by
  intro c hc
  rw [List.eq_of_mem_replicate hc]
  rfl

/-- The digits of a number have its value. -/
@[simp]
theorem valueIn_toDigits (n : Nat) : valueIn 10 (Nat.toDigits 10 n) = n := by
  rw [valueIn_eq_ofDigitChars (isDigit_toDigits n), Nat.ofDigitChars_ten_toDigits]

/-- Zeros behind the digits of a number scale it. -/
theorem valueIn_toDigits_append_zeros (n count : Nat) :
    valueIn 10 (Nat.toDigits 10 n ++ List.replicate count '0') = n * 10 ^ count := by
  have hdigits : ∀ c ∈ Nat.toDigits 10 n ++ List.replicate count '0', c.isDigit :=
    List.forall_mem_append.2 ⟨isDigit_toDigits n, isDigit_zeros count⟩
  rw [valueIn_eq_ofDigitChars hdigits, Nat.ofDigitChars_append, Nat.ofDigitChars_replicate_zero,
    Nat.ofDigitChars_ten_toDigits, Nat.mul_comm]

/-- Zeros before the digits of a number do not change it. -/
theorem valueIn_zeros_append_toDigits (n count : Nat) :
    valueIn 10 (List.replicate count '0' ++ Nat.toDigits 10 n) = n := by
  have hdigits : ∀ c ∈ List.replicate count '0' ++ Nat.toDigits 10 n, c.isDigit :=
    List.forall_mem_append.2 ⟨isDigit_zeros count, isDigit_toDigits n⟩
  rw [valueIn_eq_ofDigitChars hdigits, Nat.ofDigitChars_append, Nat.ofDigitChars_replicate_zero,
    Nat.mul_zero, Nat.ofDigitChars_ten_toDigits]

end Text

namespace Literal

open Text (isDigit_toDigits isDigit_zeros)

/-- Digits are spaced without separators. -/
theorem spaced_digits {digits : List Char} (hne : digits ≠ []) (h : ∀ c ∈ digits, c.isDigit) :
    Spaced digits digits :=
  spaced_self hne fun c hc => ne_separator_of_isDigit (h c hc)

/-- Digits without separators are a digit string, of themselves. -/
theorem digitString_self {digits : List Char} (h : ∀ c ∈ digits, c.isDigit) :
    DigitString digits digits := by
  cases digits with
  | nil => exact .inl ⟨rfl, rfl⟩
  | cons c digits => exact .inr (grouped_iff.2 ⟨spaced_digits (List.cons_ne_nil _ _) h, h⟩)

/-! ## Layouts -/

section
variable {n places : Nat} {exponent : Int}

/-- Digits, with zeros for a small exponent. -/
theorem numeral_zeros {zeros : Nat} (h : Decimal.Normal ⟨n, zeros⟩) :
    Numeral (Nat.toDigits 10 n ++ List.replicate zeros '0') ⟨n, zeros⟩ := by
  have hdigits := digitString_self
    (List.forall_mem_append.2 ⟨isDigit_toDigits n, isDigit_zeros zeros⟩)
  rw [← List.append_nil (_ ++ _)]
  refine .mk (.whole hdigits) (by simp [Nat.toDigits_ne_nil]) .none h ?_
  rw [List.append_nil, Text.valueIn_toDigits_append_zeros, Decimal.value]
  simp

/-- Digits with a point among them. -/
theorem numeral_point {whole fraction : List Char} (h : Decimal.Normal ⟨n, -(places : Int)⟩)
    (hw : ∀ c ∈ whole, c.isDigit) (hf : ∀ c ∈ fraction, c.isDigit) (hne : whole ++ fraction ≠ [])
    (hvalue : Text.valueIn 10 (whole ++ fraction) = n) (hplaces : fraction.length = places) :
    Numeral (whole ++ '.' :: fraction) ⟨n, -(places : Int)⟩ := by
  rw [← List.append_nil (_ ++ _)]
  refine .mk (.point (digitString_self hw) (digitString_self hf)) hne .none h ?_
  rw [hvalue, Decimal.value, hplaces, Int.zero_sub, Int.cast_natCast]

/-- Positional fractions, with zeros before the digits if there are too few of them. -/
theorem numeral_positional (h : Decimal.Normal ⟨n, -(places : Int)⟩) :
    Numeral (Decimal.positional (Nat.toDigits 10 n) places) ⟨n, -(places : Int)⟩ := by
  have hdigits := isDigit_toDigits n
  have hne : Nat.toDigits 10 n ≠ [] := Nat.toDigits_ne_nil
  have hvalue := Text.valueIn_toDigits n
  have hzeros := Text.valueIn_zeros_append_toDigits n
  generalize Nat.toDigits 10 n = digits at *
  unfold Decimal.positional
  split
  · next hlt =>
    have hlength : (digits.drop (digits.length - places)).length = places := by
      rw [List.length_drop]
      omega
    rw [← List.take_append_drop (digits.length - places) digits] at hne hvalue hdigits
    obtain ⟨hw, hf⟩ := List.forall_mem_append.1 hdigits
    exact numeral_point h hw hf hne hvalue hlength
  · next hle =>
    have hf : ∀ c ∈ List.replicate (places - digits.length) '0' ++ digits, c.isDigit :=
      List.forall_mem_append.2 ⟨isDigit_zeros _, hdigits⟩
    have hlength : (List.replicate (places - digits.length) '0' ++ digits).length = places := by
      rw [List.length_append, List.length_replicate]
      omega
    exact numeral_point h (isDigit_zeros 1) hf (by simp)
      (hzeros (places - digits.length + 1)) hlength

/-- The sign of an exponent as it is written. -/
def signOf (exponent : Int) : List Char := if exponent < 0 then ['-'] else []

/-- The sign that is printed is that of the exponent. -/
theorem sign_signOf (exponent : Int) : Sign (signOf exponent) (decide (exponent < 0)) := by
  unfold signOf
  split
  · next h =>
    rw [decide_eq_true h]
    exact .minus
  · next h =>
    rw [decide_eq_false h]
    exact .none

/-- The printed digits of an exponent, with its sign, have its value. -/
theorem signed_toDigits (exponent : Int) :
    signed (decide (exponent < 0)) (Nat.toDigits 10 exponent.natAbs) = exponent := by
  unfold signed
  rw [Text.valueIn_toDigits]
  grind

/-- An exponent beyond the range is printed and then refused. -/
theorem exponentOf_printed {exponent : Int} (number : List Char)
    (h : maxExponent < exponent.natAbs) :
    exponentOf ('e' :: signOf exponent ++ Nat.toDigits 10 exponent.natAbs) number =
      .error (beyondRange exponent number) := by
  show readExponent (signOf exponent ++ Nat.toDigits 10 exponent.natAbs) number = _
  rw [readExponent_eq number (sign_signOf exponent) Nat.toDigits_ne_nil
    (isDigit_toDigits exponent.natAbs), signed_toDigits, if_neg (Nat.not_le.2 h)]

/-- Digits and an exponent, which must be within the range. -/
theorem numeral_exponent (h : Decimal.Normal ⟨n, exponent⟩)
    (hrange : exponent.natAbs ≤ maxExponent) :
    Numeral (Nat.toDigits 10 n ++ ('e' :: signOf exponent ++ Nat.toDigits 10 exponent.natAbs))
      ⟨n, exponent⟩ := by
  have hexponent := Exponent.written (.inl rfl) (sign_signOf exponent) Nat.toDigits_ne_nil
    (isDigit_toDigits exponent.natAbs) (by rwa [Text.valueIn_toDigits])
  rw [← signed, signed_toDigits] at hexponent
  refine .mk (.whole (digitString_self (isDigit_toDigits n))) ?_ hexponent h ?_
  · simp [Nat.toDigits_ne_nil]
  · rw [List.append_nil, Text.valueIn_toDigits, Decimal.value]
    simp

/-- What is printed for a number that is no less than zero, in the three layouts. -/
theorem toChars_cases (n : Nat) (exponent : Int) :
    (∃ zeros : Nat, exponent = zeros ∧ (zeros : Int) ≤ Decimal.maxZeros ∧
      Decimal.toChars ⟨n, exponent⟩ = Nat.toDigits 10 n ++ List.replicate zeros '0') ∨
    (∃ places : Nat, exponent = -(places : Int) ∧ 0 < places ∧ (places : Int) ≤ Decimal.maxPlaces ∧
      Decimal.toChars ⟨n, exponent⟩ = Decimal.positional (Nat.toDigits 10 n) places) ∨
    (exponent < -Decimal.maxPlaces ∨ Decimal.maxZeros < exponent) ∧
      Decimal.toChars ⟨n, exponent⟩ =
        Nat.toDigits 10 n ++ ('e' :: signOf exponent ++ Nat.toDigits 10 exponent.natAbs) := by
  have hsign : ¬(n : Int) < 0 := by omega
  unfold Decimal.toChars
  dsimp only
  rw [if_neg hsign, Int.natAbs_natCast, List.nil_append]
  split
  · next h => exact .inl ⟨exponent.natAbs, by omega, by omega, rfl⟩
  · split
    · next h => exact .inr (.inl ⟨exponent.natAbs, by omega, by omega, by omega, rfl⟩)
    · refine .inr (.inr ⟨by omega, ?_⟩)
      simp [signOf]

/-- A printed number is a numeral with its value, if its exponent may be written. -/
theorem numeral_toChars {d : Decimal} (h : d.Normal) (hs : 0 ≤ d.mantissa)
    (hrange : d.exponent.natAbs ≤ maxExponent) : Numeral d.toChars d := by
  obtain ⟨mantissa, exponent⟩ := d
  obtain ⟨n, rfl⟩ := Int.eq_ofNat_of_zero_le hs
  rcases toChars_cases n exponent with ⟨zeros, rfl, -, hchars⟩ | ⟨places, rfl, -, -, hchars⟩ |
    ⟨-, hchars⟩
  · exact hchars ▸ numeral_zeros h
  · exact hchars ▸ numeral_positional h
  · exact hchars ▸ numeral_exponent h hrange

/-- What is printed with an exponent beyond the range is cut off as a number and refused. -/
theorem readDecimal_toChars_eq_error {d : Decimal} (hs : 0 ≤ d.mantissa)
    (hrange : maxExponent < d.exponent.natAbs) :
    (∃ digits exponent, d.toChars = digits ++ [] ++ exponent ∧ Parts digits [] exponent) ∧
      readDecimal d.toChars = .error (beyondRange d.exponent d.toChars) := by
  obtain ⟨mantissa, exponent⟩ := d
  obtain ⟨n, rfl⟩ := Int.eq_ofNat_of_zero_le hs
  have hbounds : (maxExponent : Int) = 2147483647 ∧ Decimal.maxZeros = 6 ∧
      Decimal.maxPlaces = 30 := ⟨rfl, rfl, rfl⟩
  rcases toChars_cases n exponent with ⟨zeros, rfl, hle, -⟩ | ⟨places, rfl, -, hle, -⟩ | ⟨-, hchars⟩
  · dsimp only at hrange
    omega
  · dsimp only at hrange
    omega
  · have hdigits := digitString_self (isDigit_toDigits n)
    have hparts : Parts (Nat.toDigits 10 n) []
        ('e' :: signOf exponent ++ Nat.toDigits 10 exponent.natAbs) :=
      ⟨hdigits.characters, .inl rfl, .inr ⟨'e', _, _, _, rfl, .inl rfl, sign_signOf exponent,
        Nat.toDigits_ne_nil, isDigit_toDigits exponent.natAbs⟩⟩
    have hread := hparts.readDecimal_eq_error hdigits (.inl ⟨rfl, rfl⟩)
      (by simp [Nat.toDigits_ne_nil]) (exponentOf_printed _ hrange)
    rw [List.append_nil, ← hchars] at hread
    refine ⟨⟨_, _, ?_, hparts⟩, hread⟩
    rw [List.append_nil, hchars]

end

/-! ## Suffixes -/

/-- What is written behind the number of a literal. -/
def suffix : Literal → List Char
  | imaginary _ => ['i', 'm']
  | duration _ unit => unit.toString.toList
  | _ => []

section
variable {literal : Literal} {number : List Char}

/-- All but integers are printed as a decimal with its suffix. -/
theorem toChars_eq (h : literal.kind ≠ .integer) :
    literal.toChars = literal.decimal.toChars ++ literal.suffix := by
  cases literal with
  | integer value => exact absurd rfl h
  | float value | angle value => exact (List.append_nil _).symm
  | imaginary value | duration value unit => rfl

/-- A suffix does not go on with a number or with blanks. -/
theorem suffix_ends (literal : Literal) :
    ∀ c ∈ literal.suffix.head?, Text.isBlank c = false ∧ extendsNumber c = false := by
  cases literal with
  | integer value | float value | angle value => exact nofun
  | imaginary value => exact fun c hc => Option.some.inj hc ▸ by decide
  | duration value unit => exact ends_of_ofSuffix? (TimeUnit.ofSuffix?_toString unit)

/-- The number of a literal and its suffix are read as the literal. -/
theorem read_append (hk : literal.kind ≠ .integer) (hn : Numeral number literal.decimal) :
    read (number ++ literal.suffix) literal.kind = .ok literal := by
  have hread := hn.readSuffixed_append literal.suffix_ends
  cases literal with
  | integer value => exact absurd rfl hk
  | float value => exact read_float_iff.2 ⟨_, hread, rfl⟩
  | angle value => exact read_angle_iff.2 ⟨_, hread, rfl⟩
  | imaginary value => exact read_imaginary_iff.2 ⟨_, hread, rfl⟩
  | duration value unit =>
    exact read_duration_iff.2 ⟨_, _, _, hread, TimeUnit.ofSuffix?_toString unit, rfl⟩

/-- Where the number that is printed for a literal is refused, so is the literal. -/
theorem read_append_eq_error (hk : literal.kind ≠ .integer) (hs : 0 ≤ literal.decimal.mantissa)
    (hrange : maxExponent < literal.decimal.exponent.natAbs) :
    read (literal.decimal.toChars ++ literal.suffix) literal.kind =
      .error (beyondRange literal.decimal.exponent literal.decimal.toChars) := by
  obtain ⟨⟨digits, exponent, hchars, hparts⟩, hread⟩ := readDecimal_toChars_eq_error hs hrange
  have hsplit := hparts.splitNumber_append fun c hc => (literal.suffix_ends c hc).2
  rw [← hchars] at hsplit
  have hne : literal.decimal.toChars ≠ [] := by
    intro hnil
    rw [hnil, beyondRange] at hread
    split at hread <;> cases hread
  refine read_eq_error hk ?_
  unfold readSuffixed
  rw [hsplit]
  dsimp only
  rw [if_neg (by simpa using hne), hread]
  rfl

/-! ## What is read -/

/-- A decimal that is not negative has no negative mantissa. -/
theorem mantissa_nonneg {d : Decimal} (h : 0 ≤ d.value) : 0 ≤ d.mantissa := by
  have hpower : (0 : ℚ) < 10 ^ d.exponent := zpow_pos (by norm_num) _
  exact_mod_cast nonneg_of_mul_nonneg_left h hpower

/-- What is read is of the kind asked for, and its number is in normal form and without a sign. -/
theorem of_read {text : List Char} {kind : LiteralKind} (h : read text kind = .ok literal) :
    literal.kind = kind ∧ literal.decimal.Normal ∧ 0 ≤ literal.decimal.mantissa := by
  have hnumeral : ∀ {value : Decimal} {suffix : List Char},
      readSuffixed text = .ok (value, suffix) → value.Normal ∧ 0 ≤ value.mantissa := by
    intro value suffix hread
    obtain ⟨_, _, -, hnumeral, -⟩ := numeral_of_readSuffixed hread
    cases hnumeral with
    | mk _ _ _ hnormal hvalue =>
      refine ⟨hnormal, mantissa_nonneg ?_⟩
      rw [hvalue]
      positivity
  cases kind with
  | integer =>
    obtain ⟨_, value, -, rfl⟩ := read_integer_eq_ok_iff.1 h
    refine ⟨rfl, Decimal.ofScaled_normal _ _, mantissa_nonneg ?_⟩
    rw [decimal, Decimal.ofNat, Decimal.value_ofScaled]
    positivity
  | float =>
    obtain ⟨value, hread, rfl⟩ := read_float_iff.1 h
    exact ⟨rfl, hnumeral hread⟩
  | angle =>
    obtain ⟨value, hread, rfl⟩ := read_angle_iff.1 h
    exact ⟨rfl, hnumeral hread⟩
  | imaginary =>
    obtain ⟨value, hread, rfl⟩ := read_imaginary_iff.1 h
    exact ⟨rfl, hnumeral hread⟩
  | duration =>
    obtain ⟨value, suffix, unit, hread, -, rfl⟩ := read_duration_iff.1 h
    exact ⟨rfl, hnumeral hread⟩

/-- Digits are read as the whole number that they spell. -/
theorem read_digits {digits : List Char} (hne : digits ≠ []) (h : ∀ c ∈ digits, c.isDigit) :
    read digits .integer = .ok (.integer (Text.valueIn 10 digits)) := by
  have hten : 10 ≤ 16 := by decide
  obtain ⟨values, hvalues⟩ := (exists_values_iff hten).2
    (show ∀ c ∈ digits, Text.isDigitIn 10 c = true by simpa only [isDigitIn_ten] using h)
  have hnumeral := WholeNumeral.mk .decimal (spaced_digits hne h) hvalues
  rw [← valueIn_eq_ofDigits hten hvalues] at hnumeral
  exact read_integer_eq_ok_iff.2 ⟨10, _, hnumeral, rfl⟩

/-- Printed literals read back, except those whose number has an exponent beyond the range: the
decimal of such a literal is printed with that exponent, which the reader refuses. -/
theorem read_toString {text : List Char} {kind : LiteralKind} (h : read text kind = .ok literal) :
    read (toString literal).toList kind =
      if kind = .integer ∨ literal.decimal.exponent.natAbs ≤ maxExponent then .ok literal
      else .error (beyondRange literal.decimal.exponent literal.decimal.toChars) := by
  obtain ⟨rfl, hnormal, hs⟩ := of_read h
  have hchars : (toString literal).toList = literal.toChars := String.toList_ofList
  rw [hchars]
  by_cases hk : literal.kind = .integer
  · rw [if_pos (.inl hk)]
    cases literal with
    | integer value =>
      have hread := read_digits Nat.toDigits_ne_nil (isDigit_toDigits value)
      rwa [Text.valueIn_toDigits] at hread
    | float | imaginary | angle | duration => cases hk
  · rw [toChars_eq hk]
    split
    · next hrange =>
      exact read_append hk (numeral_toChars hnormal hs (hrange.resolve_left hk))
    · next hrange =>
      exact read_append_eq_error hk hs (Nat.not_le.1 (not_or.1 hrange).2)

/-- Separators, places behind a point and an exponent are printed in another way. -/
theorem read_toString_imaginary :
    read "1_2.50e-40im".toList .imaginary = .ok (.imaginary ⟨125, -41⟩) ∧
      read (toString (imaginary ⟨125, -41⟩)).toList .imaginary = .ok (.imaginary ⟨125, -41⟩) := by
  have h : read "1_2.50e-40im".toList .imaginary = .ok (.imaginary ⟨125, -41⟩) := by decide +kernel
  exact ⟨h, (read_toString h).trans (if_pos (.inr (by decide)))⟩

/-- A zero behind the first digit takes the greatest exponent beyond the range. -/
theorem not_read_toString_tenfold : ¬∀ (text : List Char) (kind : LiteralKind) (literal : Literal),
    read text kind = .ok literal → read (toString literal).toList kind = .ok literal := by
  intro h
  have hread : read "10e2147483647".toList .float = .ok (.float ⟨1, 2147483648⟩) := by
    decide +kernel
  have hrefused : read (toString (float ⟨1, 2147483648⟩)).toList .float =
      .error (.exponentOutOfRange "1e2147483648".toList) := by decide +kernel
  rw [h _ _ _ hread] at hrefused
  cases hrefused

end

end Literal

end OpenQasm
