import OpenQasm.Proofs.Literal.Normalization
import OpenQasm.Proofs.Literal.Printing

/-!
# Records of literals

What the record of a literal tells: its kind, its number and its unit. The number is written as a
decimal, for integers too. So an integer with many zeros at its end is written with an exponent,
and cannot be read as an integer again; as a float, every number reads back.
-/

namespace OpenQasm

/-! ## Fields -/

/-- The text in the member of an object with a name. -/
def Json.text? (name : String) : Json → Option String
  | object fields =>
    match fields.lookup name with
    | some (string text) => some text
    | _ => none
  | _ => none

/-- The kind with a name. -/
def LiteralKind.ofName? (name : String) : Option LiteralKind :=
  [integer, float, imaginary, angle, duration].find? (·.toString = name)

/-- The name of a kind tells it. -/
theorem LiteralKind.ofName?_toString (kind : LiteralKind) :
    ofName? kind.toString = some kind := by
  cases kind <;> rfl

namespace Literal

open Text (isDigit_toDigits isDigit_zeros)

/-- What stands behind the value of a record: the mark of an imaginary number, or the unit of a
duration. -/
def suffixOf? (record : Json) : LiteralKind → Option String
  | .imaginary => some "im"
  | .duration => record.text? "unit"
  | _ => some ""

/-- The text that a record spells, with the kind that it names. -/
def spelling? (record : Json) : Option (List Char × LiteralKind) := do
  let kind ← LiteralKind.ofName? (← record.text? "kind")
  let value ← record.text? "value"
  let suffix ← suffixOf? record kind
  return (value.toList ++ suffix.toList, kind)

/-- The record of a literal has the name of its kind. -/
theorem text?_kind (literal : Literal) :
    literal.toJson.text? "kind" = some literal.kind.toString := rfl

/-- It has the text of its value. -/
theorem text?_value (literal : Literal) :
    literal.toJson.text? "value" = some literal.decimal.toString := rfl

/-- And it has its suffix. -/
theorem suffixOf?_toJson (literal : Literal) :
    (suffixOf? literal.toJson literal.kind).map String.toList = some literal.suffix := by
  cases literal <;> rfl

/-- A record spells the number of its literal and the suffix. -/
theorem spelling?_toJson (literal : Literal) : spelling? literal.toJson =
    some (literal.decimal.toChars ++ literal.suffix, literal.kind) := by
  obtain ⟨suffix, hsuffix, heq⟩ := Option.map_eq_some_iff.1 (suffixOf?_toJson literal)
  rw [spelling?, text?_kind, text?_value]
  simp [LiteralKind.ofName?_toString, hsuffix, heq, Decimal.toString]

/-! ## Integers -/

/-- A natural number keeps its value as a decimal. -/
theorem value_ofNat (n : Nat) : (Decimal.ofNat n).value = (n : Int) := by
  rw [Decimal.ofNat, Decimal.value_ofScaled, zpow_zero, mul_one]

/-- An integer has more zeros at its end than are printed if it is a multiple of ten millions. -/
theorem maxZeros_lt_iff (n : Nat) :
    Decimal.maxZeros < (Decimal.ofNat n).exponent ↔ n ≠ 0 ∧ 10 ^ 7 ∣ n := by
  have hnormal : (Decimal.ofNat n).Normal := Decimal.ofScaled_normal n 0
  by_cases hn : n = 0
  · subst hn
    have hzero : (Decimal.ofNat 0).exponent = 0 := rfl
    simp [hzero, Decimal.maxZeros]
  · have hle := hnormal.le_exponent_iff (value_ofNat n) (by exact_mod_cast hn) 7
    rw [and_iff_right hn]
    exact_mod_cast hle

/-- The number of an integer is printed in digits alone if there are few zeros at its end, and else
with an exponent. -/
theorem toChars_ofNat (n : Nat) :
    if (Decimal.ofNat n).exponent ≤ Decimal.maxZeros then
      (Decimal.ofNat n).toChars ≠ [] ∧ (∀ c ∈ (Decimal.ofNat n).toChars, c.isDigit) ∧
        Text.valueIn 10 (Decimal.ofNat n).toChars = n
    else 'e' ∈ (Decimal.ofNat n).toChars ∧
      ∀ c ∈ (Decimal.ofNat n).toChars, c.isDigit ∨ c = 'e' := by
  have hvalue := value_ofNat n
  have hnormal : (Decimal.ofNat n).Normal := Decimal.ofScaled_normal n 0
  have hwhole : 0 ≤ (Decimal.ofNat n).exponent := by
    simpa [Decimal.isIntegral] using hnormal.isIntegral_iff.2 ⟨n, hvalue⟩
  have hs : 0 ≤ (Decimal.ofNat n).mantissa := mantissa_nonneg (by rw [hvalue]; positivity)
  generalize Decimal.ofNat n = d at *
  obtain ⟨mantissa, exponent⟩ := d
  obtain ⟨m, rfl⟩ := Int.eq_ofNat_of_zero_le hs
  dsimp only at *
  have hdigits := isDigit_toDigits m
  have hmax : Decimal.maxZeros = 6 := rfl
  rcases toChars_cases m exponent with ⟨zeros, rfl, hle, hchars⟩ | ⟨places, rfl, hpos, -, -⟩ |
    ⟨hlt, hchars⟩
  · rw [if_pos hle, hchars]
    refine ⟨by simp [Nat.toDigits_ne_nil],
      List.forall_mem_append.2 ⟨hdigits, isDigit_zeros zeros⟩, ?_⟩
    rw [Text.valueIn_toDigits_append_zeros]
    rw [Decimal.value, zpow_natCast] at hvalue
    dsimp only at hvalue
    exact_mod_cast hvalue
  · omega
  · have hplaces : Decimal.maxPlaces = 30 := rfl
    have hsign : signOf exponent = [] := if_neg (by omega)
    rw [if_neg (by omega), hchars, hsign]
    refine ⟨by simp, fun c hc => ?_⟩
    rcases List.mem_append.1 hc with hc | hc
    · exact .inl (hdigits c hc)
    · rcases List.mem_cons.1 hc with rfl | hc
      · exact .inr rfl
      · exact .inl (isDigit_toDigits _ c hc)

/-- An exponent is not part of an integer. -/
theorem read_eq_notAnInteger {text : List Char} (he : 'e' ∈ text)
    (h : ∀ c ∈ text, c.isDigit ∨ c = 'e') :
    read text .integer = .error (.notAnInteger text) := by
  have hunmarked : ∀ c ∈ text, c ∉ marks := by
    intro c hc
    rcases h c hc with hdigit | rfl
    · exact unmarked_of_isDigitOrSeparator (isDigitOrSeparator_of_isDigit hdigit)
    · simp [marks]
  have hfractional : text.any isFractional = true := List.any_eq_true.2 ⟨'e', he, rfl⟩
  have hread : readInteger text = .error (.notAnInteger text) := by
    unfold readInteger
    rw [split_of_unmarked hunmarked]
    dsimp only
    rw [if_pos ⟨rfl, hfractional⟩]
    rfl
  cases text with
  | nil => cases he
  | cons c text =>
    unfold read
    rw [hread]
    rfl

/-! ## Records -/

section
variable {literal other : Literal} {text text' : List Char} {kind kind' : LiteralKind}

/-- The value of a record is read as a float. -/
theorem read_value (h : read text kind = .ok literal)
    (hrange : literal.decimal.exponent.natAbs ≤ maxExponent) :
    read literal.decimal.toChars .float = .ok (.float literal.decimal) := by
  obtain ⟨-, hnormal, hs⟩ := of_read h
  have hread : read (literal.decimal.toChars ++ []) .float = .ok (.float literal.decimal) :=
    @read_append (.float literal.decimal) _ nofun (numeral_toChars hnormal hs hrange)
  rwa [List.append_nil] at hread

/-- What a record spells is the literal, but for integers that are written with an exponent and
numbers whose exponent is beyond the range. -/
theorem read_spelling (h : read text kind = .ok literal) :
    read (literal.decimal.toChars ++ literal.suffix) kind =
      if kind = .integer then
        if literal.decimal.exponent ≤ Decimal.maxZeros then .ok literal
        else .error (.notAnInteger literal.decimal.toChars)
      else if literal.decimal.exponent.natAbs ≤ maxExponent then .ok literal
      else .error (beyondRange literal.decimal.exponent literal.decimal.toChars) := by
  obtain ⟨rfl, hnormal, hs⟩ := of_read h
  split
  · next hk =>
    cases literal with
    | float | imaginary | angle | duration => cases hk
    | integer n =>
      show read ((Decimal.ofNat n).toChars ++ []) .integer = _
      have hchars := toChars_ofNat n
      rw [List.append_nil, decimal]
      split at hchars
      · next hle =>
        obtain ⟨hne, hdigits, hvalue⟩ := hchars
        rw [if_pos hle, read_digits hne hdigits, hvalue]
      · next hlt =>
        rw [if_neg hlt]
        exact read_eq_notAnInteger hchars.1 hchars.2
  · next hk =>
    split
    · next hrange => exact read_append hk (numeral_toChars hnormal hs hrange)
    · next hrange => exact read_append_eq_error hk hs (Nat.not_le.1 hrange)

/-- Literals with the same record are the same, if their exponents may be written. -/
theorem eq_of_toJson (h : read text kind = .ok literal) (h' : read text' kind' = .ok other)
    (hrange : literal.decimal.exponent.natAbs ≤ maxExponent)
    (hrange' : other.decimal.exponent.natAbs ≤ maxExponent)
    (heq : literal.toJson = other.toJson) : literal = other := by
  have hspelling : some (literal.decimal.toChars ++ literal.suffix, literal.kind) =
      some (other.decimal.toChars ++ other.suffix, other.kind) := by
    rw [← spelling?_toJson, ← spelling?_toJson, heq]
  obtain ⟨htext, hk⟩ := Prod.mk.inj (Option.some.inj hspelling)
  have hfloat := read_value h hrange
  have hfloat' := read_value h' hrange'
  obtain ⟨rfl, hnormal, hs⟩ := of_read h
  obtain ⟨rfl, hnormal', hs'⟩ := of_read h'
  by_cases hinteger : literal.kind = .integer
  · cases literal with
    | float | imaginary | angle | duration => cases hinteger
    | integer n =>
      cases other with
      | float | imaginary | angle | duration => cases hk
      | integer n' =>
        have hchars : (Decimal.ofNat n).toChars = (Decimal.ofNat n').toChars := by
          simpa [decimal, suffix] using htext
        dsimp only [decimal] at hfloat hfloat'
        rw [hchars, hfloat'] at hfloat
        have hvalue := congrArg Decimal.value (Literal.float.inj (Except.ok.inj hfloat))
        rw [value_ofNat, value_ofNat] at hvalue
        congr 1
        exact_mod_cast hvalue.symm
  · have hread := read_append hinteger (numeral_toChars hnormal hs hrange)
    have hread' := read_append (hk ▸ hinteger) (numeral_toChars hnormal' hs' hrange')
    rw [htext, hk, hread'] at hread
    exact (Except.ok.inj hread).symm

/-- The record of a literal determines it. What it spells reads back as the literal, unless that is
an integer with seven zeros or more at its end, or its number has an exponent beyond the range: such
an integer is written with an exponent, and refused as an integer. Within the range the value that
is written reads back as a float for every kind, and no other literal has the same record. -/
theorem read_toJson (h : read text kind = .ok literal) :
    ∃ spelled, spelling? literal.toJson = some (spelled, kind) ∧
      (read spelled kind =
        if kind = .integer then
          if literal.decimal.exponent ≤ Decimal.maxZeros then .ok literal
          else .error (.notAnInteger literal.decimal.toChars)
        else if literal.decimal.exponent.natAbs ≤ maxExponent then .ok literal
        else .error (beyondRange literal.decimal.exponent literal.decimal.toChars)) ∧
      (∀ n, literal = .integer n →
        (Decimal.maxZeros < literal.decimal.exponent ↔ n ≠ 0 ∧ 10 ^ 7 ∣ n)) ∧
      (literal.decimal.exponent.natAbs ≤ maxExponent →
        read literal.decimal.toChars .float = .ok (.float literal.decimal) ∧
        ∀ text' kind' other, read text' kind' = .ok other →
          other.decimal.exponent.natAbs ≤ maxExponent → literal.toJson = other.toJson →
          literal = other) := by
  refine ⟨literal.decimal.toChars ++ literal.suffix, ?_, read_spelling h, ?_, fun hrange => ?_⟩
  · rw [spelling?_toJson, (of_read h).1]
  · rintro n rfl
    exact maxZeros_lt_iff n
  · exact ⟨read_value h hrange, fun _ _ _ h' hrange' => eq_of_toJson h h' hrange hrange'⟩

/-- A duration with separators and places behind the point. -/
theorem read_toJson_duration :
    read "1_250.0us".toList .duration = .ok (.duration ⟨125, 1⟩ .us) ∧
      read "1250us".toList .duration = .ok (.duration ⟨125, 1⟩ .us) ∧
      spelling? (duration ⟨125, 1⟩ .us).toJson = some ("1250us".toList, .duration) := by
  have h : read "1_250.0us".toList .duration = .ok (.duration ⟨125, 1⟩ .us) := by decide +kernel
  obtain ⟨spelled, hspelled, hread, -⟩ := read_toJson h
  have htext : spelling? (duration ⟨125, 1⟩ .us).toJson = some ("1250us".toList, .duration) := rfl
  cases hspelled.symm.trans htext
  exact ⟨h, hread.trans ((if_neg (by decide)).trans (if_pos (by decide))), htext⟩

/-- Ten millions are written with an exponent, which is not part of an integer. -/
theorem not_read_toJson_tenMillions :
    ¬∀ (text : List Char) (kind : LiteralKind) (literal : Literal), read text kind = .ok literal →
      literal.decimal.exponent.natAbs ≤ maxExponent →
      ∃ spelled, spelling? literal.toJson = some (spelled, kind) ∧
        read spelled kind = .ok literal := by
  intro h
  have hread : read "10000000".toList .integer = .ok (.integer 10000000) := by decide +kernel
  have hspelling : spelling? (integer 10000000).toJson = some ("1e7".toList, .integer) := by
    decide +kernel
  have hrefused : read "1e7".toList .integer = .error (.notAnInteger "1e7".toList) := by
    decide +kernel
  obtain ⟨spelled, hspelled, hback⟩ := h _ _ _ hread (by decide +kernel)
  cases hspelling.symm.trans hspelled
  cases hrefused.symm.trans hback

end

end Literal

end OpenQasm
