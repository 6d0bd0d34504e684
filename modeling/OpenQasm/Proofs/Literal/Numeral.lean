import OpenQasm.Proofs.Literal.Decimal
import OpenQasm.Proofs.Literal.Separators

/-!
# Numerals

The grammar of decimal numbers and what they stand for. A literal with a decimal value is read if
and only if it is a numeral, then blanks, then what its kind asks for; and its value is the one
decimal in normal form that the numeral stands for. One exponent is neither read nor refused: the
least machine number, whose size overflows.
-/

namespace OpenQasm.Literal

/-! ## Grammar -/

/-- Texts of digits in which separators stand singly between two digits, with the digits. -/
inductive Grouped : List Char → List Char → Prop
  | digit {c : Char} : c.isDigit → Grouped [c] [c]
  | next {c : Char} {text digits : List Char} :
      c.isDigit → Grouped text digits → Grouped (c :: text) (c :: digits)
  | separated {c : Char} {text digits : List Char} :
      c.isDigit → Grouped text digits → Grouped (c :: '_' :: text) (c :: digits)

/-- The same, or nothing. -/
def DigitString (text digits : List Char) : Prop := text = [] ∧ digits = [] ∨ Grouped text digits

/-- Digits, perhaps with a point among them, with the digits before the point and behind it. -/
inductive Significand : List Char → List Char → List Char → Prop
  | whole {text digits : List Char} : DigitString text digits → Significand text digits []
  | point {text more digits places : List Char} : DigitString text digits →
      DigitString more places → Significand (text ++ '.' :: more) digits places

/-- The sign of an exponent: none, or a character that tells whether the exponent is negative. -/
inductive Sign : List Char → Bool → Prop
  | none : Sign [] false
  | plus : Sign ['+'] false
  | minus : Sign ['-'] true

/-- Exponents up to the greatest one, with their values. No exponent stands for zero. -/
inductive Exponent : List Char → Int → Prop
  | none : Exponent [] 0
  | written {mark : Char} {sign digits : List Char} {negative : Bool} :
      mark = 'e' ∨ mark = 'E' → Sign sign negative → digits ≠ [] → (∀ c ∈ digits, c.isDigit) →
      Text.valueIn 10 digits ≤ maxExponent →
      Exponent (mark :: sign ++ digits)
        (if negative then -(Text.valueIn 10 digits : Int) else Text.valueIn 10 digits)

/-- The exponent that is the least machine number. -/
inductive LeastExponent : List Char → Prop
  | written {mark : Char} {digits : List Char} :
      mark = 'e' ∨ mark = 'E' → (∀ c ∈ digits, c.isDigit) →
      Text.valueIn 10 digits = machineBound → LeastExponent (mark :: '-' :: digits)

/-- A number in decimal digits with that exponent. -/
inductive LeastScaled : List Char → Prop
  | mk {significand digits places exponent : List Char} :
      Significand significand digits places → digits ++ places ≠ [] → LeastExponent exponent →
      LeastScaled (significand ++ exponent)

/-- A number in decimal digits and the decimal that it stands for: the digits before and behind the
point as one number, scaled by the exponent less the number of digits behind the point. -/
inductive Numeral : List Char → Decimal → Prop
  | mk {significand digits places exponent : List Char} {shift : Int} {value : Decimal} :
      Significand significand digits places → digits ++ places ≠ [] → Exponent exponent shift →
      value.Normal →
      value.value = Text.valueIn 10 (digits ++ places) * 10 ^ (shift - places.length) →
      Numeral (significand ++ exponent) value

/-! ## Digits and separators -/

section
variable {text digits whole : List Char} {c : Char}

/-- A digit may stand among digits and separators. -/
theorem isDigitOrSeparator_of_isDigit (h : c.isDigit) : isDigitOrSeparator c := by
  rw [isDigitOrSeparator, h, Bool.true_or]

/-- Groups of digits consist of digits and separators. -/
theorem Grouped.characters (h : Grouped text digits) : ∀ c ∈ text, isDigitOrSeparator c := by
  induction h with
  | digit hc =>
    exact List.forall_mem_singleton.2 (isDigitOrSeparator_of_isDigit hc)
  | next hc _ ih => exact List.forall_mem_cons.2 ⟨isDigitOrSeparator_of_isDigit hc, ih⟩
  | separated hc _ ih =>
    exact List.forall_mem_cons.2
      ⟨isDigitOrSeparator_of_isDigit hc, List.forall_mem_cons.2 ⟨rfl, ih⟩⟩

/-- So does a string of digits, empty or not. -/
theorem DigitString.characters (h : DigitString text digits) :
    ∀ c ∈ text, isDigitOrSeparator c := by
  rcases h with ⟨rfl, -⟩ | h
  · exact fun _ hc => nomatch hc
  · exact h.characters

/-- A digit is no separator. -/
theorem ne_separator_of_isDigit (h : c.isDigit) : c ≠ '_' := by
  rintro rfl
  cases h

/-- Grouped texts are the spaced ones whose characters are digits. -/
theorem grouped_iff : Grouped text digits ↔ Spaced text digits ∧ ∀ c ∈ digits, c.isDigit := by
  constructor
  · intro h
    induction h with
    | digit hc => exact ⟨.single (ne_separator_of_isDigit hc), by simpa using hc⟩
    | next hc _ ih =>
      exact ⟨.next (ne_separator_of_isDigit hc) ih.1, List.forall_mem_cons.2 ⟨hc, ih.2⟩⟩
    | separated hc _ ih =>
      exact ⟨.separated (ne_separator_of_isDigit hc) ih.1, List.forall_mem_cons.2 ⟨hc, ih.2⟩⟩
  · rintro ⟨h, hdigits⟩
    induction h with
    | single => exact .digit (hdigits _ List.mem_cons_self)
    | next _ _ ih =>
      obtain ⟨hc, hrest⟩ := List.forall_mem_cons.1 hdigits
      exact .next hc (ih hrest)
    | separated _ _ ih =>
      obtain ⟨hc, hrest⟩ := List.forall_mem_cons.1 hdigits
      exact .separated hc (ih hrest)

/-- The separators of a text of digits and separators are stripped off if they stand singly between
two digits, and only then. -/
theorem stripSeparators_ok_iff (whole : List Char) (hc : ∀ c ∈ text, isDigitOrSeparator c) :
    stripSeparators text whole = .ok digits ↔ DigitString text digits := by
  have hdigits : Spaced text digits → ∀ c ∈ digits, c.isDigit := by
    intro h c hm
    rw [h.digits_eq, List.mem_filter] at hm
    have hplain : c ≠ '_' := by simpa using hm.2
    simpa [isDigitOrSeparator, hplain] using hc c hm.1
  rw [stripSeparators_eq_ok_iff, DigitString, grouped_iff]
  exact or_congr_right ⟨fun h => ⟨h, hdigits h⟩, And.left⟩

end

/-! ## What is cut off as a number -/

section
variable {α : Type} {p : α → Bool} {list rest : List α}

/-- A run is taken up to the first character that ends it. -/
theorem takeWhile_append_eq (h : ∀ c ∈ list, p c) (hr : ∀ c ∈ rest.head?, p c = false) :
    (list ++ rest).takeWhile p = list := by
  rw [List.takeWhile_append_of_pos h]
  cases rest with
  | nil => rw [List.takeWhile_nil, List.append_nil]
  | cons c rest => rw [List.takeWhile_cons_of_neg (by simp [hr c rfl]), List.append_nil]

/-- A list is what a test takes off it, and the rest, which begins with something else. -/
theorem exists_takeWhile (p : α → Bool) (list : List α) : ∃ rest,
    list = list.takeWhile p ++ rest ∧ (∀ c ∈ list.takeWhile p, p c) ∧
      ∀ c ∈ rest.head?, p c = false := by
  refine ⟨list.dropWhile p, List.takeWhile_append_dropWhile.symm,
    List.all_eq_true.1 List.all_takeWhile, fun c hc => ?_⟩
  have hhead := List.head?_dropWhile_not p list
  rw [Option.mem_def.1 hc] at hhead
  exact hhead

end

/-- The text of an exponent, however great it is. -/
def Marked (text : List Char) : Prop :=
  ∃ mark sign negative digits, text = mark :: sign ++ digits ∧ (mark = 'e' ∨ mark = 'E') ∧
    Sign sign negative ∧ digits ≠ [] ∧ ∀ c ∈ digits, c.isDigit

/-- The parts of what is cut off as a number, whether or not it is one: characters before a point,
the point and those behind it, and an exponent. -/
structure Parts (whole point exponent : List Char) : Prop where
  whole : ∀ c ∈ whole, isDigitOrSeparator c
  point : point = [] ∨ ∃ more, point = '.' :: more ∧ ∀ c ∈ more, isDigitOrSeparator c
  exponent : exponent = [] ∨ Marked exponent

/-- A character that a number may go on with. -/
def extendsNumber (c : Char) : Bool := isDigitOrSeparator c || isFractional c

/-- There is no exponent where its letter is not ahead. -/
theorem exponentLength_of_head {text : List Char} (h : ∀ c ∈ text.head?, isFractional c = false) :
    exponentLength text = 0 := by
  cases text with
  | nil => rfl
  | cons c text =>
    have hc := h c rfl
    rw [isFractional, Bool.or_eq_false_iff, Bool.or_eq_false_iff] at hc
    unfold exponentLength
    dsimp only
    rw [hc.1.2, hc.2]
    rfl

/-- Behind a mark and a sign, the exponent takes all digits that there are, and there must be
some. -/
theorem exponentLength_marked {mark : Char} {sign text : List Char} {negative : Bool}
    (hmark : mark = 'e' ∨ mark = 'E') (hsign : Sign sign negative)
    (h : sign = [] → ∀ c ∈ text.head?, c ≠ '+' ∧ c ≠ '-') :
    exponentLength (mark :: sign ++ text) =
      if 0 < (text.takeWhile Char.isDigit).length then
        (mark :: sign ++ text.takeWhile Char.isDigit).length
      else 0 := by
  have hmark' : (mark == 'e' || mark == 'E') = true := by simpa using hmark
  unfold exponentLength
  cases hsign with
  | none =>
    dsimp only [List.cons_append, List.nil_append]
    rw [if_pos hmark']
    cases text with
    | nil => rfl
    | cons c text =>
      have hc := h rfl c rfl
      have hsign : (c == '+' || c == '-') = false := by simp [hc]
      dsimp only
      rw [if_neg (Bool.eq_false_iff.1 hsign)]
      rfl
  | plus | minus =>
    dsimp only [List.cons_append, List.nil_append]
    rw [if_pos hmark']
    rfl

/-- Every text starts with a sign, which may be empty. -/
theorem exists_sign (text : List Char) : ∃ sign negative rest, text = sign ++ rest ∧
    Sign sign negative ∧ (sign = [] → ∀ c ∈ rest.head?, c ≠ '+' ∧ c ≠ '-') := by
  match text with
  | [] => exact ⟨[], false, [], rfl, .none, fun _ _ hc => nomatch hc⟩
  | c :: text =>
    by_cases hplus : c = '+'
    · exact ⟨['+'], false, text, by rw [hplus]; rfl, .plus, nofun⟩
    by_cases hminus : c = '-'
    · exact ⟨['-'], true, text, by rw [hminus]; rfl, .minus, nofun⟩
    refine ⟨[], false, c :: text, rfl, .none, fun _ d hd => ?_⟩
    rw [← Option.some.inj hd]
    exact ⟨hplus, hminus⟩

/-- An exponent is as long as its digits go on. -/
theorem Marked.exponentLength {exponent rest : List Char} (h : Marked exponent)
    (hr : ∀ c ∈ rest.head?, c.isDigit = false) :
    exponentLength (exponent ++ rest) = exponent.length := by
  obtain ⟨mark, sign, negative, digits, rfl, hmark, hsign, hne, hdigits⟩ := h
  have htake := takeWhile_append_eq hdigits hr
  have hhead : ∀ c ∈ (digits ++ rest).head?, c ≠ '+' ∧ c ≠ '-' := fun c hc => by
    obtain ⟨d, digits, rfl⟩ := List.exists_cons_of_ne_nil hne
    have hd := hdigits d List.mem_cons_self
    obtain rfl : d = c := Option.some.inj hc
    constructor <;> (rintro rfl; cases hd)
  rw [List.append_assoc, exponentLength_marked hmark hsign fun _ => hhead, htake,
    if_pos (List.length_pos_iff.2 hne)]

/-- What is taken as an exponent is the text of one, up to its last digit. -/
theorem exponentLength_cases (text : List Char) : exponentLength text = 0 ∨
    ∃ exponent rest, text = exponent ++ rest ∧ Marked exponent ∧
      exponentLength text = exponent.length ∧ ∀ c ∈ rest.head?, c.isDigit = false := by
  cases text with
  | nil => exact .inl rfl
  | cons mark text =>
    by_cases hmark : mark = 'e' ∨ mark = 'E'
    · obtain ⟨sign, negative, digits, rfl, hsign, hhead⟩ := exists_sign text
      obtain ⟨rest, hdigits, hall, hend⟩ := exists_takeWhile Char.isDigit digits
      have hlength := exponentLength_marked hmark hsign hhead
      rw [List.cons_append] at hlength
      by_cases hpos : 0 < (digits.takeWhile Char.isDigit).length
      · rw [if_pos hpos] at hlength
        refine .inr ⟨mark :: sign ++ digits.takeWhile Char.isDigit, rest, ?_,
          ⟨mark, sign, negative, _, rfl, hmark, hsign, List.length_pos_iff.1 hpos, hall⟩, hlength,
          hend⟩
        rw [List.append_assoc, ← hdigits]
        rfl
      · rw [if_neg hpos] at hlength
        exact .inl hlength
    · have hnot : (mark == 'e' || mark == 'E') = false := by simpa using hmark
      unfold exponentLength
      dsimp only
      exact .inl (if_neg (Bool.eq_false_iff.1 hnot))

section
variable {whole point exponent rest text : List Char}

/-- The characters before a point, the point and those behind it are counted as far as they go. -/
theorem numberLength_eq (hw : ∀ c ∈ whole, isDigitOrSeparator c)
    (hp : point = [] ∨ ∃ more, point = '.' :: more ∧ ∀ c ∈ more, isDigitOrSeparator c)
    (hr : ∀ c ∈ rest.head?, isDigitOrSeparator c = false ∧ (point = [] → c ≠ '.')) :
    numberLength (whole ++ point ++ rest) =
      whole.length + point.length + exponentLength rest := by
  have hhead : ∀ c ∈ (point ++ rest).head?, isDigitOrSeparator c = false := by
    rcases hp with rfl | ⟨more, rfl, -⟩
    · exact fun c hc => (hr c hc).1
    · rintro c hc
      cases Option.some.inj hc
      rfl
  have htake := takeWhile_append_eq hw hhead
  unfold numberLength
  rw [List.append_assoc, htake]
  dsimp only
  rw [List.drop_left]
  rcases hp with rfl | ⟨more, rfl, hmore⟩
  · rw [List.nil_append]
    cases rest with
    | nil => rfl
    | cons c rest =>
      have hc := (hr c rfl).2 rfl
      split
      · next heq => exact absurd (List.cons.inj heq).1 hc
      · rfl
  · have hbehind := takeWhile_append_eq hmore fun c hc => (hr c hc).1
    show whole.length + (((more ++ rest).takeWhile isDigitOrSeparator).length + 1) +
      exponentLength (('.' :: (more ++ rest)).drop
        (((more ++ rest).takeWhile isDigitOrSeparator).length + 1)) = _
    rw [hbehind, List.drop_succ_cons, List.drop_left]
    rfl

/-- Every text is cut into parts of a number and the rest, which does not go on with an exponent. -/
theorem exists_parts (text : List Char) : ∃ whole point exponent rest,
    text = whole ++ point ++ exponent ++ rest ∧ Parts whole point exponent ∧
      splitNumber text = (whole ++ point ++ exponent, rest) ∧
      (exponent ≠ [] → ∀ c ∈ rest.head?, c.isDigit = false) := by
  obtain ⟨behind, hwhole, hw, hbehind⟩ := exists_takeWhile isDigitOrSeparator text
  obtain ⟨point, rest, hpoint, hp, hrest⟩ : ∃ point rest, behind = point ++ rest ∧
      (point = [] ∨ ∃ more, point = '.' :: more ∧ ∀ c ∈ more, isDigitOrSeparator c) ∧
      ∀ c ∈ rest.head?, isDigitOrSeparator c = false ∧ (point = [] → c ≠ '.') := by
    by_cases hdot : behind.head? = some '.'
    · obtain ⟨more, rfl⟩ := List.head?_eq_some_iff.1 hdot
      obtain ⟨rest, hmore, hall, hrest⟩ := exists_takeWhile isDigitOrSeparator more
      exact ⟨'.' :: more.takeWhile isDigitOrSeparator, rest, congrArg ('.' :: ·) hmore,
        .inr ⟨_, rfl, hall⟩, fun c hc => ⟨hrest c hc, nofun⟩⟩
    · refine ⟨[], behind, rfl, .inl rfl, fun c hc => ⟨hbehind c hc, fun _ heq => hdot ?_⟩⟩
      rw [← heq]
      exact hc
  obtain ⟨exponent, last, hexponent, he, hlength, hend⟩ : ∃ exponent last,
      rest = exponent ++ last ∧ (exponent = [] ∨ Marked exponent) ∧
      exponentLength rest = exponent.length ∧
      (exponent ≠ [] → ∀ c ∈ last.head?, c.isDigit = false) := by
    rcases exponentLength_cases rest with hzero | ⟨exponent, last, heq, hmarked, hlength, hend⟩
    · exact ⟨[], rest, rfl, .inl rfl, hzero, fun hne => absurd rfl hne⟩
    · exact ⟨exponent, last, heq, .inr hmarked, hlength, fun _ => hend⟩
  generalize text.takeWhile isDigitOrSeparator = whole at hwhole hw
  have htext : text = whole ++ point ++ exponent ++ last := by
    rw [hwhole, hpoint, hexponent, List.append_assoc, List.append_assoc]
  have hnumber : numberLength text = (whole ++ point ++ exponent).length := by
    rw [htext, List.append_assoc, ← hexponent, numberLength_eq hw hp hrest, hlength]
    simp only [List.length_append]
  refine ⟨whole, point, exponent, last, htext, ⟨hw, hp, he⟩, ?_, hend⟩
  rw [splitNumber, hnumber, htext, List.take_left, List.drop_left]

/-- A number with an exponent ends with the digits of the exponent, and any other one with what
cannot be part of a number. -/
theorem Parts.splitNumber_eq (h : Parts whole point exponent)
    (hr : ∀ c ∈ rest.head?, c.isDigit = false)
    (he : exponent = [] → ∀ c ∈ rest.head?, extendsNumber c = false) :
    splitNumber (whole ++ point ++ exponent ++ rest) = (whole ++ point ++ exponent, rest) := by
  have hends (hnil : exponent = []) : ∀ c ∈ rest.head?, isDigitOrSeparator c = false ∧
      isFractional c = false := fun c hc => Bool.or_eq_false_iff.1 (he hnil c hc)
  have hhead : ∀ c ∈ (exponent ++ rest).head?, isDigitOrSeparator c = false ∧
      (point = [] → c ≠ '.') := by
    rcases h.exponent with rfl | ⟨mark, sign, negative, digits, rfl, hmark, -⟩
    · intro c hc
      refine ⟨(hends rfl c hc).1, fun _ heq => ?_⟩
      have hnot := (hends rfl c hc).2
      rw [heq] at hnot
      cases hnot
    · intro c hc
      obtain rfl : mark = c := Option.some.inj hc
      rcases hmark with rfl | rfl <;> exact ⟨rfl, fun _ => by decide⟩
  have hexponent : exponentLength (exponent ++ rest) = exponent.length := by
    rcases h.exponent with rfl | hmarked
    · exact exponentLength_of_head fun c hc => (hends rfl c hc).2
    · exact hmarked.exponentLength hr
  have hnumber : numberLength (whole ++ point ++ exponent ++ rest) =
      (whole ++ point ++ exponent).length := by
    rw [List.append_assoc, numberLength_eq h.whole h.point hhead, hexponent]
    simp only [List.length_append]
  rw [splitNumber, hnumber, List.take_left, List.drop_left]

/-- What cannot be part of a number ends it. -/
theorem Parts.splitNumber_append (h : Parts whole point exponent)
    (hr : ∀ c ∈ rest.head?, extendsNumber c = false) :
    splitNumber (whole ++ point ++ exponent ++ rest) = (whole ++ point ++ exponent, rest) := by
  refine h.splitNumber_eq (fun c hc => Bool.eq_false_iff.2 fun hd => ?_) fun _ => hr
  have hnot := (Bool.or_eq_false_iff.1 (hr c hc)).1
  rw [isDigitOrSeparator_of_isDigit hd] at hnot
  cases hnot

/-! ## Values -/

/-- What is written in the place of the exponent of `number`, and what it amounts to. -/
def exponentOf (exponent number : List Char) : Except LiteralError Int :=
  if exponent = [] then .ok 0 else readExponent (exponent.drop 1) number

/-- What becomes of an exponent beyond the range. -/
def beyondRange (exponent : Int) (number : List Char) : LiteralError :=
  if exponent = -machineBound then .overflow else .exponentOutOfRange number

/-- The value of digits with a sign. -/
def signed (negative : Bool) (digits : List Char) : Int :=
  if negative then -(Text.valueIn 10 digits : Int) else Text.valueIn 10 digits

/-- A sign and digits spell a machine number if their value is one. -/
theorem machineNumber?_eq {sign digits : List Char} {negative : Bool} (hsign : Sign sign negative)
    (hne : digits ≠ []) (hdigits : ∀ c ∈ digits, c.isDigit) :
    machineNumber? (sign ++ digits) =
      if -machineBound ≤ signed negative digits ∧ signed negative digits < machineBound then
        some (signed negative digits)
      else none := by
  have hread : ¬(digits.isEmpty ∨ (!digits.all Char.isDigit) = true) := by
    simpa [hne] using hdigits
  have hplain : (-machineBound ≤ signed false digits ∧ signed false digits < machineBound) ↔
      Text.valueIn 10 digits < machineBound := by
    have hsigned : signed false digits = Text.valueIn 10 digits := rfl
    omega
  have hminus : (-machineBound ≤ signed true digits ∧ signed true digits < machineBound) ↔
      Text.valueIn 10 digits ≤ machineBound := by
    have hsigned : signed true digits = -Text.valueIn 10 digits := rfl
    have hpos : 0 < machineBound := by decide
    omega
  unfold machineNumber?
  cases hsign with
  | none =>
    obtain ⟨c, digits, rfl⟩ := List.exists_cons_of_ne_nil hne
    have hc := hdigits c List.mem_cons_self
    simp only [hplain, List.nil_append]
    split
    · next heq =>
      obtain rfl := (List.cons.inj heq).1
      cases hc
    · next heq =>
      obtain rfl := (List.cons.inj heq).1
      cases hc
    · exact if_neg hread
  | plus =>
    simp only [hplain]
    exact if_neg hread
  | minus =>
    simp only [hminus]
    exact if_neg hread

/-- A sign and digits are read as an exponent if it is in the range. -/
theorem readExponent_eq {sign digits : List Char} {negative : Bool} (number : List Char)
    (hsign : Sign sign negative) (hne : digits ≠ []) (hdigits : ∀ c ∈ digits, c.isDigit) :
    readExponent (sign ++ digits) number =
      if (signed negative digits).natAbs ≤ maxExponent then .ok (signed negative digits)
      else .error (beyondRange (signed negative digits) number) := by
  have hbounds : maxExponent < machineBound := by decide
  unfold readExponent
  rw [machineNumber?_eq hsign hne hdigits]
  generalize signed negative digits = exponent
  by_cases hmachine : -machineBound ≤ exponent ∧ exponent < machineBound
  · rw [if_pos hmachine]
    dsimp only
    unfold machineSize? beyondRange
    by_cases hleast : exponent = -machineBound
    · rw [if_pos hleast, if_pos hleast, if_neg (by omega)]
    · rw [if_neg hleast, if_neg hleast]
  · rw [if_neg hmachine, if_neg (by omega), beyondRange, if_neg (by omega)]

/-- The sign does not change the size of a number. -/
theorem natAbs_signed (negative : Bool) (digits : List Char) :
    (signed negative digits).natAbs = Text.valueIn 10 digits := by
  cases negative
  · exact Int.natAbs_natCast _
  · exact (Int.natAbs_neg _).trans (Int.natAbs_natCast _)

/-- An exponent is read if it is no greater than the greatest one. -/
theorem exponentOf_eq_ok_iff {number : List Char} {shift : Int}
    (h : exponent = [] ∨ Marked exponent) :
    exponentOf exponent number = .ok shift ↔ Exponent exponent shift := by
  constructor
  · intro hok
    rcases h with rfl | ⟨mark, sign, negative, digits, rfl, hmark, hsign, hne, hdigits⟩
    · obtain rfl := Except.ok.inj hok
      exact .none
    · have hread : readExponent (sign ++ digits) number = .ok shift := hok
      rw [readExponent_eq number hsign hne hdigits, natAbs_signed] at hread
      split at hread
      · next hle => exact Except.ok.inj hread ▸ .written hmark hsign hne hdigits hle
      · cases hread
  · intro hexponent
    cases hexponent with
    | none => rfl
    | @written mark sign digits negative hmark hsign hne hdigits hle =>
      show readExponent (sign ++ digits) number = _
      rw [readExponent_eq number hsign hne hdigits, natAbs_signed, if_pos hle, signed]

/-- The size of an exponent overflows if it is the least machine number. -/
theorem exponentOf_eq_overflow_iff {number : List Char} (h : exponent = [] ∨ Marked exponent) :
    exponentOf exponent number = .error .overflow ↔ LeastExponent exponent := by
  have hpos : 0 < machineBound := by decide
  constructor
  · intro herror
    rcases h with rfl | ⟨mark, sign, negative, digits, rfl, hmark, hsign, hne, hdigits⟩
    · cases herror
    · have hread : readExponent (sign ++ digits) number = .error .overflow := herror
      rw [readExponent_eq number hsign hne hdigits] at hread
      split at hread
      · cases hread
      · unfold beyondRange at hread
        split at hread
        · next hleast =>
          cases hsign with
          | none | plus =>
            have hsigned : signed false digits = Text.valueIn 10 digits := rfl
            omega
          | minus =>
            have hsigned : signed true digits = -Text.valueIn 10 digits := rfl
            have hvalue : Text.valueIn 10 digits = machineBound := by omega
            exact .written hmark hdigits hvalue
        · cases hread
  · rintro ⟨hmark, hdigits, hvalue⟩
    have hne : ∀ digits, Text.valueIn 10 digits = machineBound → digits ≠ [] := by
      rintro digits hvalue rfl
      cases hvalue
    show readExponent (['-'] ++ _) number = _
    rw [readExponent_eq number .minus (hne _ hvalue) hdigits, natAbs_signed, hvalue,
      if_neg (by decide), beyondRange, signed, hvalue]
    exact congrArg Except.error (if_pos rfl)

/-- What stands before the exponent is taken up to its letter. -/
theorem Parts.takeWhile_number (h : Parts whole point exponent) :
    (whole ++ point ++ exponent).takeWhile (fun c => !(c == 'e' || c == 'E')) = whole ++ point := by
  have hplain : ∀ c, isDigitOrSeparator c → (!(c == 'e' || c == 'E')) = true := fun c hc => by
    have hmark : c ≠ 'e' ∧ c ≠ 'E' := by constructor <;> (rintro rfl; cases hc)
    simp [hmark]
  refine takeWhile_append_eq (fun c hc => ?_) fun c hc => ?_
  · rcases List.mem_append.1 hc with hc | hc
    · exact hplain c (h.whole c hc)
    · rcases h.point with rfl | ⟨more, rfl, hmore⟩
      · cases hc
      · rcases List.mem_cons.1 hc with rfl | hc
        · rfl
        · exact hplain c (hmore c hc)
  · rcases h.exponent with rfl | ⟨mark, sign, negative, digits, rfl, hmark, -⟩
    · cases hc
    · obtain rfl : mark = c := Option.some.inj hc
      rcases hmark with rfl | rfl <;> rfl

/-- A number is cut at its point. -/
theorem Parts.cutAt?_point (h : Parts whole point exponent) :
    (Text.cutAt? '.' (whole ++ point)).getD (whole ++ point, []) = (whole, point.drop 1) := by
  have hnot : '.' ∉ whole := fun hm => nomatch h.whole _ hm
  rcases h.point with rfl | ⟨more, rfl, -⟩
  · rw [List.append_nil, Text.cutAt?_of_not_mem hnot]
    rfl
  · rw [Text.cutAt?_append hnot]
    rfl

/-- A sequence gives a result if both of its steps do. -/
theorem bind_eq_ok_iff {ε α β : Type} {first : Except ε α} {next : α → Except ε β} {result : β} :
    (first >>= next) = .ok result ↔ ∃ value, first = .ok value ∧ next value = .ok result := by
  cases first with
  | error problem => exact ⟨nofun, fun ⟨_, h, _⟩ => nomatch h⟩
  | ok value => exact ⟨fun h => ⟨value, rfl, h⟩, fun ⟨_, h, hn⟩ => Except.ok.inj h ▸ hn⟩

/-- It gives the problem of the first step that has one. -/
theorem bind_eq_error_iff {ε α β : Type} {first : Except ε α} {next : α → Except ε β}
    {problem : ε} :
    (first >>= next) = .error problem ↔
      first = .error problem ∨ ∃ value, first = .ok value ∧ next value = .error problem := by
  cases first with
  | error other =>
    constructor
    · exact fun h => .inl (Except.error.inj h ▸ rfl)
    · rintro (h | ⟨_, hok, -⟩)
      · exact Except.error.inj h ▸ rfl
      · cases hok
  | ok value =>
    constructor
    · exact fun h => .inr ⟨value, rfl, h⟩
    · rintro (h | ⟨_, hok, hnext⟩)
      · cases h
      · cases hok
        exact hnext

/-- A number is read part by part: the separators of both groups of digits, then the exponent. -/
theorem Parts.readDecimal_eq (h : Parts whole point exponent) :
    readDecimal (whole ++ point ++ exponent) =
      stripSeparators whole (whole ++ point ++ exponent) >>= fun digits =>
        stripSeparators (point.drop 1) (whole ++ point ++ exponent) >>= fun places =>
          if digits ++ places = [] then .error .empty
          else exponentOf exponent (whole ++ point ++ exponent) >>= fun shift =>
            .ok (.ofScaled (Text.valueIn 10 (digits ++ places)) (shift - places.length)) := by
  have hlength : ((whole ++ point).length < (whole ++ point ++ exponent).length) ↔
      exponent ≠ [] := by
    have hsum : (whole ++ point ++ exponent).length = (whole ++ point).length + exponent.length :=
      List.length_append
    rw [hsum, Nat.lt_add_right_iff_pos, List.length_pos_iff]
  unfold readDecimal
  simp only [h.takeWhile_number, h.cutAt?_point, List.drop_left, hlength]
  refine bind_congr fun digits => bind_congr fun places => ?_
  have hempty : (digits.isEmpty = true ∧ places.isEmpty = true) ↔ digits ++ places = [] := by
    simp
  by_cases hnone : digits ++ places = []
  · rw [if_pos (hempty.2 hnone), if_pos hnone]
    rfl
  · rw [if_neg (mt hempty.1 hnone), if_neg hnone]
    by_cases hx : exponent = []
    · rw [if_neg (not_not_intro hx), exponentOf, if_pos hx]
      rfl
    · rw [if_pos hx, exponentOf, if_neg hx]
      rfl

/-- Behind the point stand digits and separators. -/
theorem Parts.fraction (h : Parts whole point exponent) :
    ∀ c ∈ point.drop 1, isDigitOrSeparator c := by
  rcases h.point with rfl | ⟨more, rfl, hmore⟩
  · exact fun _ hc => nomatch hc
  · exact hmore

/-- A number is read if its digits are separated well and its exponent is in the range. -/
theorem Parts.readDecimal_ok_iff (h : Parts whole point exponent) {value : Decimal} :
    readDecimal (whole ++ point ++ exponent) = .ok value ↔
      ∃ digits places shift, DigitString whole digits ∧ DigitString (point.drop 1) places ∧
        digits ++ places ≠ [] ∧ Exponent exponent shift ∧
        value = .ofScaled (Text.valueIn 10 (digits ++ places)) (shift - places.length) := by
  simp only [h.readDecimal_eq, bind_eq_ok_iff, stripSeparators_ok_iff _ h.whole,
    stripSeparators_ok_iff _ h.fraction]
  constructor
  · rintro ⟨digits, hdigits, places, hplaces, hvalue⟩
    split at hvalue
    · cases hvalue
    · next hne =>
      obtain ⟨shift, hshift, hvalue⟩ := bind_eq_ok_iff.1 hvalue
      exact ⟨digits, places, shift, hdigits, hplaces, hne,
        (exponentOf_eq_ok_iff h.exponent).1 hshift, (Except.ok.inj hvalue).symm⟩
  · rintro ⟨digits, places, shift, hdigits, hplaces, hne, hshift, rfl⟩
    refine ⟨digits, hdigits, places, hplaces, ?_⟩
    rw [if_neg hne, (exponentOf_eq_ok_iff h.exponent).2 hshift]
    rfl

/-- A number whose digits are separated well is refused for its exponent. -/
theorem Parts.readDecimal_eq_error (h : Parts whole point exponent) {digits places : List Char}
    {problem : LiteralError} (hdigits : DigitString whole digits)
    (hplaces : DigitString (point.drop 1) places) (hne : digits ++ places ≠ [])
    (hexponent : exponentOf exponent (whole ++ point ++ exponent) = .error problem) :
    readDecimal (whole ++ point ++ exponent) = .error problem := by
  rw [h.readDecimal_eq, (stripSeparators_ok_iff _ h.whole).2 hdigits,
    (stripSeparators_ok_iff _ h.fraction).2 hplaces]
  show (if digits ++ places = [] then _ else _) = _
  rw [if_neg hne, hexponent]
  rfl

/-- Digits are read without an overflow, however many they are. -/
theorem stripSeparators_ne_overflow : stripSeparators text whole ≠ .error .overflow := by
  unfold stripSeparators
  split <;> exact nofun

/-- A number overflows if its digits are separated well and its exponent overflows. -/
theorem Parts.readDecimal_overflow_iff (h : Parts whole point exponent) :
    readDecimal (whole ++ point ++ exponent) = .error .overflow ↔
      ∃ digits places, DigitString whole digits ∧ DigitString (point.drop 1) places ∧
        digits ++ places ≠ [] ∧ LeastExponent exponent := by
  constructor
  · intro hread
    rw [h.readDecimal_eq] at hread
    obtain ⟨digits, hdigits, hread⟩ :=
      (bind_eq_error_iff.1 hread).resolve_left stripSeparators_ne_overflow
    obtain ⟨places, hplaces, hread⟩ :=
      (bind_eq_error_iff.1 hread).resolve_left stripSeparators_ne_overflow
    refine ⟨digits, places, (stripSeparators_ok_iff _ h.whole).1 hdigits,
      (stripSeparators_ok_iff _ h.fraction).1 hplaces, ?_⟩
    split at hread
    · cases hread
    · next hne =>
      rcases bind_eq_error_iff.1 hread with hexponent | ⟨_, _, hok⟩
      · exact ⟨hne, (exponentOf_eq_overflow_iff h.exponent).1 hexponent⟩
      · cases hok
  · rintro ⟨digits, places, hdigits, hplaces, hne, hleast⟩
    exact h.readDecimal_eq_error hdigits hplaces hne
      ((exponentOf_eq_overflow_iff h.exponent).2 hleast)

/-! ## Numerals -/

/-- An empty text has no digits. -/
theorem DigitString.eq_nil {digits : List Char} (h : DigitString [] digits) : digits = [] := by
  rcases h with ⟨-, h⟩ | h
  · exact h
  · cases h

/-- The digits before and behind the point make a significand. -/
theorem Parts.significand (h : Parts whole point exponent) {digits places : List Char}
    (hdigits : DigitString whole digits) (hplaces : DigitString (point.drop 1) places) :
    Significand (whole ++ point) digits places := by
  rcases h.point with rfl | ⟨more, rfl, -⟩
  · rw [List.append_nil, DigitString.eq_nil hplaces]
    exact .whole hdigits
  · exact .point hdigits hplaces

/-- The parts of a number make a numeral if they can be read. -/
theorem Parts.numeral (h : Parts whole point exponent) {value : Decimal}
    (hread : readDecimal (whole ++ point ++ exponent) = .ok value) :
    Numeral (whole ++ point ++ exponent) value := by
  obtain ⟨digits, places, shift, hdigits, hplaces, hne, hexponent, hvalue⟩ :=
    h.readDecimal_ok_iff.1 hread
  have hsignificand := h.significand hdigits hplaces
  obtain ⟨hnormal, hscaled⟩ := Decimal.eq_ofScaled_iff.1 hvalue
  refine .mk hsignificand hne hexponent hnormal (hscaled.trans ?_)
  rw [Int.cast_natCast]

/-- An exponent is empty or starts with its letter. -/
theorem Exponent.marked {shift : Int} (h : Exponent exponent shift) :
    exponent = [] ∨ Marked exponent := by
  cases h with
  | none => exact .inl rfl
  | written hmark hsign hne hdigits _ => exact .inr ⟨_, _, _, _, rfl, hmark, hsign, hne, hdigits⟩

/-- The least exponent starts with its letter. -/
theorem LeastExponent.marked (h : LeastExponent exponent) : Marked exponent := by
  obtain @⟨mark, digits, hmark, hdigits, hvalue⟩ := h
  refine ⟨mark, ['-'], true, digits, rfl, hmark, .minus, ?_, hdigits⟩
  rintro rfl
  cases hvalue

/-- A significand is cut at its point into parts of a number. -/
theorem Significand.parts {significand digits places : List Char}
    (h : Significand significand digits places) (hne : digits ++ places ≠ [])
    (he : exponent = [] ∨ Marked exponent) :
    significand ≠ [] ∧ ∃ whole point, significand = whole ++ point ∧ Parts whole point exponent ∧
      DigitString whole digits ∧ DigitString (point.drop 1) places := by
  cases h with
  | @whole _ digits hdigits =>
    refine ⟨?_, significand, [], (List.append_nil _).symm,
      ⟨hdigits.characters, .inl rfl, he⟩, hdigits, .inl ⟨rfl, rfl⟩⟩
    rintro rfl
    exact hne (by rw [hdigits.eq_nil]; rfl)
  | @point whole more digits places hdigits hplaces =>
    exact ⟨by simp, whole, '.' :: more, rfl,
      ⟨hdigits.characters, .inr ⟨more, rfl, hplaces.characters⟩, he⟩, hdigits, hplaces⟩

/-- A numeral is cut into its parts and read. -/
theorem Numeral.parts {number : List Char} {value : Decimal} (h : Numeral number value) :
    number ≠ [] ∧ readDecimal number = .ok value ∧ ∃ whole point exponent,
      number = whole ++ point ++ exponent ∧ Parts whole point exponent := by
  cases h with
  | @mk significand digits places exponent shift value hs hne he hnormal hvalue =>
    have hscaled : value = .ofScaled (Text.valueIn 10 (digits ++ places))
        (shift - places.length) :=
      Decimal.eq_ofScaled_iff.2 ⟨hnormal, by rw [hvalue, Int.cast_natCast]⟩
    obtain ⟨hsome, whole, point, rfl, hparts, hdigits, hplaces⟩ := hs.parts hne he.marked
    exact ⟨List.append_ne_nil_of_left_ne_nil hsome _, hparts.readDecimal_ok_iff.2
      ⟨digits, places, shift, hdigits, hplaces, hne, he, hscaled⟩, whole, point, exponent, rfl,
      hparts⟩

/-- Blanks do not belong to a number. -/
theorem extendsNumber_of_isBlank {c : Char} (h : Text.isBlank c) : extendsNumber c = false := by
  simp only [Text.isBlank, Text.blankRanges, Text.Ranges.has_iff, List.mem_cons, List.not_mem_nil,
    or_false, exists_eq_or_imp, exists_eq_left] at h
  refine Bool.eq_false_iff.2 fun hextends => ?_
  simp only [extendsNumber, isDigitOrSeparator, isFractional, Bool.or_eq_true, beq_iff_eq]
    at hextends
  rcases hextends with (hdigit | rfl) | (rfl | rfl) | rfl
  · have hrange : 48 ≤ c.toNat ∧ c.toNat ≤ 57 := by
      simpa [Char.isDigit, UInt32.le_iff_toNat_le] using hdigit
    omega
  all_goals
    revert h
    decide

/-- What is read in front of a suffix is a numeral and blanks. -/
theorem numeral_of_readSuffixed {suffix : List Char} {value : Decimal}
    (h : readSuffixed text = .ok (value, suffix)) :
    ∃ number blanks, text = number ++ (blanks ++ suffix) ∧ Numeral number value ∧
      ∀ c ∈ blanks, Text.isBlank c := by
  obtain ⟨whole, point, exponent, rest, rfl, hparts, hsplit, -⟩ := exists_parts text
  unfold readSuffixed at h
  rw [hsplit] at h
  dsimp only at h
  split at h
  · cases h
  · cases hread : readDecimal (whole ++ point ++ exponent) with
    | error problem =>
      rw [hread] at h
      cases h
    | ok number =>
      rw [hread] at h
      obtain ⟨rfl, rfl⟩ := Prod.mk.inj (Except.ok.inj h)
      obtain ⟨suffix, hblanks, hall, -⟩ := exists_takeWhile Text.isBlank rest
      refine ⟨_, rest.takeWhile Text.isBlank, ?_, hparts.numeral hread, hall⟩
      rw [Text.trimStart, List.takeWhile_append_dropWhile]

/-- A numeral and blanks are read in front of a suffix that does not go on with either. -/
theorem readSuffixed_append {number blanks suffix : List Char} {value : Decimal}
    (hn : Numeral number value) (hb : ∀ c ∈ blanks, Text.isBlank c)
    (hs : ∀ c ∈ suffix.head?, Text.isBlank c = false ∧ extendsNumber c = false) :
    readSuffixed (number ++ (blanks ++ suffix)) = .ok (value, suffix) := by
  obtain ⟨hne, hread, whole, point, exponent, rfl, hparts⟩ := hn.parts
  have hhead : ∀ c ∈ (blanks ++ suffix).head?, extendsNumber c = false := by
    cases blanks with
    | nil => exact fun c hc => (hs c hc).2
    | cons blank blanks =>
      intro c hc
      obtain rfl : blank = c := Option.some.inj hc
      exact extendsNumber_of_isBlank (hb _ List.mem_cons_self)
  have htrim : Text.trimStart (blanks ++ suffix) = suffix := by
    rw [Text.trimStart, List.dropWhile_append_of_pos hb]
    cases suffix with
    | nil => rfl
    | cons c suffix => exact List.dropWhile_cons_of_neg (Bool.eq_false_iff.1 (hs c rfl).1)
  unfold readSuffixed
  rw [hparts.splitNumber_append hhead]
  dsimp only
  rw [if_neg (by simpa using hne), hread, htrim]
  rfl

/-- A number overflows if its exponent is the least machine number, whatever stands behind it. -/
theorem readSuffixed_overflow_iff : readSuffixed text = .error .overflow ↔ ∃ number rest,
    text = number ++ rest ∧ LeastScaled number ∧ ∀ c ∈ rest.head?, c.isDigit = false := by
  constructor
  · intro h
    obtain ⟨whole, point, exponent, rest, rfl, hparts, hsplit, hend⟩ := exists_parts text
    unfold readSuffixed at h
    rw [hsplit] at h
    dsimp only at h
    split at h
    · cases h
    · rcases bind_eq_error_iff.1 h with hread | ⟨_, _, hok⟩
      · obtain ⟨digits, places, hdigits, hplaces, hne, hleast⟩ :=
          hparts.readDecimal_overflow_iff.1 hread
        refine ⟨_, rest, rfl, .mk (hparts.significand hdigits hplaces) hne hleast, hend ?_⟩
        rintro rfl
        cases hleast
      · cases hok
  · rintro ⟨_, rest, rfl, @⟨significand, digits, places, exponent, hs, hne, hleast⟩, hend⟩
    obtain ⟨hsome, whole, point, rfl, hparts, hdigits, hplaces⟩ :=
      hs.parts hne (.inr hleast.marked)
    have hnumber : whole ++ point ++ exponent ≠ [] := List.append_ne_nil_of_left_ne_nil hsome _
    unfold readSuffixed
    rw [hparts.splitNumber_eq hend fun hnil => by rw [hnil] at hleast; cases hleast]
    dsimp only
    rw [if_neg (by simpa using hnumber),
      hparts.readDecimal_overflow_iff.2 ⟨digits, places, hdigits, hplaces, hne, hleast⟩]
    rfl

/-- The same without blanks. -/
theorem Numeral.readSuffixed_append {number suffix : List Char} {value : Decimal}
    (hn : Numeral number value)
    (hs : ∀ c ∈ suffix.head?, Text.isBlank c = false ∧ extendsNumber c = false) :
    readSuffixed (number ++ suffix) = .ok (value, suffix) := by
  have hread := Literal.readSuffixed_append hn (List.forall_mem_nil _) hs
  rwa [List.nil_append] at hread

end

/-! ## Literals -/

section
variable {text : List Char} {literal : Literal}

/-- A float is read as a number without a suffix. -/
theorem read_float_eq (text : List Char) :
    read text .float = readBare text .float >>= fun value => pure (.float value) := by
  cases text <;> rfl

/-- So is an angle. -/
theorem read_angle_eq (text : List Char) :
    read text .angle = readBare text .angle >>= fun value => pure (.angle value) := by
  cases text <;> rfl

/-- An imaginary number is read with the suffix `im`. -/
theorem read_imaginary_eq (text : List Char) :
    read text .imaginary = readSuffixed text >>= fun read =>
      if read.2 = ['i', 'm'] then pure (.imaginary read.1)
      else throw (.unexpectedSuffix read.2 .imaginary) := by
  cases text <;> rfl

/-- A duration is read with the suffix of a unit. -/
theorem read_duration_eq (text : List Char) :
    read text .duration = readSuffixed text >>= fun read =>
      if read.2.isEmpty then throw (.missingUnit text)
      else (TimeUnit.ofSuffix? read.2).elim (throw (.unknownUnit read.2)) fun unit =>
        pure (.duration read.1 unit) := by
  cases text with
  | nil => rfl
  | cons c text =>
    refine bind_congr fun read => ?_
    dsimp only
    cases TimeUnit.ofSuffix? read.2 <;> rfl

/-- A number without a suffix is read up to the end of the text. -/
theorem readBare_eq_ok_iff {kind : LiteralKind} {value : Decimal} :
    readBare text kind = .ok value ↔ readSuffixed text = .ok (value, []) := by
  unfold readBare
  rw [bind_eq_ok_iff]
  constructor
  · rintro ⟨⟨value, suffix⟩, hok, h⟩
    cases suffix with
    | nil => exact Except.ok.inj h ▸ hok
    | cons c suffix => cases h
  · intro hok
    exact ⟨_, hok, rfl⟩

/-- What is read as a float is a number without a suffix. -/
theorem read_float_iff : read text .float = .ok literal ↔
    ∃ value, readSuffixed text = .ok (value, []) ∧ literal = .float value := by
  simp only [read_float_eq, bind_eq_ok_iff, readBare_eq_ok_iff, pure, Except.pure, Except.ok.injEq,
    @eq_comm _ literal]

/-- So is what is read as an angle. -/
theorem read_angle_iff : read text .angle = .ok literal ↔
    ∃ value, readSuffixed text = .ok (value, []) ∧ literal = .angle value := by
  simp only [read_angle_eq, bind_eq_ok_iff, readBare_eq_ok_iff, pure, Except.pure, Except.ok.injEq,
    @eq_comm _ literal]

/-- What is read as an imaginary number has the suffix `im`. -/
theorem read_imaginary_iff : read text .imaginary = .ok literal ↔
    ∃ value, readSuffixed text = .ok (value, ['i', 'm']) ∧ literal = .imaginary value := by
  rw [read_imaginary_eq, bind_eq_ok_iff]
  constructor
  · rintro ⟨⟨value, suffix⟩, hok, h⟩
    dsimp only at h
    split at h
    · next hsuffix => exact ⟨value, hsuffix ▸ hok, (Except.ok.inj h).symm⟩
    · cases h
  · rintro ⟨value, hok, rfl⟩
    exact ⟨_, hok, rfl⟩

/-- What is read as a duration has the suffix of its unit. -/
theorem read_duration_iff : read text .duration = .ok literal ↔
    ∃ value suffix unit, readSuffixed text = .ok (value, suffix) ∧
      TimeUnit.ofSuffix? suffix = some unit ∧ literal = .duration value unit := by
  rw [read_duration_eq, bind_eq_ok_iff]
  constructor
  · rintro ⟨⟨value, suffix⟩, hok, h⟩
    dsimp only at h
    split at h
    · cases h
    · cases hunit : TimeUnit.ofSuffix? suffix with
      | some unit =>
        rw [hunit] at h
        exact ⟨value, suffix, unit, hok, hunit, (Except.ok.inj h).symm⟩
      | none =>
        rw [hunit] at h
        cases h
  · rintro ⟨value, suffix, unit, hok, hunit, rfl⟩
    refine ⟨_, hok, ?_⟩
    have hne : suffix.isEmpty = false := by
      cases suffix with
      | nil => cases hunit
      | cons c suffix => rfl
    simp only [hne, hunit]
    rfl

/-- A text whose number is refused is no literal, whatever the suffix ought to be. -/
theorem read_eq_error {text : List Char} {kind : LiteralKind} {problem : LiteralError}
    (hk : kind ≠ .integer) (h : readSuffixed text = .error problem) :
    read text kind = .error problem := by
  cases text with
  | nil =>
    rw [← Except.error.inj h]
    rfl
  | cons c text =>
    unfold read readBare
    rw [h]
    cases kind with
    | integer => exact absurd rfl hk
    | float | imaginary | angle | duration => rfl

/-- Integers have no exponents. -/
theorem readInteger_ne_overflow : readInteger text ≠ .error .overflow := by
  have hstrip (body : List Char) : stripSeparators body text ≠ .error .overflow :=
    stripSeparators_ne_overflow
  intro h
  unfold readInteger at h
  dsimp only at h
  split at h
  · cases h
  obtain ⟨digits, -, h⟩ := (bind_eq_error_iff.1 h).resolve_left (hstrip _)
  split at h
  · cases h
  split at h <;> cases h

/-- The spelling of a unit does not go on with a number or with blanks. -/
theorem ends_of_ofSuffix? {suffix : List Char} {unit : TimeUnit}
    (h : TimeUnit.ofSuffix? suffix = some unit) :
    ∀ c ∈ suffix.head?, Text.isBlank c = false ∧ extendsNumber c = false := by
  unfold TimeUnit.ofSuffix? at h
  split at h
  case h_8 => cases h
  all_goals exact fun c hc => Option.some.inj hc ▸ by decide

end

/-- Reading a literal overflows where reading its number does. -/
theorem read_overflow_iff {kind : LiteralKind} :
    read text kind = .error .overflow ↔ kind ≠ .integer ∧ readSuffixed text = .error .overflow := by
  have hbare (h : readBare text kind = .error .overflow) :
      readSuffixed text = .error .overflow := by
    rcases bind_eq_error_iff.1 h with hread | ⟨⟨value, suffix⟩, -, hsuffix⟩
    · exact hread
    · dsimp only at hsuffix
      split at hsuffix <;> cases hsuffix
  refine ⟨fun h => ?_, fun ⟨hk, h⟩ => read_eq_error hk h⟩
  cases kind with
  | integer =>
    cases text with
    | nil => cases h
    | cons c text =>
      rcases bind_eq_error_iff.1 h with hread | ⟨_, _, hok⟩
      · exact absurd hread readInteger_ne_overflow
      · cases hok
  | float =>
    rw [read_float_eq] at h
    exact ⟨nofun, hbare ((bind_eq_error_iff.1 h).resolve_right fun ⟨_, _, hok⟩ => nomatch hok)⟩
  | angle =>
    rw [read_angle_eq] at h
    exact ⟨nofun, hbare ((bind_eq_error_iff.1 h).resolve_right fun ⟨_, _, hok⟩ => nomatch hok)⟩
  | imaginary =>
    rw [read_imaginary_eq] at h
    rcases bind_eq_error_iff.1 h with hread | ⟨_, _, hsuffix⟩
    · exact ⟨nofun, hread⟩
    · split at hsuffix <;> cases hsuffix
  | duration =>
    rw [read_duration_eq] at h
    rcases bind_eq_error_iff.1 h with hread | ⟨⟨value, suffix⟩, _, hunit⟩
    · exact ⟨nofun, hread⟩
    · split at hunit
      · cases hunit
      · dsimp only at hunit
        cases hfound : TimeUnit.ofSuffix? suffix <;> rw [hfound] at hunit <;> cases hunit

/-- Decimal literals are numerals, and their values are exact: a float is a numeral with blanks
behind it, an imaginary number one with `im` and a duration one with a unit behind the blanks. Any
other text is refused, unless its exponent is the least machine number: there reading crashes. -/
theorem read_decimal_iff (text : List Char) (literal : Literal) :
    (read text .float = .ok literal ↔ ∃ number blanks value, text = number ++ blanks ∧
      Numeral number value ∧ (∀ c ∈ blanks, Text.isBlank c) ∧ literal = .float value) ∧
    (read text .imaginary = .ok literal ↔ ∃ number blanks value,
      text = number ++ (blanks ++ ['i', 'm']) ∧ Numeral number value ∧
      (∀ c ∈ blanks, Text.isBlank c) ∧ literal = .imaginary value) ∧
    (read text .duration = .ok literal ↔ ∃ number blanks suffix unit value,
      text = number ++ (blanks ++ suffix) ∧ Numeral number value ∧
      (∀ c ∈ blanks, Text.isBlank c) ∧ TimeUnit.ofSuffix? suffix = some unit ∧
      literal = .duration value unit) ∧
    ∀ kind, read text kind = .error .overflow ↔ kind ≠ .integer ∧ ∃ number rest,
      text = number ++ rest ∧ LeastScaled number ∧ ∀ c ∈ rest.head?, c.isDigit = false := by
  rw [read_float_iff, read_imaginary_iff, read_duration_iff]
  refine ⟨⟨?_, ?_⟩, ⟨?_, ?_⟩, ⟨?_, ?_⟩, fun kind => ?_⟩
  · rintro ⟨value, hread, rfl⟩
    obtain ⟨number, blanks, htext, hnumeral, hblanks⟩ := numeral_of_readSuffixed hread
    rw [List.append_nil] at htext
    exact ⟨number, blanks, value, htext, hnumeral, hblanks, rfl⟩
  · rintro ⟨number, blanks, value, rfl, hnumeral, hblanks, rfl⟩
    have hread : readSuffixed (number ++ (blanks ++ [])) = .ok (value, []) :=
      readSuffixed_append hnumeral hblanks nofun
    rw [List.append_nil] at hread
    exact ⟨value, hread, rfl⟩
  · rintro ⟨value, hread, rfl⟩
    obtain ⟨number, blanks, htext, hnumeral, hblanks⟩ := numeral_of_readSuffixed hread
    exact ⟨number, blanks, value, htext, hnumeral, hblanks, rfl⟩
  · rintro ⟨number, blanks, value, rfl, hnumeral, hblanks, rfl⟩
    exact ⟨value, readSuffixed_append hnumeral hblanks fun c hc =>
      Option.some.inj hc ▸ by decide, rfl⟩
  · rintro ⟨value, suffix, unit, hread, hunit, rfl⟩
    obtain ⟨number, blanks, htext, hnumeral, hblanks⟩ := numeral_of_readSuffixed hread
    exact ⟨number, blanks, suffix, unit, value, htext, hnumeral, hblanks, hunit, rfl⟩
  · rintro ⟨number, blanks, suffix, unit, value, rfl, hnumeral, hblanks, hunit, rfl⟩
    exact ⟨value, suffix, unit, readSuffixed_append hnumeral hblanks (ends_of_ofSuffix? hunit),
      hunit, rfl⟩
  · rw [read_overflow_iff, readSuffixed_overflow_iff]

/-- There is a text that is neither read nor refused. -/
theorem not_read_decimal_leastExponent :
    ¬∀ text, (∃ literal, read text .float = .ok literal) ∨
      ∃ problem, problem ≠ .overflow ∧ read text .float = .error problem := by
  intro hall
  have hoverflow : read "1e-9223372036854775808".toList .float = .error .overflow := by
    decide +kernel
  rcases hall "1e-9223372036854775808".toList with ⟨literal, hok⟩ | ⟨problem, hne, herror⟩
  · cases hok.symm.trans hoverflow
  · exact hne (Except.error.inj (herror.symm.trans hoverflow))

end OpenQasm.Literal
