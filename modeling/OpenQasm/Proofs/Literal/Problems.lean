import OpenQasm.Proofs.Literal.Integer
import OpenQasm.Proofs.Token.Numbers

/-!
# What may be wrong with a number

Which problems may come up when a number among the tokens is read. Its digits are digits of its
radix, and one with a suffix has a suffix; so what is left to go wrong is how its digits are
separated, how great its exponent is, and what stands behind it. But where the token is a radix mark
without a digit, there is nothing to read.
-/

namespace OpenQasm

/-- A problem with how a number is written or what stands behind it, and not with what is missing or
with digits of another radix. -/
def LiteralError.isForeseen : LiteralError → Bool
  | .empty | .invalidDigit _ _ | .missingUnit _ => false
  | _ => true

namespace Literal

open Token (BeginsNumber Numbered LostMark isSuffixLetter radixDigit?)

/-- A radix mark without a digit. -/
def BareRadix (text : List Char) : Prop := ∃ mark ∈ marks, text = ['0', mark]

/-- The problems of a number in decimal digits. -/
def Miswritten (number : List Char) (problem : LiteralError) : Prop :=
  problem = .misplacedSeparator number ∨ problem = .exponentOutOfRange number ∨ problem = .overflow

section
variable {whole point exponent text number suffix : List Char} {problem : LiteralError} {c : Char}

/-- Digits are at fault only by a separator. -/
theorem eq_of_stripSeparators (h : stripSeparators text number = .error problem) :
    problem = .misplacedSeparator number := by
  unfold stripSeparators at h
  split at h
  · exact (Except.error.inj h).symm
  · cases h

/-- A number that is miswritten has one of the foreseen problems. -/
theorem Miswritten.isForeseen (h : Miswritten number problem) : problem.isForeseen := by
  rcases h with rfl | rfl | rfl <;> rfl

/-! ## Decimals -/

/-- An exponent starts with neither digit nor point. -/
theorem not_isDigit_of_marked (h : Marked text) :
    ∀ c ∈ text.head?, c.isDigit = false ∧ c ≠ '.' := by
  obtain ⟨mark, sign, negative, digits, rfl, hmark, -⟩ := h
  rintro c hc
  obtain rfl := Option.some.inj hc
  rcases hmark with rfl | rfl <;> decide

/-- What may be wrong with an exponent. -/
theorem exponentOf_problem (h : exponentOf exponent number = .error problem) :
    problem = .exponentOutOfRange number ∨ problem = .overflow := by
  unfold exponentOf readExponent at h
  split at h
  · cases h
  split at h
  · exact .inl (Except.error.inj h).symm
  split at h
  · exact .inr (Except.error.inj h).symm
  split at h
  · cases h
  · exact .inl (Except.error.inj h).symm

/-- A number that begins as one has digits before its point or behind it. -/
theorem Parts.digits_ne_nil (h : Parts whole point exponent)
    (hb : BeginsNumber (whole ++ point ++ exponent)) {digits places : List Char}
    (hdigits : DigitString whole digits) (hplaces : DigitString (point.drop 1) places) :
    digits ++ places ≠ [] := by
  have hsome : ∀ {text digits : List Char}, DigitString text digits → text ≠ [] → digits ≠ [] := by
    rintro text digits (⟨rfl, -⟩ | hgrouped) hne
    · exact absurd rfl hne
    · exact (grouped_iff.1 hgrouped).1.ne_nil
  have hbegins : BeginsNumber (whole ++ point) := by
    refine hb.of_append fun c hc => ?_
    rcases h.exponent with rfl | hmarked
    · cases hc
    · obtain ⟨hdigit, hpoint⟩ := not_isDigit_of_marked hmarked c hc
      exact ⟨hdigit, fun _ => hpoint⟩
  intro hnil
  obtain ⟨hnone, hnone'⟩ := List.append_eq_nil_iff.1 hnil
  have hwhole : whole = [] := Decidable.byContradiction fun hne => hsome hdigits hne hnone
  have hpoint : point.drop 1 = [] := Decidable.byContradiction fun hne => hsome hplaces hne hnone'
  subst hwhole
  rcases h.point with rfl | ⟨more, rfl, -⟩
  · cases hbegins
  · rw [List.drop_one, List.tail_cons] at hpoint
    subst hpoint
    cases hbegins with
    | digit hdigit => cases hdigit

/-- What may be wrong with a number in decimal digits. -/
theorem Parts.miswritten (h : Parts whole point exponent)
    (hb : BeginsNumber (whole ++ point ++ exponent))
    (hread : readDecimal (whole ++ point ++ exponent) = .error problem) :
    Miswritten (whole ++ point ++ exponent) problem := by
  rw [h.readDecimal_eq, bind_eq_error_iff] at hread
  rcases hread with hstrip | ⟨digits, hdigits, hread⟩
  · exact .inl (eq_of_stripSeparators hstrip)
  rw [bind_eq_error_iff] at hread
  rcases hread with hstrip | ⟨places, hplaces, hread⟩
  · exact .inl (eq_of_stripSeparators hstrip)
  rw [stripSeparators_ok_iff _ h.whole] at hdigits
  rw [stripSeparators_ok_iff _ h.fraction] at hplaces
  rw [if_neg (h.digits_ne_nil hb hdigits hplaces)] at hread
  rcases bind_eq_error_iff.1 hread with hexponent | ⟨_, _, hok⟩
  · exact .inr (exponentOf_problem hexponent)
  · cases hok

/-- What is cut off a text that begins as a number does, begins as one. -/
theorem beginsNumber_splitNumber (h : BeginsNumber text) : BeginsNumber (splitNumber text).1 := by
  cases h with
  | @digit c text hdigit =>
    have hpos : 0 < numberLength (c :: text) := by
      unfold numberLength
      dsimp only
      rw [List.takeWhile_cons_of_pos (isDigitOrSeparator_of_isDigit hdigit), List.length_cons]
      omega
    obtain ⟨n, hn⟩ := Nat.exists_eq_add_of_lt hpos
    rw [splitNumber, hn, Nat.zero_add, List.take_succ_cons]
    exact .digit hdigit
  | @point c text hdigit =>
    have hpos : 1 < numberLength ('.' :: c :: text) := by
      unfold numberLength
      rw [List.takeWhile_cons_of_neg (by decide)]
      change 1 < 0 + (((c :: text).takeWhile isDigitOrSeparator).length + 1) + exponentLength _
      rw [List.takeWhile_cons_of_pos (isDigitOrSeparator_of_isDigit hdigit), List.length_cons]
      omega
    obtain ⟨n, hn⟩ := Nat.exists_eq_add_of_lt hpos
    rw [splitNumber, hn, Nat.add_comm 1, List.take_succ_cons, List.take_succ_cons]
    exact .point hdigit

/-- What may be wrong with the number in front of a suffix. -/
theorem readSuffixed_miswritten (hb : BeginsNumber text)
    (h : readSuffixed text = .error problem) : Miswritten (splitNumber text).1 problem := by
  obtain ⟨whole, point, exponent, rest, -, hparts, hsplit, -⟩ := exists_parts text
  have hbegins := beginsNumber_splitNumber hb
  unfold readSuffixed at h
  rw [hsplit] at h hbegins ⊢
  dsimp only at h hbegins ⊢
  split at h
  · next hempty =>
    rw [List.isEmpty_iff.1 hempty] at hbegins
    cases hbegins
  · rcases bind_eq_error_iff.1 h with hread | ⟨_, _, hok⟩
    · exact hparts.miswritten hbegins hread
    · cases hok

/-- The suffix that is read is what stands behind the number. -/
theorem snd_of_readSuffixed {value : Decimal} (h : readSuffixed text = .ok (value, suffix)) :
    suffix = Text.trimStart (splitNumber text).2 := by
  unfold readSuffixed at h
  dsimp only at h
  split at h
  · cases h
  · obtain ⟨_, -, hok⟩ := bind_eq_ok_iff.1 h
    exact (Prod.mk.inj (Except.ok.inj hok)).2.symm

/-- What may be wrong with a number that nothing may follow. -/
theorem read_float_problem (hb : BeginsNumber text) (h : read text .float = .error problem) :
    Miswritten (splitNumber text).1 problem ∨
      ∃ suffix, problem = .unexpectedSuffix suffix .float := by
  rw [read_float_eq, bind_eq_error_iff] at h
  rcases h with h | ⟨_, _, hok⟩
  · unfold readBare at h
    rcases bind_eq_error_iff.1 h with h | ⟨⟨value, suffix⟩, -, h⟩
    · exact .inl (readSuffixed_miswritten hb h)
    · dsimp only at h
      split at h
      · cases h
      · exact .inr ⟨suffix, (Except.error.inj h).symm⟩
  · cases hok

/-- What may be wrong with a number that `im` is to follow. -/
theorem read_imaginary_problem (hb : BeginsNumber text)
    (h : read text .imaginary = .error problem) :
    Miswritten (splitNumber text).1 problem ∨
      Text.trimStart (splitNumber text).2 ≠ ['i', 'm'] ∧
        problem = .unexpectedSuffix (Text.trimStart (splitNumber text).2) .imaginary := by
  rw [read_imaginary_eq, bind_eq_error_iff] at h
  rcases h with h | ⟨⟨value, suffix⟩, hok, h⟩
  · exact .inl (readSuffixed_miswritten hb h)
  · obtain rfl := snd_of_readSuffixed hok
    dsimp only at h
    split at h
    · cases h
    · next hne => exact .inr ⟨hne, (Except.error.inj h).symm⟩

/-- What may be wrong with a number that a unit is to follow. -/
theorem read_duration_problem (hb : BeginsNumber text) (h : read text .duration = .error problem) :
    Miswritten (splitNumber text).1 problem ∨
      Text.trimStart (splitNumber text).2 = [] ∧ problem = .missingUnit text ∨
      problem = .unknownUnit (Text.trimStart (splitNumber text).2) := by
  rw [read_duration_eq, bind_eq_error_iff] at h
  rcases h with h | ⟨⟨value, suffix⟩, hok, h⟩
  · exact .inl (readSuffixed_miswritten hb h)
  · obtain rfl := snd_of_readSuffixed hok
    dsimp only at h
    split at h
    · next hempty => exact .inr (.inl ⟨List.isEmpty_iff.1 hempty, (Except.error.inj h).symm⟩)
    · cases hunit : TimeUnit.ofSuffix? (Text.trimStart (splitNumber text).2) with
      | none =>
        rw [hunit] at h
        exact .inr (.inr (Except.error.inj h).symm)
      | some unit =>
        rw [hunit] at h
        cases h

/-! ## Suffixes -/

/-- What an ASCII letter is not. -/
theorem plain_of_toNat (hlow : 65 ≤ c.toNat) (hhigh : c.toNat ≤ 122) (hne : c ≠ '_') :
    isDigitOrSeparator c = false ∧ c ≠ '.' ∧ c ≠ '+' ∧ c ≠ '-' ∧ Text.isBlank c = false := by
  have hother : ∀ d : Char, d.toNat < 65 → c ≠ d := by
    rintro d hd rfl
    omega
  have hdigit : c.isDigit = false := by
    refine Bool.eq_false_iff.2 fun hdigit => ?_
    have hrange : 48 ≤ c.toNat ∧ c.toNat ≤ 57 := by
      simpa [Char.isDigit, UInt32.le_iff_toNat_le] using hdigit
    omega
  have hblank : Text.isBlank c = false := by
    refine Bool.eq_false_iff.2 fun hblank => ?_
    simp only [Text.isBlank, Text.blankRanges, Text.Ranges.has_iff, List.mem_cons,
      List.not_mem_nil, or_false, exists_eq_or_imp, exists_eq_left] at hblank
    omega
  exact ⟨by simp [isDigitOrSeparator, hdigit, hne], hother _ (by decide), hother _ (by decide),
    hother _ (by decide), hblank⟩

/-- What a suffix letter is not. -/
theorem plain_of_isSuffixLetter (h : isSuffixLetter c) :
    isDigitOrSeparator c = false ∧ c ≠ '.' ∧ c ≠ '+' ∧ c ≠ '-' ∧ Text.isBlank c = false := by
  have hcode : 65 ≤ c.toNat ∧ c.toNat ≤ 90 ∨ 97 ≤ c.toNat ∧ c.toNat ≤ 122 ∨ c = '\u00b5' ∨
      c = '\u03bc' := by
    delta isSuffixLetter Char.isAlpha Char.isUpper Char.isLower at h
    simpa [UInt32.le_iff_toNat_le, or_assoc] using h
  have hne : c ≠ '_' := by
    rintro rfl
    cases h
  rcases hcode with ⟨hlow, hhigh⟩ | ⟨hlow, hhigh⟩ | rfl | rfl
  · exact plain_of_toNat hlow (by omega) hne
  · exact plain_of_toNat (by omega) hhigh hne
  · decide
  · decide

/-- Letters behind a number are no exponent. -/
theorem exponentLength_of_letters (h : ∀ c ∈ suffix, isSuffixLetter c) :
    exponentLength suffix = 0 := by
  cases suffix with
  | nil => rfl
  | cons mark suffix =>
    unfold exponentLength
    dsimp only
    split
    · cases suffix with
      | nil => rfl
      | cons c suffix =>
        obtain ⟨hdigit, -, hplus, hminus, -⟩ := plain_of_isSuffixLetter (h c (by simp))
        have hsign : (c == '+' || c == '-') = false := by simp [hplus, hminus]
        have hnone : ¬ c.isDigit = true := Bool.eq_false_iff.1 (Bool.or_eq_false_iff.1 hdigit).1
        dsimp only
        rw [hsign, List.takeWhile_cons_of_neg hnone]
        rfl
    · rfl

/-- Letters behind a number are its suffix, even those that an exponent may begin with. -/
theorem Parts.splitNumber_letters (h : Parts whole point exponent)
    (hs : ∀ c ∈ suffix, isSuffixLetter c) :
    splitNumber (whole ++ point ++ exponent ++ suffix) = (whole ++ point ++ exponent, suffix) := by
  have hletter : ∀ c ∈ suffix.head?, isDigitOrSeparator c = false ∧ c ≠ '.' := fun c hc => by
    obtain ⟨hdigit, hpoint, -⟩ := plain_of_isSuffixLetter (hs c (List.mem_of_mem_head? hc))
    exact ⟨hdigit, hpoint⟩
  have hlength : exponentLength (exponent ++ suffix) = exponent.length := by
    rcases h.exponent with rfl | hmarked
    · exact exponentLength_of_letters hs
    · exact hmarked.exponentLength fun c hc => (Bool.or_eq_false_iff.1 (hletter c hc).1).1
  have hhead : ∀ c ∈ (exponent ++ suffix).head?, isDigitOrSeparator c = false ∧
      (point = [] → c ≠ '.') := by
    rcases h.exponent with rfl | ⟨mark, sign, negative, digits, rfl, hmark, -⟩
    · exact fun c hc => ⟨(hletter c hc).1, fun _ => (hletter c hc).2⟩
    · intro c hc
      obtain rfl : mark = c := Option.some.inj hc
      rcases hmark with rfl | rfl <;> exact ⟨rfl, fun _ => by decide⟩
  have hnumber : numberLength (whole ++ point ++ exponent ++ suffix) =
      (whole ++ point ++ exponent).length := by
    rw [List.append_assoc, numberLength_eq h.whole h.point hhead, hlength]
    simp only [List.length_append]
  rw [splitNumber, hnumber, List.take_left, List.drop_left]

/-- A number with letters behind it is cut before them, and what may be wrong with it is how the
number is written and which unit the letters name. -/
theorem suffixed_problem (h : Numbered .suffixed text) (hb : BeginsNumber text) :
    ∃ number suffix, splitNumber text = (number, suffix) ∧ text = number ++ suffix ∧ suffix ≠ [] ∧
      (∀ c ∈ suffix, isSuffixLetter c) ∧
      ∀ problem, read text (suffixKind text) = .error problem →
        Miswritten number problem ∨ problem = .unknownUnit suffix := by
  cases h with
  | @suffixed whole point exponent suffix hparts hne hletters =>
  have hsplit := hparts.splitNumber_letters hletters
  have htrim : Text.trimStart suffix = suffix := Text.trimStart_of_head fun c hc =>
    (plain_of_isSuffixLetter (hletters c (List.mem_of_mem_head? hc))).2.2.2.2
  refine ⟨_, suffix, hsplit, rfl, hne, hletters, fun problem hread => ?_⟩
  unfold suffixKind at hread
  rw [hsplit, htrim] at hread
  split at hread
  · next him =>
    have hproblem := read_imaginary_problem hb hread
    rw [hsplit, htrim] at hproblem
    rcases hproblem with hmiswritten | ⟨hnot, -⟩
    · exact .inl hmiswritten
    · exact absurd him hnot
  · have hproblem := read_duration_problem hb hread
    rw [hsplit, htrim] at hproblem
    rcases hproblem with hmiswritten | ⟨hnil, -⟩ | hunit
    · exact .inl hmiswritten
    · exact absurd hnil hne
    · exact .inr hunit

/-! ## Integers -/

/-- A hexadecimal character that is no separator is a digit. -/
theorem isDigitIn_of_isHexMark (h : Token.isHexMark c) (hne : c ≠ '_') : Text.isDigitIn 16 c := by
  simp only [Token.isHexMark, Token.isDigitMark, Char.isDigit, Text.isDigitIn, Text.digitValue?,
    Char.le_def, UInt32.le_iff_toNat_le, Char.toNat_val, Char.reduceVal, Char.reduceToNat,
    UInt32.reduceToNat] at h ⊢
  grind

/-- So is an octal one. -/
theorem isDigitIn_of_isOctalMark (h : Token.isOctalMark c) (hne : c ≠ '_') :
    Text.isDigitIn 8 c := by
  simp only [Token.isOctalMark, Text.isDigitIn, Text.digitValue?,
    Char.le_def, UInt32.le_iff_toNat_le, Char.toNat_val, Char.reduceVal, Char.reduceToNat,
    UInt32.reduceToNat] at h ⊢
  grind

/-- So is a binary one. -/
theorem isDigitIn_of_isBinaryMark (h : Token.isBinaryMark c) (hne : c ≠ '_') :
    Text.isDigitIn 2 c := by
  have hc : c = '0' ∨ c = '1' := by simpa [Token.isBinaryMark, hne] using h
  rcases hc with rfl | rfl <;> rfl

/-- The digits that a radix mark announces are digits of that radix, or separators. -/
theorem exists_split {mark : Char} {isDigit : Char → Bool} (h : radixDigit? mark = some isDigit)
    (digits : List Char) : ∃ named : Radix, Radix.split ('0' :: mark :: digits) = (named, digits) ∧
      mark ∈ marks ∧ named ≠ .decimal ∧
      ∀ c, isDigit c → c ≠ '_' → Text.isDigitIn named.base c := by
  unfold radixDigit? at h
  split at h
  · next hmark =>
    obtain rfl := Option.some.inj h
    rw [Bool.or_eq_true, beq_iff_eq, beq_iff_eq] at hmark
    rcases hmark with rfl | rfl
    all_goals exact ⟨.hexadecimal, rfl, by decide, nofun, fun _ => isDigitIn_of_isHexMark⟩
  split at h
  · next hmark =>
    obtain rfl := Option.some.inj h
    rw [Bool.or_eq_true, beq_iff_eq, beq_iff_eq] at hmark
    rcases hmark with rfl | rfl
    all_goals exact ⟨.octal, rfl, by decide, nofun, fun _ => isDigitIn_of_isOctalMark⟩
  split at h
  · next hmark =>
    obtain rfl := Option.some.inj h
    rw [Bool.or_eq_true, beq_iff_eq, beq_iff_eq] at hmark
    rcases hmark with rfl | rfl
    all_goals exact ⟨.binary, rfl, by decide, nofun, fun _ => isDigitIn_of_isBinaryMark⟩
  · cases h

/-- What may be wrong with digits of a radix. -/
theorem readInteger_problem {named : Radix} {body : List Char}
    (hsplit : Radix.split text = (named, body))
    (hbody : ∀ c ∈ body, c ≠ '_' → Text.isDigitIn named.base c)
    (h : readInteger text = .error problem) :
    (named = .decimal ∧ problem = .notAnInteger text) ∨ problem = .misplacedSeparator text ∨
      problem = .empty ∧ body = [] := by
  unfold readInteger at h
  rw [hsplit] at h
  dsimp only at h
  split at h
  · next hrefused => exact .inl ⟨hrefused.1, (Except.error.inj h).symm⟩
  rcases bind_eq_error_iff.1 h with hstrip | ⟨digits, hdigits, h⟩
  · exact .inr (.inl (eq_of_stripSeparators hstrip))
  rcases (stripSeparators_eq_ok_iff _).1 hdigits with ⟨rfl, rfl⟩ | hspaced
  · exact .inr (.inr ⟨(Except.error.inj h).symm, rfl⟩)
  have hall : ∀ c ∈ digits, Text.isDigitIn named.base c := by
    intro c hc
    rw [hspaced.digits_eq, List.mem_filter, decide_eq_true_eq] at hc
    exact hbody c hc.1 hc.2
  have hnone : digits.find? (!Text.isDigitIn named.base ·) = none :=
    List.find?_eq_none.2 fun c hc => by simp [hall c hc]
  rw [if_neg (by simpa using hspaced.ne_nil), hnone] at h
  cases h

/-- A decimal number with a point or an exponent is no integer. -/
theorem readInteger_of_isFractional (hsplit : Radix.split text = (.decimal, text)) (hm : c ∈ text)
    (hc : isFractional c) : readInteger text = .error (.notAnInteger text) := by
  unfold readInteger
  rw [hsplit]
  exact if_pos ⟨rfl, List.any_eq_true.2 ⟨c, hm, hc⟩⟩

/-- What may be wrong with an integer among the tokens. There is nothing to read if it is a radix
mark without a digit. -/
theorem integer_problem (h : Numbered .integer text) (hb : BeginsNumber text)
    (hread : read text .integer = .error problem) :
    problem = .notAnInteger text ∨ problem = .misplacedSeparator text ∨
      problem = .empty ∧ BareRadix text := by
  rw [read_integer_eq, bind_eq_error_iff] at hread
  rcases hread with hread | ⟨_, _, hok⟩
  · cases h with
    | @radix mark isDigit digits hmark hdigits =>
      obtain ⟨named, hsplit, hmem, -, hall⟩ := exists_split hmark digits
      have hproblem := readInteger_problem hsplit (fun c hc => hall c (hdigits c hc)) hread
      rcases hproblem with ⟨-, hproblem⟩ | hproblem | ⟨hproblem, rfl⟩
      · exact .inl hproblem
      · exact .inr (.inl hproblem)
      · exact .inr (.inr ⟨hproblem, mark, hmem, rfl⟩)
    | @integer whole lost hparts hlost =>
      have hunmarked : ∀ c ∈ whole, c ∉ marks := fun c hc =>
        unmarked_of_isDigitOrSeparator (hparts.whole c hc)
      have hlostmark : ∀ mark, mark ∉ marks → isFractional mark → lost = [mark] →
          problem = .notAnInteger (whole ++ lost) := by
        rintro mark hmark hfractional rfl
        have hsplit := split_of_unmarked (List.forall_mem_append.2
          ⟨hunmarked, List.forall_mem_singleton.2 hmark⟩)
        rw [readInteger_of_isFractional hsplit (by simp) hfractional] at hread
        exact (Except.error.inj hread).symm
      rcases hlost with rfl | hlost | hlost
      · rw [List.append_nil] at hread hb ⊢
        have hproblem := readInteger_problem (split_of_unmarked hunmarked) (fun c hc hne => by
          have hdigit := hparts.whole c hc
          simpa [Radix.base, isDigitIn_ten, isDigitOrSeparator, hne] using hdigit) hread
        rcases hproblem with ⟨-, hproblem⟩ | hproblem | ⟨-, rfl⟩
        · exact .inl hproblem
        · exact .inr (.inl hproblem)
        · cases hb
      · exact .inl (hlostmark 'e' (by decide) rfl hlost)
      · exact .inl (hlostmark 'E' (by decide) rfl hlost)
  · cases hok

/-- The mark of a radix by itself is an empty number. -/
theorem read_bareRadix (h : BareRadix text) : read text .integer = .error .empty := by
  obtain ⟨mark, hmark, rfl⟩ := h
  simp only [marks, List.mem_cons, List.not_mem_nil, or_false] at hmark
  rcases hmark with rfl | rfl | rfl | rfl | rfl | rfl <;> rfl

/-! ## Suffixes apart from their numbers -/

/-- Behind a number that reads as a float, a suffix may stand apart from it. -/
theorem readSuffixed_apart {blanks : List Char} {value : Decimal}
    (h : read text .float = .ok (.float value)) (hb : ∀ c ∈ blanks, Text.isBlank c)
    (hs : ∀ c ∈ suffix.head?, Text.isBlank c = false ∧ extendsNumber c = false) :
    readSuffixed (text ++ (blanks ++ suffix)) = .ok (value, suffix) := by
  obtain ⟨value, hread, hvalue⟩ := read_float_iff.1 h
  cases hvalue
  obtain ⟨number, trailing, rfl, hnumeral, htrailing⟩ := numeral_of_readSuffixed hread
  have happend := readSuffixed_append hnumeral (List.forall_mem_append.2 ⟨htrailing, hb⟩) hs
  simpa using happend

/-- With only blanks between it and the `im`, such a number is imaginary. -/
theorem read_imaginary_apart {blanks : List Char} {value : Decimal}
    (h : read text .float = .ok (.float value)) (hb : ∀ c ∈ blanks, Text.isBlank c) :
    read (text ++ (blanks ++ ['i', 'm'])) .imaginary = .ok (.imaginary value) :=
  read_imaginary_iff.2 ⟨value, readSuffixed_apart h hb (by rintro c ⟨⟩; exact ⟨rfl, rfl⟩), rfl⟩

/-- With a comment between them, the comment is taken for a part of the suffix. -/
theorem read_imaginary_behind {blanks : List Char} {value : Decimal}
    (h : read text .float = .ok (.float value)) (hb : ∀ c ∈ blanks, Text.isBlank c)
    (hs : suffix.head? = some '/') :
    read (text ++ (blanks ++ suffix)) .imaginary =
      .error (.unexpectedSuffix suffix .imaginary) := by
  have hread : readSuffixed (text ++ (blanks ++ suffix)) = .ok (value, suffix) :=
    readSuffixed_apart h hb (by rw [hs]; rintro c ⟨⟩; exact ⟨rfl, rfl⟩)
  have hne : suffix ≠ ['i', 'm'] := by
    rintro rfl
    cases hs
  rw [read_imaginary_eq, hread]
  exact if_neg hne

end

end Literal

end OpenQasm
