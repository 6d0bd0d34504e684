import OpenQasm.Proofs.Token.LineEnds

/-!
# Pieces by themselves

A decimal number has its parts whatever follows, so that it too is marked off again where a line
ends right behind it. It is called the same unless its exponent mark leads nowhere, and a radix mark
without digits becomes a suffix. With the pieces that are no numbers this holds of all that a scan
marks off, but for a comment that is never closed.
-/

namespace OpenQasm

namespace Token

open Literal (Parts isDigitOrSeparator)

section
variable {c : Char} {text word rest stop whole point exponent suffix : List Char}

/-! ## Numbers -/

/-- The digits and the point of a number, before what does not go on with them. -/
theorem significandLength_append (hp : Parts whole point [])
    (hr : ∀ c ∈ rest.head?, isDigitOrSeparator c = false ∧ (point = [] → c ≠ '.')) :
    significandLength (whole ++ point ++ rest) = ((whole ++ point).length, !point.isEmpty) := by
  have hdigit : ∀ c ∈ rest.head?, isDigitMark c = false := fun c hc => (hr c hc).1
  have hwhole : ∀ c ∈ whole, isDigitMark c := hp.whole
  unfold significandLength
  rcases hp.point with rfl | ⟨more, rfl, hmore⟩
  · rw [List.append_nil, run_append hwhole hdigit]
    dsimp only
    rw [List.drop_left]
    split
    · exact absurd rfl ((hr '.' rfl).2 rfl)
    · rfl
  · rw [List.append_assoc, run_append hwhole (by rintro c ⟨⟩; rfl)]
    dsimp only
    rw [List.drop_left, List.cons_append]
    have hplaces : ∀ c ∈ more, isDigitMark c := hmore
    show (whole.length + 1 + run isDigitMark (more ++ rest), true) = _
    rw [run_append hplaces hdigit]
    simp +arith

/-- Letters before the end of a line are no exponent, and a mark among them is not lost. -/
theorem exponentLength_letters (hx : ∀ c ∈ suffix, isSuffixLetter c) (hs : LineEnd stop) :
    Token.exponentLength (suffix ++ stop) = 0 ∧ hasLostMark (suffix ++ stop) = false := by
  cases suffix with
  | nil =>
    rcases hs.eq_nil_or with rfl | ⟨rest, rfl⟩
    · exact ⟨rfl, rfl⟩
    · exact ⟨rfl, by cases rest <;> rfl⟩
  | cons mark suffix =>
    have hsecond : ∀ c ∈ (suffix ++ stop).head?, c.isDigit = false ∧ c ≠ '+' ∧ c ≠ '-' ∧
        resemblesSuffixLetter c = false := by
      intro c hc
      cases suffix with
      | nil =>
        rw [hs c hc]
        decide
      | cons d suffix =>
        obtain rfl := Option.some.inj hc
        have hletter := hx d (by simp)
        obtain ⟨hdigit, -, hplus, hminus, -⟩ := Literal.plain_of_isSuffixLetter hletter
        exact ⟨(Bool.or_eq_false_iff.1 hdigit).1, hplus, hminus,
          by simp [resemblesSuffixLetter, hletter]⟩
    rw [List.cons_append]
    generalize suffix ++ stop = rest at hsecond ⊢
    cases rest with
    | nil => simp [Token.exponentLength, hasLostMark, run]
    | cons c rest =>
      obtain ⟨hdigit, hplus, hminus, hother⟩ := hsecond c rfl
      constructor
      · simp [Token.exponentLength, hplus, hminus, run, hdigit]
      · simp [hasLostMark, hplus, hminus, hother]

/-- A decimal number before the end of a line is called by its parts. -/
theorem decimalToken_lineEnd (hp : Parts whole point exponent)
    (hx : ∀ c ∈ suffix, isSuffixLetter c) (hs : LineEnd stop) :
    decimalToken (whole ++ point ++ exponent ++ suffix ++ stop) =
      (decimalKind point exponent suffix, (whole ++ point ++ exponent ++ suffix).length) := by
  have hbehind : ∀ c ∈ (suffix ++ stop).head?, isDigitOrSeparator c = false ∧ c ≠ '.' := by
    intro c hc
    cases suffix with
    | nil =>
      rw [hs c hc]
      decide
    | cons d suffix =>
      obtain rfl := Option.some.inj hc
      obtain ⟨hdigit, hpoint, -⟩ := Literal.plain_of_isSuffixLetter (hx d List.mem_cons_self)
      exact ⟨hdigit, hpoint⟩
  have hhead : ∀ c ∈ (exponent ++ (suffix ++ stop)).head?, isDigitOrSeparator c = false ∧
      (point = [] → c ≠ '.') := by
    rcases hp.exponent with rfl | ⟨mark, sign, negative, digits, rfl, hmark, -⟩
    · exact fun c hc => ⟨(hbehind c hc).1, fun _ => (hbehind c hc).2⟩
    · intro c hc
      obtain rfl : mark = c := Option.some.inj hc
      rcases hmark with rfl | rfl <;> exact ⟨rfl, fun _ => by decide⟩
  have hletters : run isSuffixLetter (suffix ++ stop) = suffix.length :=
    run_append hx (hs.head (by decide))
  have hsignificand := significandLength_append { hp with exponent := .inl rfl } hhead
  obtain ⟨hzero, hlost⟩ := exponentLength_letters hx hs
  have hexponent : Token.exponentLength (exponent ++ (suffix ++ stop)) = exponent.length := by
    rcases hp.exponent with rfl | hmarked
    · exact hzero
    · rw [exponentLength_eq]
      exact hmarked.exponentLength fun c hc => (Bool.or_eq_false_iff.1 (hbehind c hc).1).1
  have hnotlost : ¬(exponent.length = 0 ∧ hasLostMark (exponent ++ (suffix ++ stop))) := by
    rintro ⟨hlength, hmark⟩
    rw [List.length_eq_zero_iff.1 hlength, List.nil_append, hlost] at hmark
    cases hmark
  have hassoc : whole ++ point ++ exponent ++ suffix ++ stop =
      whole ++ point ++ (exponent ++ (suffix ++ stop)) := by simp
  unfold decimalToken
  rw [hassoc, hsignificand]
  dsimp only
  rw [List.drop_left, hexponent, List.drop_left, hletters, if_neg hnotlost]
  cases suffix with
  | cons d suffix => simp +arith [decimalKind]
  | nil => cases exponent <;> cases point <;> simp +arith [decimalKind]

/-! ### What they are called -/

/-- Before its exponent a number has digits, separators and a point. -/
theorem isDigitOrSeparator_or_point (hp : Parts whole point exponent) :
    ∀ c ∈ whole ++ point, isDigitOrSeparator c ∨ c = '.' := by
  intro c hc
  rcases List.mem_append.1 hc with hc | hc
  · exact .inl (hp.whole c hc)
  · rcases hp.point with rfl | ⟨more, rfl, hmore⟩
    · cases hc
    · rcases List.mem_cons.1 hc with rfl | hc
      · exact .inr rfl
      · exact .inl (hmore c hc)

/-- No number ends with its exponent mark. -/
theorem getLast?_of_parts (hp : Parts whole point exponent) :
    ∀ c ∈ (whole ++ point ++ exponent).getLast?, c ≠ 'e' ∧ c ≠ 'E' := by
  intro c hc
  rcases hp.exponent with rfl | ⟨mark, sign, negative, digits, rfl, -, -, hne, hdigits⟩
  · rw [List.append_nil] at hc
    have hplain := isDigitOrSeparator_or_point hp c (List.mem_of_mem_getLast? hc)
    constructor <;> rintro rfl <;> exact absurd hplain (by decide)
  · rw [← List.append_assoc, List.getLast?_append_of_ne_nil _ hne] at hc
    have hdigit := hdigits c (List.mem_of_mem_getLast? hc)
    constructor <;> rintro rfl <;> cases hdigit

/-- A number is finished if it does not end in the letter of an exponent. -/
theorem isUnfinished_eq_false {kind : TokenKind}
    (h : ∀ c ∈ text.getLast?, c ≠ 'e' ∧ c ≠ 'E') : kind.isUnfinished text = false := by
  have hany : text.getLast?.any (fun c => c == 'e' || c == 'E') = false := by
    cases hl : text.getLast? with
    | none => rfl
    | some c => simpa using h c hl
  simp [TokenKind.isUnfinished, hany]

/-- A number wavers only as an unfinished one or as a bare radix mark. -/
theorem wavers_eq_false {kind : TokenKind} (h : kind.isUnfinished text = false)
    (hb : kind = .integer → ¬Literal.BareRadix text) (hk : kind ≠ .identifier) :
    kind.wavers text = false := by
  have hbare : kind.isBareRadix text = false := by
    by_cases hinteger : kind = .integer
    · simp [TokenKind.isBareRadix, hb hinteger]
    · simp [TokenKind.isBareRadix, hinteger]
  simp [TokenKind.wavers, TokenKind.isLostWord, h, hbare, hk]

/-- A decimal number that is called by its parts does not waver. -/
theorem wavers_decimalKind (hp : Parts whole point exponent) :
    (decimalKind point exponent suffix).wavers (whole ++ point ++ exponent ++ suffix) = false := by
  unfold decimalKind
  split
  · rfl
  next hsuffix =>
  obtain rfl := not_not.1 hsuffix
  rw [List.append_nil]
  split
  · next hnil =>
    refine wavers_eq_false (isUnfinished_eq_false (getLast?_of_parts hp)) (fun _ => ?_) nofun
    rintro ⟨mark, hmark, heq⟩
    rw [hnil.1, hnil.2, List.append_nil, List.append_nil] at heq
    refine Literal.unmarked_of_isDigitOrSeparator (hp.whole mark ?_) hmark
    rw [heq]
    simp
  · exact wavers_eq_false (isUnfinished_eq_false (getLast?_of_parts hp)) nofun nofun

/-- One that ends in a lost mark wavers. -/
theorem wavers_lost {mark : Char} (hp : Parts whole point []) (hmark : mark = 'e' ∨ mark = 'E') :
    (decimalKind point [] []).wavers (whole ++ point ++ [mark]) := by
  have hplain : ∀ c ∈ whole ++ point ++ [mark], c ≠ 'x' ∧ c ≠ 'X' := by
    intro c hc
    rcases List.mem_append.1 hc with hc | hc
    · have hdigit := isDigitOrSeparator_or_point hp c hc
      constructor <;> rintro rfl <;> exact absurd hdigit (by decide)
    · rw [List.mem_singleton.1 hc]
      rcases hmark with rfl | rfl <;> decide
  have htake : ∀ radix, radix = 'x' ∨ radix = 'X' →
      (whole ++ point ++ [mark]).take 2 ≠ ['0', radix] := by
    intro radix hradix heq
    have hmem : radix ∈ (whole ++ point ++ [mark]).take 2 := heq ▸ by simp
    have hne := hplain radix (List.mem_of_mem_take hmem)
    rcases hradix with rfl | rfl
    · exact hne.1 rfl
    · exact hne.2 rfl
  have hkind : decimalKind point [] [] = .integer ∨ decimalKind point [] [] = .float := by
    unfold decimalKind
    cases point <;> simp
  have hunfinished : (decimalKind point [] []).isUnfinished (whole ++ point ++ [mark]) := by
    have hx := htake 'x' (.inl rfl)
    have hX := htake 'X' (.inr rfl)
    simp only [TokenKind.isUnfinished, List.getLast?_concat, bne_iff_ne.2 hx, bne_iff_ne.2 hX]
    rcases hkind with hkind | hkind <;> rcases hmark with rfl | rfl <;> rw [hkind] <;> rfl
  rw [TokenKind.wavers, hunfinished, Bool.true_or, Bool.true_or]

/-! ### Radix marks -/

section
variable {mark : Char} {isDigit : Char → Bool} {digits : List Char}

/-- Behind the mark of a radix its digits are counted, unless there are none. -/
theorem radixLength_mark (h : radixDigit? mark = some isDigit) (text : List Char) :
    radixLength ('0' :: mark :: text) =
      if run isDigit text = 0 ∧ !text.head?.any resemblesSuffixLetter then 0
      else run isDigit text + 2 := by
  rw [radixLength]
  simp only [h]

/-- Without a radix mark there is no radix. -/
theorem radixLength_eq_zero
    (h : ∀ mark digits, text = '0' :: mark :: digits → radixDigit? mark = none) :
    radixLength text = 0 := by
  unfold radixLength
  split
  · next mark digits =>
    rw [h mark digits rfl]
  · rfl

/-- They are counted in the same way where a line ends behind them. -/
theorem radixLength_lineEnd (h : radixDigit? mark = some isDigit) (hd : ∀ c ∈ digits, isDigit c)
    (hs : LineEnd stop) : radixLength ('0' :: mark :: (digits ++ stop)) =
      if digits = [] then 0 else digits.length + 2 := by
  rw [radixLength_mark h, run_append hd (hs.head (radixDigit?_newline h))]
  cases digits with
  | nil => rcases hs.eq_nil_or with rfl | ⟨rest, rfl⟩ <;> rfl
  | cons c digits => simp

/-- Where the digits of a radix end before the end of a line, no more of them are there. -/
theorem radixLength_lt (h : radixLength (word ++ rest) < word.length) (hs : LineEnd stop) :
    radixLength (word ++ stop) < word.length := by
  by_cases hmark : ∃ mark digits isDigit, word = '0' :: mark :: digits ∧
      radixDigit? mark = some isDigit
  · obtain ⟨mark, digits, isDigit, rfl, hmark⟩ := hmark
    obtain ⟨front, more, rfl, hfront, hmore⟩ := exists_run isDigit digits
    cases more with
    | nil =>
      rw [List.append_nil] at h ⊢
      cases front with
      | nil => exact (radixLength_lineEnd hmark hfront hs).symm ▸ Nat.zero_lt_succ _
      | cons c front =>
        have hall : (c :: front).length ≤ run isDigit (c :: front ++ rest) := by
          unfold run
          rw [List.takeWhile_append_of_pos hfront, List.length_append]
          exact Nat.le_add_right _ _
        have hpos : ¬(run isDigit (c :: front ++ rest) = 0 ∧
            !(c :: front ++ rest).head?.any resemblesSuffixLetter) := by
          rintro ⟨hzero, -⟩
          rw [hzero] at hall
          cases hall
        rw [List.cons_append, List.cons_append, radixLength_mark hmark, if_neg hpos] at h
        simp only [List.length_cons] at h hall
        omega
    | cons c more =>
      have hrun : run isDigit ((front ++ c :: more) ++ stop) = front.length := by
        rw [List.append_assoc]
        exact run_append hfront hmore
      rw [List.cons_append, List.cons_append, radixLength_mark hmark, hrun]
      split <;> simp
  · have hzero : radixLength (word ++ stop) = 0 := by
      refine radixLength_eq_zero fun mark digits heq => ?_
      match word with
      | [] => simp at h
      | [c] =>
        rcases hs.eq_nil_or with rfl | ⟨rest, rfl⟩
        · cases heq
        · obtain ⟨-, heq⟩ := List.cons.inj heq
          obtain ⟨rfl, -⟩ := List.cons.inj heq
          rfl
      | c :: d :: word =>
        simp only [List.cons_append, List.cons.injEq] at heq
        obtain ⟨rfl, rfl, -⟩ := heq
        exact Option.eq_none_iff_forall_ne_some.2 fun isDigit hd => hmark ⟨_, _, isDigit, rfl, hd⟩
    omega

end

/-! ### Both readings -/

/-- What stands in front of the end of a line without a line break goes no further. -/
theorem length_le_of_lineEnd {front back : List Char} (h : word ++ stop = front ++ back)
    (hf : '\n' ∉ front) (hs : LineEnd stop) : front.length ≤ word.length := by
  rcases List.append_eq_append_iff.1 h with ⟨more, rfl, hmore⟩ | ⟨more, rfl, -⟩
  · cases more with
    | nil => simp
    | cons c more =>
      rw [hmore] at hs
      obtain rfl : c = '\n' := hs c rfl
      exact absurd (by simp) hf
  · simp

/-- A decimal number does not reach beyond its line. -/
theorem decimalToken_le (word : List Char) (hs : LineEnd stop) :
    (decimalToken (word ++ stop)).2 ≤ word.length := by
  obtain ⟨whole, point, exponent, suffix, rest, htext, hp, hx, -, hlength, -⟩ :=
    exists_decimalToken (word ++ stop)
  have hletters : '\n' ∉ suffix := fun hm => absurd (hx _ hm) (by decide)
  rw [hlength]
  exact length_le_of_lineEnd htext (List.not_mem_append (newline_not_mem_of_parts hp) hletters) hs

/-- A number with digits behind a radix mark does not waver. -/
theorem wavers_radix {mark : Char} {isDigit : Char → Bool} {digits : List Char}
    (hmark : radixDigit? mark = some isDigit) (hd : ∀ c ∈ digits, isDigit c) (hne : digits ≠ []) :
    TokenKind.integer.wavers ('0' :: mark :: digits) = false := by
  refine wavers_eq_false ?_ (fun _ => ?_) nofun
  · unfold radixDigit? at hmark
    split at hmark
    · next hx =>
      rw [Bool.or_eq_true, beq_iff_eq, beq_iff_eq] at hx
      rcases hx with rfl | rfl <;> simp [TokenKind.isUnfinished]
    · refine isUnfinished_eq_false fun c hc => ?_
      rw [List.getLast?_cons_of_ne_nil (List.cons_ne_nil _ _),
        List.getLast?_cons_of_ne_nil hne] at hc
      have hlast : isDigit c := hd c (List.mem_of_mem_getLast? hc)
      repeat' split at hmark
      all_goals cases hmark
      all_goals constructor <;> rintro rfl <;> cases hlast
  · rintro ⟨mark', -, heq⟩
    exact hne (List.cons.inj (List.cons.inj heq).2).2

/-- A number in a radix is one, if it is at least as long as a decimal one. -/
theorem numberToken_of_le (h : (decimalToken text).2 ≤ radixLength text) :
    numberToken text = (.integer, radixLength text) := if_pos h

/-- Else it is a decimal number. -/
theorem numberToken_of_lt (h : radixLength text < (decimalToken text).2) :
    numberToken text = decimalToken text := if_neg (Nat.not_le_of_lt h)

/-- A number in a radix is a mark with digits of the radix. -/
theorem exists_radix (h : 0 < radixLength text) : ∃ mark isDigit digits rest,
    text = '0' :: mark :: (digits ++ rest) ∧ radixDigit? mark = some isDigit ∧
      (∀ c ∈ digits, isDigit c) ∧ radixLength text = digits.length + 2 := by
  by_cases hmark : ∃ mark more isDigit, text = '0' :: mark :: more ∧ radixDigit? mark = some isDigit
  · obtain ⟨mark, more, isDigit, rfl, hmark⟩ := hmark
    obtain ⟨digits, rest, rfl, hdigits, hrest⟩ := exists_run isDigit more
    refine ⟨mark, isDigit, digits, rest, rfl, hmark, hdigits, ?_⟩
    rw [radixLength_mark hmark, run_append hdigits hrest] at h ⊢
    split at h
    · cases h
    · next hkept => rw [if_neg hkept]
  · rw [radixLength_eq_zero fun mark digits htext => Option.eq_none_iff_forall_ne_some.2
      fun isDigit hd => hmark ⟨mark, digits, isDigit, htext, hd⟩] at h
    cases h

/-- The mark of a radix could be the letter of a unit. -/
theorem isSuffixLetter_of_mem_marks : ∀ mark ∈ Literal.marks, isSuffixLetter mark :=
  List.all_eq_true.1 rfl

/-- A radix mark without digits, before the end of a line, is a suffix. -/
theorem numberToken_bareRadix {mark : Char} {isDigit : Char → Bool}
    (hmark : radixDigit? mark = some isDigit) (hs : LineEnd stop) :
    numberToken (['0', mark] ++ stop) = (.suffixed, 2) := by
  obtain ⟨-, -, hmem, -⟩ := Literal.exists_split hmark []
  have hletter := isSuffixLetter_of_mem_marks mark hmem
  have hdecimal : decimalToken (['0'] ++ [] ++ [] ++ [mark] ++ stop) = _ :=
    decimalToken_lineEnd ⟨List.forall_mem_singleton.2 rfl, .inl rfl, .inl rfl⟩
      (List.forall_mem_singleton.2 hletter) hs
  have hradix : radixLength ('0' :: mark :: ([] ++ stop)) = 0 :=
    radixLength_lineEnd hmark nofun hs
  change decimalToken (['0', mark] ++ stop) = (.suffixed, 2) at hdecimal
  change radixLength (['0', mark] ++ stop) = 0 at hradix
  rw [numberToken_of_lt (by rw [hradix, hdecimal]; exact Nat.zero_lt_two), hdecimal]

/-- A number is cut off again before the end of a line, and called the same unless it wavers. -/
theorem exists_numberToken (hb : BeginsNumber text) : ∃ word rest, text = word ++ rest ∧
    BeginsNumber word ∧ (numberToken text).2 = word.length ∧ ∀ stop, LineEnd stop →
      (numberToken (word ++ stop)).2 = word.length ∧ ∀ n, Retold word
        ⟨.token (numberToken text).1, n⟩ ⟨.token (numberToken (word ++ stop)).1, n⟩ := by
  have hnumber := (numberToken_numbered hb).2
  rcases Nat.lt_or_ge (radixLength text) (decimalToken text).2 with hlt | hle
  · rw [numberToken_of_lt hlt] at hnumber ⊢
    obtain ⟨whole, point, exponent, suffix, rest, rfl, hp, hx, -, hlength, hkind⟩ :=
      exists_decimalToken text
    rw [hlength, List.take_left] at hnumber
    refine ⟨_, rest, rfl, hnumber, hlength, fun stop hs => ?_⟩
    have hdecimal := decimalToken_lineEnd hp hx hs
    rw [numberToken_of_lt (by rw [hdecimal]; exact radixLength_lt (hlength ▸ hlt) hs), hdecimal]
    refine ⟨rfl, fun n => ?_⟩
    rcases hkind with hkind | ⟨hkind, rfl, hsuffix⟩
    · rw [hkind]
      exact .same fun _ hk => Verdict.token.inj hk ▸ wavers_decimalKind hp
    · rw [hkind]
      refine .changed rfl ?_ ?_
      · rw [List.append_nil]
        rcases hsuffix with rfl | rfl
        · exact wavers_lost hp (.inl rfl)
        · exact wavers_lost hp (.inr rfl)
      · rcases hsuffix with rfl | rfl <;> cases point <;> nofun
  · rw [numberToken_of_le hle] at hnumber ⊢
    have hpos : 0 < radixLength text := by
      refine Nat.pos_of_ne_zero fun hzero => ?_
      rw [hzero] at hnumber
      cases hnumber
    obtain ⟨mark, isDigit, digits, rest, rfl, hmark, hdigits, hlength⟩ := exists_radix hpos
    refine ⟨'0' :: mark :: digits, rest, rfl, .digit rfl, hlength, fun stop hs => ?_⟩
    by_cases hnil : digits = []
    · subst hnil
      rw [numberToken_bareRadix hmark hs]
      obtain ⟨-, -, hmem, -⟩ := Literal.exists_split hmark []
      have hbare : Literal.BareRadix ['0', mark] := ⟨mark, hmem, rfl⟩
      refine ⟨rfl, fun n => .changed rfl ?_ nofun⟩
      simp [TokenKind.wavers, TokenKind.isBareRadix, hbare]
    · have hradix : radixLength (('0' :: mark :: digits) ++ stop) = digits.length + 2 :=
        (radixLength_lineEnd hmark hdigits hs).trans (if_neg hnil)
      have hdecimal := decimalToken_le ('0' :: mark :: digits) hs
      rw [numberToken_of_le (hradix ▸ hdecimal)]
      exact ⟨hradix, fun n =>
        .same fun _ hk => Verdict.token.inj hk ▸ wavers_radix hmark hdigits hnil⟩

/-- Where a number begins the scanner sees one. -/
theorem startsNumber_of_beginsNumber (h : BeginsNumber (c :: text)) : startsNumber c text := by
  cases h with
  | digit hdigit => simp [startsNumber, hdigit]
  | point hdigit => simp [startsNumber, hdigit]

/-- A number is settled. -/
theorem scan_number_settled (hstart : isIdentifierStart c = false) (h : startsNumber c text) :
    Settled (scan c) c text := by
  have hscan : ∀ text, startsNumber c text → scan c text =
      ⟨.token (numberToken (c :: text)).1, (numberToken (c :: text)).2 - 1⟩ := fun text h => by
    unfold scan
    rw [if_neg (by simp [hstart]), if_pos h]
  obtain ⟨word, rest, htext, hbegins, hlength, hstop⟩ :=
    exists_numberToken (beginsNumber_of_startsNumber h)
  cases word with
  | nil => cases hbegins
  | cons d word =>
    obtain ⟨rfl, htail⟩ := List.cons.inj htext
    obtain rfl : text = word ++ rest := htail
    refine ⟨word, rest, rfl, ?_, fun stop hs => ?_⟩
    · rw [hscan _ h, hlength, List.length_cons, Nat.add_sub_cancel]
    · obtain ⟨htold, hretold⟩ := hstop stop hs
      have hnumber : startsNumber c (word ++ stop) :=
        startsNumber_of_beginsNumber (hbegins.append stop)
      rw [List.cons_append] at htold hretold
      rw [hscan _ h, hscan _ hnumber, hlength, htold]
      exact hretold _

/-! ## All pieces -/

/-- Where neither a word nor a number begins, one look at the character tells how to scan on. -/
theorem scan_eq (hstart : isIdentifierStart c = false) (hdigit : c.isDigit = false)
    (hpoint : c ≠ '.') : scan c =
      if c = '/' then scanSlash else if c = '"' ∨ c = '\'' then scanString c
      else if c = '@' then scanAt else if c = '$' then scanDollar
      else if c = '#' then scanHash else scanSymbol c := by
  funext text
  unfold scan
  rw [if_neg (by simp [hstart]), if_neg (by simp [startsNumber, hdigit, hpoint])]
  split_ifs <;> rfl

/-- A point without digits is a symbol. -/
theorem scan_point (h : startsNumber '.' text = false) :
    scan '.' text = ⟨.token Symbol.dot, 0⟩ := by
  have hstart : isIdentifierStart '.' = false := by decide
  unfold scan
  rw [if_neg (by simp [hstart]), if_neg (by simp [h])]
  rfl

/-- Whatever is marked off is marked off again where a line ends right behind it, but for a comment
that is never closed. -/
theorem scan_settled (h : (scan c text).verdict ≠ .fault .unterminatedComment) :
    Settled (scan c) c text := by
  by_cases hword : isIdentifierStart c
  · have hscan : scan c = scanWord c := funext fun text => if_pos hword
    rw [hscan]
    exact scanWord_settled c text
  have hstart := Bool.eq_false_iff.2 hword
  by_cases hnumber : startsNumber c text
  · exact scan_number_settled hstart hnumber
  have hnone := Bool.eq_false_iff.2 hnumber
  by_cases hpoint : c = '.'
  · subst hpoint
    refine .steady [] (scan_point hnone) (fun stop hs => scan_point ?_)
      fun _ hk => Verdict.token.inj hk ▸ rfl
    rcases hs.eq_nil_or with rfl | ⟨rest, rfl⟩ <;> rfl
  have hdigit : c.isDigit = false := (Bool.or_eq_false_iff.1 hnone).1
  rw [scan_eq hstart hdigit hpoint] at h ⊢
  split_ifs at h ⊢ with hslash hquote hat hdollar hhash
  · subst hslash
    exact scanSlash_settled h
  · exact scanString_settled c text
  · subst hat
    exact scanAt_settled text
  · subst hdollar
    exact scanDollar_settled text
  · subst hhash
    exact scanHash_settled text
  · exact scanSymbol_settled c text

/-- A character that begins no token begins none where a line ends before the text goes on. -/
theorem scan_invalid (h : (scan c (word ++ rest)).verdict = .fault .invalidCharacter)
    (hs : LineEnd stop) : (scan c (word ++ stop)).verdict = .fault .invalidCharacter := by
  have hfaulty := scan_faulty c (word ++ rest)
  rw [Piece.Faulty, h] at hfaulty
  have hopener := hfaulty.1
  simp only [openers, List.mem_cons, List.not_mem_nil, or_false, not_or] at hopener
  obtain ⟨hdouble, hsingle, hslash, -⟩ := hopener
  by_cases hword : isIdentifierStart c
  · have hscan : scan c (word ++ rest) = scanWord c (word ++ rest) := if_pos hword
    exact absurd (hscan ▸ h) scanWord_ne_fault
  have hstart := Bool.eq_false_iff.2 hword
  by_cases hnumber : startsNumber c (word ++ rest)
  · unfold scan at h
    rw [if_neg hword, if_pos hnumber] at h
    cases h
  have hnone := Bool.eq_false_iff.2 hnumber
  by_cases hpoint : c = '.'
  · subst hpoint
    rw [scan_point hnone] at h
    cases h
  have hdigit : c.isDigit = false := (Bool.or_eq_false_iff.1 hnone).1
  rw [scan_eq hstart hdigit hpoint, if_neg hslash, if_neg (not_or.2 ⟨hdouble, hsingle⟩)] at h ⊢
  split_ifs at h ⊢
  · exact absurd h scanAt_ne_fault
  · exact scanDollar_invalid h hs
  · exact scanHash_invalid h hs
  · exact scanSymbol_invalid h hs

end

end Token

end OpenQasm
