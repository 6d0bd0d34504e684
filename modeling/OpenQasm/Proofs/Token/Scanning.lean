import OpenQasm.Text.Blank
import OpenQasm.Token.Scan

/-!
# What a scan tells

A scan tells no errors and no calibration bodies, which take the lexer. It tells a keyword only by
its word or its sign, and nothing at all at a blank.
-/

namespace OpenQasm.Token

/-- What a scan may call a piece of text. -/
structure Told (text : List Char) (kind : TokenKind) : Prop where
  ne_error : kind ≠ .error
  ne_calibrationBody : kind ≠ .calibrationBody
  keyword : ∀ keyword, kind = .keyword keyword →
    Keyword.ofWord? text = some keyword ∨ Keyword.ofSign? text = some keyword
  leftBrace : kind = Symbol.leftBrace → text.head? = some '{'

section
variable {c : Char} {text word rest : List Char} {kind : TokenKind}

/-- The kind of a word is told. -/
theorem wordKind_told : Told word (wordKind word rest) := by
  unfold wordKind
  split
  · next keyword hsign =>
    exact ⟨nofun, nofun, fun _ hk => .inr (TokenKind.keyword.inj hk ▸ hsign), nofun⟩
  · next keyword _ hword =>
    split
    · exact ⟨nofun, nofun, nofun, nofun⟩
    · exact ⟨nofun, nofun, fun _ hk => .inl (TokenKind.keyword.inj hk ▸ hword), nofun⟩
  · exact ⟨nofun, nofun, nofun, nofun⟩

/-- So is that of a word, or of a pragma. -/
theorem scanWord_told (h : (scanWord c text).verdict = .token kind) :
    Told (c :: text.take (scanWord c text).tail) kind := by
  unfold scanWord at h ⊢
  dsimp only at h ⊢
  split at h
  · cases h
    exact ⟨nofun, nofun, nofun, nofun⟩
  · next hpragma =>
    cases h
    rw [if_neg hpragma]
    exact wordKind_told

/-- So is that of a decimal number. -/
theorem decimalToken_told : Told word (decimalToken text).1 := by
  unfold decimalToken
  generalize significandLength text = significand
  obtain ⟨n, point⟩ := significand
  cases point <;> (dsimp only; repeat' split) <;> exact ⟨nofun, nofun, nofun, nofun⟩

/-- So is that of any number. -/
theorem numberToken_told : Told word (numberToken text).1 := by
  have hdecimal := @decimalToken_told text word
  unfold numberToken
  dsimp only
  split
  · exact ⟨nofun, nofun, nofun, nofun⟩
  · exact hdecimal

/-- So is that of what starts with a slash. -/
theorem scanSlash_told (h : (scanSlash text).verdict = .token kind) : Told word kind := by
  unfold scanSlash at h
  split at h
  · cases h
    exact ⟨nofun, nofun, nofun, nofun⟩
  · split at h
    · cases h
      exact ⟨nofun, nofun, nofun, nofun⟩
    · cases h
  · cases h
    exact ⟨nofun, nofun, nofun, nofun⟩
  · cases h
    exact ⟨nofun, nofun, nofun, nofun⟩

/-- So is that of a string. -/
theorem scanString_told {quote : Char} (h : (scanString quote text).verdict = .token kind) :
    Told word kind := by
  unfold scanString at h
  dsimp only at h
  split at h
  · cases h
    exact ⟨nofun, nofun, nofun, nofun⟩
  · cases h

/-- So is that of what starts with an at sign. -/
theorem scanAt_told (h : (scanAt text).verdict = .token kind) : Told word kind := by
  unfold scanAt at h
  split at h
  · split at h
    · dsimp only at h
      split at h
      all_goals
        cases h
        exact ⟨nofun, nofun, nofun, nofun⟩
    · cases h
      exact ⟨nofun, nofun, nofun, nofun⟩
  · cases h
    exact ⟨nofun, nofun, nofun, nofun⟩

/-- So is that of a hardware qubit. -/
theorem scanDollar_told (h : (scanDollar text).verdict = .token kind) : Told word kind := by
  unfold scanDollar at h
  dsimp only at h
  split at h
  · cases h
    exact ⟨nofun, nofun, nofun, nofun⟩
  · cases h

/-- So is that of a symbol. -/
theorem scanSymbol_told (h : (scanSymbol c text).verdict = .token kind) :
    Told (c :: word) kind := by
  unfold scanSymbol at h
  split at h
  · next symbol hsymbol =>
    cases h
    refine ⟨nofun, nofun, nofun, fun hk => ?_⟩
    obtain rfl := TokenKind.symbol.inj hk
    obtain ⟨rest, hrest⟩ := Symbol.isPrefix_of_atHead? hsymbol
    exact congrArg List.head? hrest.symm
  · cases h

/-- So is that of what starts with a number sign. -/
theorem scanHash_told (h : (scanHash text).verdict = .token kind) : Told ('#' :: word) kind := by
  unfold scanHash at h
  split at h
  · cases h
    exact ⟨nofun, nofun, nofun, nofun⟩
  · exact scanSymbol_told h

/-- What a scan calls a piece of text. -/
theorem scan_told (h : (scan c text).verdict = .token kind) :
    Told (c :: text.take (scan c text).tail) kind := by
  unfold scan at h ⊢
  split at h
  · next hword =>
    rw [if_pos hword]
    exact scanWord_told h
  split at h
  · obtain rfl := Verdict.token.inj h
    exact numberToken_told
  split at h
  · exact scanSlash_told h
  split at h
  · exact scanString_told h
  split at h
  · exact scanAt_told h
  split at h
  · exact scanDollar_told h
  split at h
  · next hhash =>
    rw [hhash]
    exact scanHash_told h
  · exact scanSymbol_told h

end

/-! ## Blanks -/

/-- The code points of the blanks. -/
def blankPoints : List Nat :=
  [0x9, 0xA, 0xB, 0xC, 0xD, 0x20, 0x85, 0xA0, 0x1680, 0x2000, 0x2001, 0x2002, 0x2003, 0x2004,
    0x2005, 0x2006, 0x2007, 0x2008, 0x2009, 0x200A, 0x2028, 0x2029, 0x202F, 0x205F, 0x3000]

/-- A blank has one of the listed numbers. -/
theorem mem_blankPoints {c : Char} (h : Text.isBlank c) : c.toNat ∈ blankPoints := by
  simp only [Text.isBlank, Text.blankRanges, Text.Ranges.has_iff, List.mem_cons, List.not_mem_nil,
    or_false, exists_eq_or_imp, exists_eq_left] at h
  simp only [blankPoints, List.mem_cons, List.not_mem_nil, or_false]
  omega

/-- A blank is no letter and no digit, and none of the characters that begin another token. -/
theorem begins_of_mem_blankPoints : ∀ point ∈ blankPoints,
    isIdentifierStart (.ofNat point) = false ∧ (Char.ofNat point).isDigit = false ∧
      Char.ofNat point ∉ ['.', '/', '"', '\'', '@', '$', '#'] ∧
      ∀ symbol ∈ Symbol.byLength, symbol.text.toList.head?.any (· != .ofNat point) := by
  decide +kernel

/-- Nothing begins with a blank. -/
theorem scan_of_isBlank {c : Char} (h : Text.isBlank c) (text : List Char) :
    (scan c text).verdict = .fault .invalidCharacter := by
  have hbegins := begins_of_mem_blankPoints c.toNat (mem_blankPoints h)
  rw [Char.ofNat_toNat] at hbegins
  obtain ⟨hstart, hdigit, hmarks, hsymbols⟩ := hbegins
  simp only [List.mem_cons, List.not_mem_nil, or_false, not_or] at hmarks
  obtain ⟨hpoint, hslash, hdouble, hsingle, hat, hdollar, hhash⟩ := hmarks
  have hnumber : startsNumber c text = false := by
    rw [startsNumber, hdigit, beq_eq_false_iff_ne.2 hpoint]
    rfl
  have hnone : Symbol.atHead? (c :: text) = none := by
    refine List.find?_eq_none.2 fun symbol hm => ?_
    have hhead := hsymbols symbol hm
    cases hs : symbol.text.toList with
    | nil =>
      rw [hs] at hhead
      cases hhead
    | cons s rest =>
      rw [hs] at hhead
      have hne : s ≠ c := by simpa using hhead
      simp [List.isPrefixOf, hne]
  unfold scan
  rw [if_neg (by simp [hstart]), if_neg (by simp [hnumber]), if_neg hslash,
    if_neg (by simp [hdouble, hsingle]), if_neg hat, if_neg hdollar, if_neg hhash, scanSymbol,
    hnone]

end OpenQasm.Token
