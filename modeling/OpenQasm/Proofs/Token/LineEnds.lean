import OpenQasm.Proofs.Literal.Problems
import OpenQasm.Proofs.Token.Lines

/-!
# Pieces at the ends of lines

What a scan marks off it marks off again where a line ends right behind it. Words, remarks and
symbols go no further than their line, and strings and block comments end with their own marks. But
what some pieces are called depends on what follows them. A reserved word is an identifier before a
character that only begins like a letter, and two kinds of numbers waver in the same way.
-/

namespace OpenQasm

/-! ## Pieces that waver -/

instance (text : List Char) : Decidable (Literal.BareRadix text) :=
  decidable_of_iff (Literal.marks.any fun mark => text == ['0', mark]) (by simp [Literal.BareRadix])

namespace TokenKind

/-- Whether a number that is not hexadecimal ends in an exponent mark, but is no number with a
suffix. -/
def isUnfinished (kind : TokenKind) (text : List Char) : Bool :=
  (kind == .integer || kind == .float) && text.getLast?.any (fun c => c == 'e' || c == 'E') &&
    text.take 2 != ['0', 'x'] && text.take 2 != ['0', 'X']

/-- Whether an integer is a radix mark without digits. -/
def isBareRadix (kind : TokenKind) (text : List Char) : Bool :=
  kind == .integer && decide (Literal.BareRadix text)

/-- Whether an identifier is a reserved word. -/
def isLostWord (kind : TokenKind) (text : List Char) : Bool :=
  kind == .identifier && (Keyword.ofWord? text).isSome

/-- Whether what a piece is called depends on what follows it. -/
def wavers (kind : TokenKind) (text : List Char) : Bool :=
  kind.isUnfinished text || kind.isBareRadix text || kind.isLostWord text

end TokenKind

namespace Token

/-- The end of a line or of the text. -/
def LineEnd (stop : List Char) : Prop := ∀ c ∈ stop.head?, c = '\n'

/-- What a piece is told to be where a line ends right behind it: the same, unless it wavers. -/
inductive Retold (text : List Char) (piece : Piece) : Piece → Prop
  | same : (∀ kind, piece.verdict = .token kind → kind.wavers text = false) →
      Retold text piece piece
  | changed {kind : TokenKind} {told : Piece} : piece.verdict = .token kind → kind.wavers text →
      told.verdict ≠ piece.verdict → Retold text piece told

/-- What does not waver is told the same. -/
theorem Retold.eq_of_steady {text : List Char} {piece told : Piece} (h : Retold text piece told)
    (hk : ∀ kind, piece.verdict = .token kind → kind.wavers text = false) : told = piece := by
  cases h with
  | same => rfl
  | changed hkind hwavers _ => cases (hk _ hkind).symm.trans hwavers

/-- A scan marks off a head of the text, and tells the same of it where a line ends right behind it,
unless it wavers. -/
def Settled (scan : List Char → Piece) (first : Char) (text : List Char) : Prop :=
  ∃ word rest, text = word ++ rest ∧ (scan text).tail = word.length ∧
    ∀ stop, LineEnd stop → Retold (first :: word) (scan text) (scan (word ++ stop))

section
variable {c first : Char} {p : Char → Bool} {text word line rest stop : List Char}

/-- A line ends where the text does. -/
theorem LineEnd.nil : LineEnd [] := nofun

/-- A line ends at a line break. -/
theorem LineEnd.newline (rest : List Char) : LineEnd ('\n' :: rest) := fun _ hc =>
  (Option.some.inj hc).symm

/-- What a line break is not, the first character behind a line is not. -/
theorem LineEnd.head (h : LineEnd stop) (hp : p '\n' = false) : ∀ c ∈ stop.head?, p c = false := by
  intro c hc
  rw [h c hc, hp]

/-- Behind a line stands nothing or a line break. -/
theorem LineEnd.eq_nil_or (h : LineEnd stop) : stop = [] ∨ ∃ rest, stop = '\n' :: rest := by
  cases stop with
  | nil => exact .inl rfl
  | cons c rest => exact .inr ⟨rest, congrArg (· :: rest) (h c rfl)⟩

/-- A piece of a kind that does not waver, told the same wherever a line ends behind it. -/
theorem Settled.steady {scan : List Char → Piece} {verdict : Verdict} (word : List Char)
    (hrest : scan (word ++ rest) = ⟨verdict, word.length⟩)
    (hstop : ∀ stop, LineEnd stop → scan (word ++ stop) = ⟨verdict, word.length⟩)
    (hk : ∀ kind, verdict = .token kind → kind.wavers (first :: word) = false) :
    Settled scan first (word ++ rest) := by
  refine ⟨word, rest, rfl, by rw [hrest], fun stop hs => ?_⟩
  rw [hrest, hstop stop hs]
  exact .same hk

/-! ## Lines -/

/-- A text is the rest of its first line, and what begins with a line break, if anything does. -/
theorem exists_line (text : List Char) : ∃ line stop, text = line ++ stop ∧ '\n' ∉ line ∧
    LineEnd stop := by
  obtain ⟨line, stop, htext, hl, hs⟩ := exists_run (· != '\n') text
  exact ⟨line, stop, htext, fun hm => absurd (hl _ hm) (by decide),
    fun c hc => by simpa using hs c hc⟩

/-- The length of a line is counted up to its end. -/
theorem lineLength_append (hl : '\n' ∉ line) (hs : LineEnd stop) :
    lineLength (line ++ stop) = line.length := by
  refine run_append (fun c hc => ?_) (hs.head rfl)
  rw [bne_iff_ne]
  rintro rfl
  exact hl hc

/-! ## Words and remarks -/

/-- Whether a remark follows is told within the line. -/
theorem startsRemark_append (hs : LineEnd stop) :
    startsRemark (line ++ stop) = startsRemark line := by
  cases line with
  | nil => rcases hs.eq_nil_or with rfl | ⟨rest, rfl⟩ <;> rfl
  | cons c line => unfold startsRemark; split <;> split <;> simp_all

/-- No remark follows where a line ends. -/
theorem startsRemark_lineEnd (hs : LineEnd stop) : startsRemark stop = false := by
  rcases hs.eq_nil_or with rfl | ⟨rest, rfl⟩ <;> rfl

/-- A remark starts with a blank. -/
theorem head_of_startsRemark (h : startsRemark line) (hs : p ' ' = false) (ht : p '\t' = false) :
    ∀ c ∈ (line ++ rest).head?, p c = false := by
  unfold startsRemark at h
  split at h
  · rintro c ⟨⟩
    exact hs
  · rintro c ⟨⟩
    exact ht
  · cases h

/-- A word is scanned up to the first character that is no part of it, or as a pragma line. -/
theorem scanWord_append (hw : ∀ d ∈ word, isIdentifierPart d)
    (hr : ∀ d ∈ rest.head?, isIdentifierPart d = false) :
    scanWord c (word ++ rest) =
      if c :: word = ['p', 'r', 'a', 'g', 'm', 'a'] ∧ startsRemark rest then
        ⟨.token .pragma, word.length + lineLength rest⟩
      else ⟨.token (wordKind (c :: word) rest), word.length⟩ := by
  unfold scanWord
  rw [run_append hw hr]
  dsimp only
  rw [List.take_left, List.drop_left]

/-- A line break does not begin like a part of a word. -/
theorem mayBeginPart_newline : mayBeginPart '\n' = false := by decide +kernel

/-- A word before the end of a line is a keyword if it is reserved. -/
theorem wordKind_retold (hs : LineEnd stop) {n : Nat} :
    Retold word ⟨.token (wordKind word rest), n⟩ ⟨.token (wordKind word stop), n⟩ := by
  have hany : stop.head?.any mayBeginPart = false := by
    rcases hs.eq_nil_or with rfl | ⟨more, rfl⟩
    · rfl
    · exact mayBeginPart_newline
  unfold wordKind
  rw [hany]
  split
  · next hsign => exact .same fun _ hk => Verdict.token.inj hk ▸ rfl
  · next keyword _ hword =>
    split
    · refine .changed rfl ?_ nofun
      simp [TokenKind.wavers, TokenKind.isLostWord, hword]
    · exact .same fun _ hk => Verdict.token.inj hk ▸ rfl
  · next hword =>
    refine .same fun _ hk => Verdict.token.inj hk ▸ ?_
    simp [TokenKind.wavers, TokenKind.isUnfinished, TokenKind.isBareRadix, TokenKind.isLostWord,
      hword]

/-- A word is settled. -/
theorem scanWord_settled (c : Char) (text : List Char) : Settled (scanWord c) c text := by
  obtain ⟨word, rest, rfl, hw, hr⟩ := exists_run isIdentifierPart text
  by_cases hpragma : c :: word = ['p', 'r', 'a', 'g', 'm', 'a'] ∧ startsRemark rest
  · obtain ⟨line, rest, rfl, hl, hend⟩ := exists_line rest
    obtain ⟨hname, hremark⟩ := hpragma
    rw [startsRemark_append hend] at hremark
    have hscan : ∀ stop, LineEnd stop →
        scanWord c ((word ++ line) ++ stop) = ⟨.token .pragma, (word ++ line).length⟩ := by
      intro stop hs
      rw [List.append_assoc,
        scanWord_append hw (head_of_startsRemark hremark (by decide) (by decide)),
        if_pos ⟨hname, (startsRemark_append hs).trans hremark⟩, lineLength_append hl hs,
        List.length_append]
    rw [← List.append_assoc]
    exact .steady _ (hscan rest hend) hscan fun _ hk => Verdict.token.inj hk ▸ rfl
  · refine ⟨word, rest, rfl, ?_, fun stop hs => ?_⟩
    · rw [scanWord_append hw hr, if_neg hpragma]
    · have hstop := startsRemark_lineEnd hs
      rw [scanWord_append hw hr, if_neg hpragma,
        scanWord_append hw (hs.head isIdentifierPart_newline), if_neg (by simp [hstop])]
      exact wordKind_retold hs

/-- A word is never at fault. -/
theorem scanWord_ne_fault {fault : Fault} : (scanWord c text).verdict ≠ .fault fault := by
  unfold scanWord
  dsimp only
  split <;> nofun

/-- The keyword of an annotation, with its remark if there is one. -/
theorem scanAt_append (hc : isIdentifierStart c) (hw : ∀ d ∈ word, isAnnotationPart d)
    (hr : ∀ d ∈ rest.head?, isAnnotationPart d = false) :
    scanAt (c :: (word ++ rest)) =
      if startsRemark rest then ⟨.token .annotationLine, 1 + word.length + lineLength rest⟩
      else ⟨.token .annotationLine, 1 + word.length⟩ := by
  unfold scanAt
  dsimp only
  rw [if_pos hc, run_append hw hr, List.drop_left]

/-- An annotation is settled, and so is a bare at sign. -/
theorem scanAt_settled (text : List Char) : Settled scanAt '@' text := by
  have halone : ∀ stop : List Char, (∀ c ∈ stop.head?, isIdentifierStart c = false) →
      scanAt ([] ++ stop) = ⟨.token Symbol.atSign, 0⟩ := by
    intro stop hs
    cases stop with
    | nil => rfl
    | cons c stop => exact if_neg (Bool.eq_false_iff.1 (hs c rfl))
  by_cases hstart : text.head?.any isIdentifierStart
  · obtain ⟨c, text, rfl, hc⟩ : ∃ c more, text = c :: more ∧ isIdentifierStart c := by
      cases text with
      | nil => cases hstart
      | cons c text => exact ⟨c, text, rfl, hstart⟩
    obtain ⟨word, rest, rfl, hw, hr⟩ := exists_run isAnnotationPart text
    by_cases hremark : startsRemark rest
    · obtain ⟨line, rest, rfl, hl, hend⟩ := exists_line rest
      rw [startsRemark_append hend] at hremark
      have hscan : ∀ stop, LineEnd stop → scanAt (c :: (word ++ line) ++ stop) =
          ⟨.token .annotationLine, (c :: (word ++ line)).length⟩ := by
        intro stop hs
        rw [List.cons_append, List.append_assoc,
          scanAt_append hc hw
            (head_of_startsRemark hremark (by decide +kernel) (by decide +kernel)),
          if_pos ((startsRemark_append hs).trans hremark), lineLength_append hl hs]
        simp
        omega
      rw [← List.append_assoc, ← List.cons_append]
      exact .steady _ (hscan rest hend) hscan fun _ hk => Verdict.token.inj hk ▸ rfl
    · have hscan : ∀ stop : List Char, startsRemark stop = false →
          (∀ d ∈ stop.head?, isAnnotationPart d = false) → scanAt ((c :: word) ++ stop) =
            ⟨.token .annotationLine, (c :: word).length⟩ := by
        intro stop hs hd
        rw [List.cons_append, scanAt_append hc hw hd, if_neg (by simp [hs]), List.length_cons,
          Nat.add_comm]
      rw [← List.cons_append]
      refine .steady _ (hscan rest (Bool.eq_false_iff.2 hremark) hr) (fun stop hs => ?_)
        fun _ hk => Verdict.token.inj hk ▸ rfl
      exact hscan stop (startsRemark_lineEnd hs) (hs.head isAnnotationPart_newline)
  · have hnone : ∀ c ∈ text.head?, isIdentifierStart c = false := fun c hc => by
      rw [Option.mem_def.1 hc] at hstart
      exact Bool.eq_false_iff.2 hstart
    exact .steady [] (halone text hnone)
      (fun stop hs => halone stop (hs.head (by decide +kernel)))
      fun _ hk => Verdict.token.inj hk ▸ rfl

/-- What starts with an at sign is never at fault. -/
theorem scanAt_ne_fault {fault : Fault} : (scanAt text).verdict ≠ .fault fault := by
  unfold scanAt
  split
  · split
    · dsimp only
      split <;> nofun
    · nofun
  · nofun

/-! ## Strings and comments -/

/-- A string is settled, closed or not. -/
theorem scanString_settled (quote : Char) (text : List Char) :
    Settled (scanString quote) quote text := by
  obtain ⟨line, rest, rfl, hl, hend⟩ := exists_line text
  obtain ⟨word, more, rfl, hw, hm⟩ := exists_run (· != quote) line
  have hscan : ∀ {line stop : List Char}, '\n' ∉ line → LineEnd stop →
      scanString quote (line ++ stop) =
        if run (· != quote) line < line.length then ⟨.token .string, run (· != quote) line + 1⟩
        else ⟨.fault .unterminatedString, line.length⟩ := fun hl hs => by
    unfold scanString
    dsimp only
    rw [lineLength_append hl hs, List.take_left]
  cases more with
  | nil =>
    rw [List.append_nil] at hl ⊢
    have hrun : run (· != quote) (word ++ []) = word.length := run_append hw nofun
    rw [List.append_nil] at hrun
    have hopen : ∀ stop, LineEnd stop → scanString quote (word ++ stop) =
        ⟨.fault .unterminatedString, word.length⟩ := fun stop hs => by
      rw [hscan hl hs, hrun, if_neg (Nat.lt_irrefl _)]
    exact .steady _ (hopen rest hend) hopen nofun
  | cons last more =>
    obtain rfl : last = quote := by simpa using hm last rfl
    have hlast : '\n' ∉ word ++ [last] := fun hn => hl (by
      rcases List.mem_append.1 hn with hn | hn
      · exact List.mem_append_left _ hn
      · exact List.mem_append_right _ (List.mem_singleton.1 hn ▸ List.mem_cons_self))
    have hrun : ∀ more, run (· != last) (word ++ last :: more) = word.length := fun more =>
      run_append hw (by simp)
    have hclosed : scanString last (word ++ last :: more ++ rest) =
        ⟨.token .string, (word ++ [last]).length⟩ := by
      rw [hscan hl hend, hrun, if_pos (by simp), List.length_append, List.length_singleton]
    have hstop : ∀ stop, LineEnd stop → scanString last ((word ++ [last]) ++ stop) =
        ⟨.token .string, (word ++ [last]).length⟩ := fun stop hs => by
      rw [hscan hlast hs, hrun, if_pos (by simp), List.length_append, List.length_singleton]
    have hsplit : word ++ last :: more ++ rest = (word ++ [last]) ++ (more ++ rest) := by simp
    rw [hsplit] at hclosed ⊢
    exact .steady _ hclosed hstop fun _ hk => Verdict.token.inj hk ▸ rfl

/-- A block comment goes up to its end mark, whatever follows that. -/
theorem exists_of_blockCommentLength? {n : Nat} (h : blockCommentLength? text = some n) :
    ∃ word rest, text = word ++ rest ∧ n = word.length ∧
      ∀ stop, blockCommentLength? (word ++ stop) = some n := by
  fun_induction blockCommentLength? text generalizing n with
  | case1 rest =>
    obtain rfl := Option.some.inj h
    exact ⟨['*', '/'], rest, rfl, rfl, fun _ => rfl⟩
  | case2 c text hne ih =>
    obtain ⟨m, hm, rfl⟩ := Option.map_eq_some_iff.1 h
    obtain ⟨word, rest, rfl, rfl, hstop⟩ := ih hm
    refine ⟨c :: word, rest, rfl, rfl, fun stop => ?_⟩
    cases word with
    | nil => cases (hstop []).symm
    | cons d word =>
      rw [List.cons_append, blockCommentLength?, hstop]
      · rfl
      · rintro more rfl heq
        obtain ⟨rfl, -⟩ := List.cons.inj heq
        exact hne _ rfl rfl
  | case3 => cases h

/-- What starts with a slash is settled, but for a comment that is not closed. -/
theorem scanSlash_settled (h : (scanSlash text).verdict ≠ .fault .unterminatedComment) :
    Settled scanSlash '/' text := by
  obtain ⟨piece, hpiece⟩ : ∃ piece, scanSlash text = piece := ⟨_, rfl⟩
  rw [hpiece] at h
  have hscan := hpiece
  unfold scanSlash at hscan
  split at hscan
  · next rest =>
    obtain ⟨line, rest, rfl, hl, hend⟩ := exists_line rest
    have hscan : ∀ stop, LineEnd stop → scanSlash (('/' :: line) ++ stop) =
        ⟨.token .lineComment, ('/' :: line).length⟩ := fun stop hs => by
      rw [List.cons_append, scanSlash, lineLength_append hl hs, Nat.add_comm, List.length_cons]
    exact .steady _ (hscan rest hend) hscan fun _ hk => Verdict.token.inj hk ▸ rfl
  · next rest =>
    split at hscan
    · next n hn =>
      obtain ⟨word, rest, rfl, rfl, hstop⟩ := exists_of_blockCommentLength? hn
      have hscan : ∀ stop, scanSlash (('*' :: word) ++ stop) =
          ⟨.token .blockComment, ('*' :: word).length⟩ := fun stop => by
        rw [List.cons_append, scanSlash, hstop]
        rfl
      exact .steady _ (hscan rest) (fun stop _ => hscan stop) fun _ hk => Verdict.token.inj hk ▸ rfl
    · exact absurd (hscan ▸ rfl) h
  · exact .steady ['='] rfl (fun _ _ => rfl) fun _ hk => Verdict.token.inj hk ▸ rfl
  · have hstop : ∀ stop, LineEnd stop → scanSlash ([] ++ stop) = ⟨.token Symbol.slash, 0⟩ := by
      intro stop hs
      rcases hs.eq_nil_or with rfl | ⟨more, rfl⟩ <;> rfl
    exact .steady [] (hpiece.trans hscan.symm) hstop fun _ hk => Verdict.token.inj hk ▸ rfl

/-! ## Symbols -/

/-- What starts with a dollar sign is settled. -/
theorem scanDollar_settled (text : List Char) : Settled scanDollar '$' text := by
  obtain ⟨word, rest, rfl, hw, hr⟩ := exists_run Char.isDigit text
  have hscan : ∀ stop : List Char, (∀ c ∈ stop.head?, c.isDigit = false) →
      scanDollar (word ++ stop) = if 0 < word.length then ⟨.token .hardwareQubit, word.length⟩
        else ⟨.fault .invalidCharacter, 0⟩ := fun stop hs => by
    unfold scanDollar
    rw [run_append hw hs]
  cases word with
  | nil => exact .steady _ (hscan rest hr) (fun stop hs => hscan stop (hs.head rfl)) nofun
  | cons d word =>
    exact .steady _ (hscan rest hr) (fun stop hs => hscan stop (hs.head rfl))
      fun _ hk => Verdict.token.inj hk ▸ rfl

/-- A dollar sign that is invalid stays so where a line ends behind it. -/
theorem scanDollar_invalid (h : (scanDollar (word ++ rest)).verdict = .fault .invalidCharacter)
    (hs : LineEnd stop) : (scanDollar (word ++ stop)).verdict = .fault .invalidCharacter := by
  have hverdict : ∀ text, (scanDollar text).verdict = .fault .invalidCharacter ↔
      ∀ c ∈ text.head?, c.isDigit = false := by
    intro text
    cases text with
    | nil => exact iff_of_true rfl nofun
    | cons c text => cases hc : c.isDigit <;> simp [scanDollar, run, hc]
  rw [hverdict] at h ⊢
  cases word with
  | nil => exact hs.head rfl
  | cons c word => exact h

/-- No line break is part of a word that is looked for. -/
theorem isPrefixOf_append_lineEnd {name : List Char} (hn : '\n' ∉ name) (hs : LineEnd stop) :
    name.isPrefixOf (word ++ stop) = name.isPrefixOf word := by
  induction name generalizing word with
  | nil => rfl
  | cons c name ih =>
    obtain ⟨hc, hn⟩ := not_or.1 (mt List.mem_cons.2 hn)
    cases word with
    | nil =>
      rcases hs.eq_nil_or with rfl | ⟨rest, rfl⟩
      · rfl
      · simp [List.isPrefixOf, Ne.symm hc]
    | cons d word => simp [List.isPrefixOf, ih hn]

/-- What does not start a text does not start a line of it. -/
theorem not_isPrefixOf_append {name : List Char} (h : ¬name.isPrefixOf (word ++ rest))
    (hn : '\n' ∉ name) (hs : LineEnd stop) : ¬name.isPrefixOf (word ++ stop) := by
  rw [isPrefixOf_append_lineEnd hn hs]
  refine fun hp => h ?_
  rw [List.isPrefixOf_iff_prefix] at hp ⊢
  exact hp.trans (List.prefix_append word rest)

/-- A symbol at the head is told within the line. -/
theorem atHead?_append_lineEnd (hs : LineEnd stop) :
    Symbol.atHead? (word ++ stop) = Symbol.atHead? word := by
  have heq : ∀ symbol : Symbol, symbol.text.toList.isPrefixOf (word ++ stop) =
      symbol.text.toList.isPrefixOf word := fun symbol =>
    isPrefixOf_append_lineEnd (newline_not_mem_symbol symbol) hs
  simp only [Symbol.atHead?, heq]

/-- The text of a symbol has this symbol at its head. -/
theorem atHead?_text (symbol : Symbol) : Symbol.atHead? symbol.text.toList = some symbol := by
  cases symbol <;> decide

/-- Where no symbol begins, none begins when less follows. -/
theorem atHead?_eq_none (word : List Char) (h : Symbol.atHead? (word ++ rest) = none)
    (hs : LineEnd stop) : Symbol.atHead? (word ++ stop) = none := by
  refine List.find?_eq_none.2 fun symbol hm => ?_
  exact not_isPrefixOf_append (List.find?_eq_none.1 h symbol hm) (newline_not_mem_symbol symbol) hs

/-- A symbol is settled. -/
theorem scanSymbol_settled (c : Char) (text : List Char) : Settled (scanSymbol c) c text := by
  cases hsymbol : Symbol.atHead? (c :: text) with
  | none =>
    have hnone : ∀ stop, Symbol.atHead? (c :: stop) = none →
        scanSymbol c ([] ++ stop) = ⟨.fault .invalidCharacter, 0⟩ := fun stop hs => by
      rw [List.nil_append, scanSymbol, hs]
    refine .steady [] (hnone text hsymbol) (fun stop hs => hnone stop ?_) fun kind hk => ?_
    · exact atHead?_eq_none [c] hsymbol hs
    · cases hk
  | some symbol =>
    obtain ⟨rest, hrest⟩ := Symbol.isPrefix_of_atHead? hsymbol
    obtain ⟨word, hword⟩ : ∃ word, symbol.text.toList = c :: word := by
      cases hs : symbol.text.toList with
      | nil => cases symbol <;> cases hs
      | cons d word => exact ⟨word, by rw [hs] at hrest; rw [(List.cons.inj hrest).1]⟩
    rw [hword, List.cons_append] at hrest
    obtain rfl := (List.cons.inj hrest).2
    have hlength : symbol.text.length - 1 = word.length := by
      rw [← String.length_toList, hword, List.length_cons, Nat.add_sub_cancel]
    have hscan : ∀ stop, Symbol.atHead? (c :: (word ++ stop)) = some symbol →
        scanSymbol c (word ++ stop) = ⟨.token symbol, word.length⟩ := fun stop hs => by
      rw [scanSymbol, hs]
      dsimp only
      rw [hlength]
    refine .steady _ (hscan rest hsymbol) (fun stop hs => hscan stop ?_)
      fun _ hk => Verdict.token.inj hk ▸ rfl
    rw [← List.cons_append, ← hword, atHead?_append_lineEnd hs, atHead?_text]

/-- A character that is no symbol stays so where a line ends behind it. -/
theorem scanSymbol_invalid (h : (scanSymbol c (word ++ rest)).verdict = .fault .invalidCharacter)
    (hs : LineEnd stop) : (scanSymbol c (word ++ stop)).verdict = .fault .invalidCharacter := by
  unfold scanSymbol at h
  split at h
  · cases h
  · next hsymbol =>
    have hnone : Symbol.atHead? (c :: (word ++ stop)) = none :=
      atHead?_eq_none (c :: word) hsymbol hs
    rw [scanSymbol, hnone]

/-- A number sign without a pragma is scanned as a symbol. -/
theorem scanHash_of_not (h : ¬"pragma".toList.isPrefixOf text) :
    scanHash text = scanSymbol '#' text := if_neg h

/-- What starts with a number sign is settled. -/
theorem scanHash_settled (text : List Char) : Settled scanHash '#' text := by
  by_cases hpragma : "pragma".toList.isPrefixOf text
  · obtain ⟨line, rest, rfl, hl, hend⟩ := exists_line text
    rw [isPrefixOf_append_lineEnd (by decide) hend] at hpragma
    have hscan : ∀ stop, LineEnd stop →
        scanHash (line ++ stop) = ⟨.token .pragma, line.length⟩ := fun stop hs => by
      unfold scanHash
      rw [isPrefixOf_append_lineEnd (by decide) hs, if_pos hpragma, lineLength_append hl hs]
    exact .steady _ (hscan rest hend) hscan fun _ hk => Verdict.token.inj hk ▸ rfl
  · obtain ⟨word, rest, rfl, htail, hretold⟩ := scanSymbol_settled '#' text
    rw [← scanHash_of_not hpragma] at htail hretold
    refine ⟨word, rest, rfl, htail, fun stop hs => ?_⟩
    rw [scanHash_of_not (not_isPrefixOf_append hpragma (by decide) hs)]
    exact hretold stop hs

/-- A number sign that is invalid stays so where a line ends behind it. -/
theorem scanHash_invalid (h : (scanHash (word ++ rest)).verdict = .fault .invalidCharacter)
    (hs : LineEnd stop) : (scanHash (word ++ stop)).verdict = .fault .invalidCharacter := by
  by_cases hpragma : "pragma".toList.isPrefixOf (word ++ rest)
  · rw [scanHash, if_pos hpragma] at h
    cases h
  · rw [scanHash_of_not hpragma] at h
    rw [scanHash_of_not (not_isPrefixOf_append hpragma (by decide) hs)]
    exact scanSymbol_invalid h hs

end

end Token

end OpenQasm
