import OpenQasm.Proofs.Token.Session
import OpenQasm.Proofs.Token.Tiling

/-!
# Reading ahead

A lexer on top of a scanner that yields one piece of the text after the other. To tell how far
invalid characters stand together it has to scan the piece behind them, which it keeps for the next
token. What it has scanned is then further on than what it has yielded: a piece kept back may be a
fault that is not reported yet, or the brace of a calibration body, whose end is looked for behind
what has been scanned.

Reading ahead makes no difference: both lexers answer all calls alike.
-/

namespace OpenQasm

/-- What the scanner tells of a piece: what it is, and the bytes where it begins and ends. -/
structure Scanned where
  verdict : Token.Verdict
  start : Nat
  stop : Nat
deriving DecidableEq, Repr

/-- The text that is not scanned yet, and the number of bytes before it. -/
structure Scanner where
  rest : List Char
  offset : Nat := 0
deriving DecidableEq, Repr

namespace Scanner

/-- Pass over so many characters. -/
def advance (scanner : Scanner) (n : Nat) : Scanner where
  rest := scanner.rest.drop n
  offset := scanner.offset + Text.width (scanner.rest.take n)

/-- The next piece behind the blanks ahead, and the scanner past it. -/
def next? (scanner : Scanner) : Option (Scanned × Scanner) :=
  let start := scanner.advance (Token.run Token.isSpace scanner.rest)
  match start.rest with
  | [] => none
  | c :: text =>
    let piece := Token.scan c text
    let stop := start.advance (piece.tail + 1)
    some (⟨piece.verdict, start.offset, stop.offset⟩, stop)

section
variable {scanner after : Scanner} {piece : Scanned}

/-- Ahead of an advanced scanner stands the rest. -/
@[simp] theorem rest_advance (scanner : Scanner) (n : Nat) :
    (scanner.advance n).rest = scanner.rest.drop n := rfl

/-- Advancing by nothing changes nothing. -/
@[simp] theorem advance_zero (scanner : Scanner) : scanner.advance 0 = scanner := rfl

/-- Two advances are one. -/
theorem advance_advance (scanner : Scanner) (n m : Nat) :
    (scanner.advance n).advance m = scanner.advance (n + m) := by
  have hwidth : Text.width (scanner.rest.take n) + Text.width ((scanner.rest.drop n).take m) =
      Text.width (scanner.rest.take (n + m)) := by
    rw [List.take_add, Text.width_append]
  simp [advance, Nat.add_assoc, hwidth]

/-- What is scanned is taken off the text, behind the blanks ahead. -/
theorem exists_of_next? (h : scanner.next? = some (piece, after)) :
    ∃ c text, scanner.rest.dropWhile Token.isSpace = c :: text ∧ Token.isSpace c = false ∧
      piece.verdict = (Token.scan c text).verdict ∧
      piece.start = (scanner.advance (Token.run Token.isSpace scanner.rest)).offset ∧
      after = scanner.advance
        (Token.run Token.isSpace scanner.rest + ((Token.scan c text).tail + 1)) ∧
      piece.stop = after.offset := by
  unfold next? at h
  dsimp only at h
  split at h
  · cases h
  · next c text hr =>
    obtain ⟨rfl, rfl⟩ := Prod.mk.inj (Option.some.inj h)
    rw [rest_advance, Token.drop_run] at hr
    have hspace := List.head?_dropWhile_not Token.isSpace scanner.rest
    rw [hr] at hspace
    exact ⟨c, text, hr, by simpa using hspace, rfl, rfl, advance_advance _ _ _, rfl⟩

/-- A piece that begins where the scanner is has no blanks before it. -/
theorem exists_of_near (h : scanner.next? = some (piece, after))
    (hnear : piece.start = scanner.offset) :
    ∃ c text, scanner.rest = c :: text ∧ Token.isSpace c = false ∧
      piece.verdict = (Token.scan c text).verdict ∧
      after = scanner.advance ((Token.scan c text).tail + 1) ∧ piece.stop = after.offset := by
  obtain ⟨c, text, hr, hs, hverdict, hstart, hafter, hstop⟩ := exists_of_next? h
  rw [hstart, advance, Token.take_run] at hnear
  have hblanks : scanner.rest.takeWhile Token.isSpace = [] := by
    refine Decidable.byContradiction fun hne => ?_
    have := Text.width_pos hne
    dsimp only at hnear
    omega
  refine ⟨c, text, ?_, hs, hverdict, ?_, hstop⟩
  · rw [← List.takeWhile_append_dropWhile (p := Token.isSpace) (l := scanner.rest), hblanks, hr,
      List.nil_append]
  · rw [hafter, Token.run, hblanks, List.length_nil, Nat.zero_add]

/-- What stands where the scanner is, if it is no blank, begins the next piece. -/
theorem near_of_rest {c : Char} {text : List Char} (h : scanner.next? = some (piece, after))
    (hr : scanner.rest = c :: text) (hs : Token.isSpace c = false) :
    piece.verdict = (Token.scan c text).verdict ∧ piece.start = scanner.offset := by
  obtain ⟨first, rest, hfirst, -, hverdict, hstart, -, -⟩ := exists_of_next? h
  have hblank : ¬ Token.isSpace c = true := by simp [hs]
  rw [hr, List.dropWhile_cons_of_neg hblank] at hfirst
  obtain ⟨rfl, rfl⟩ := List.cons.inj hfirst
  rw [hr, Token.run, List.takeWhile_cons_of_neg hblank] at hstart
  exact ⟨hverdict, hstart⟩

/-- There is no piece where only blanks are ahead. -/
theorem next?_eq_none (h : scanner.next? = none) :
    scanner.rest.dropWhile Token.isSpace = [] := by
  unfold next? at h
  dsimp only at h
  split at h
  · next hr => rwa [rest_advance, Token.drop_run] at hr
  · cases h

/-- Every piece takes at least one character. -/
theorem length_rest_next? (h : scanner.next? = some (piece, after)) :
    after.rest.length < scanner.rest.length := by
  obtain ⟨c, text, hr, -, -, -, rfl, -⟩ := exists_of_next? h
  have hne : scanner.rest ≠ [] := by
    intro hnil
    rw [hnil] at hr
    cases hr
  have := List.length_pos_iff.2 hne
  rw [rest_advance, List.length_drop]
  omega

end

end Scanner

/-- A lexer that may have scanned one piece more than it has yielded. -/
structure ReadAhead where
  source : SourceId
  /-- The whole text. -/
  text : List Char
  scanner : Scanner
  /-- The piece that is kept for the next token. -/
  stash : Option Scanned := none
  calibrationPending : Bool := false
  diagnostics : Diagnostics := {}
deriving Repr

namespace ReadAhead

def ofText (source : SourceId) (text : List Char) : ReadAhead :=
  { source, text, scanner := ⟨text, 0⟩ }

def takeDiagnostics (reader : ReadAhead) : List Diagnostic × ReadAhead :=
  (reader.diagnostics.items, { reader with diagnostics := {} })

/-- The piece that is kept, or else the next one of the scanner. -/
def piece? (reader : ReadAhead) : Option (Scanned × ReadAhead) :=
  match reader.stash with
  | some piece => some (piece, { reader with stash := none })
  | none => reader.scanner.next?.map fun (piece, scanner) => (piece, { reader with scanner })

/-- The token between two bytes. -/
def token (reader : ReadAhead) (kind : TokenKind) (start stop : Nat) : Token where
  kind := kind
  text := (Text.slice? reader.text start stop).getD []
  span := .ofRange reader.source start stop

/-- The error token between two bytes, with its diagnostic. -/
def fail (reader : ReadAhead) (start stop : Nat) (message : String) : Token × ReadAhead :=
  let token := reader.token .error start stop
  (token, { reader with diagnostics := reader.diagnostics.report .lexicalError token.span message })

/-- A bound on the number of pieces to come. -/
def ahead (reader : ReadAhead) : Nat := 2 * reader.scanner.rest.length + reader.stash.toList.length

/-- A piece that a reader takes leaves fewer to come. -/
theorem ahead_piece? {reader after : ReadAhead} {piece : Scanned}
    (h : reader.piece? = some (piece, after)) : after.ahead < reader.ahead := by
  unfold piece? at h
  unfold ahead
  split at h
  · next hstash =>
    obtain ⟨-, rfl⟩ := Prod.mk.inj (Option.some.inj h)
    simp [hstash]
  · next hstash =>
    obtain ⟨⟨piece, scanner⟩, hnext, heq⟩ := Option.map_eq_some_iff.1 h
    obtain ⟨-, rfl⟩ := Prod.mk.inj heq
    have := Scanner.length_rest_next? hnext
    dsimp only
    omega

/-- The end of the invalid characters that go on at a byte, and the reader past them. The piece
behind them is kept. -/
def invalidStop (reader : ReadAhead) (stop : Nat) : Nat × ReadAhead :=
  match h : reader.piece? with
  | none => (stop, reader)
  | some (piece, after) =>
    have := ahead_piece? h
    if piece.verdict = .fault .invalidCharacter ∧ piece.start = stop then
      after.invalidStop piece.stop
    else (stop, { after with stash := some piece })
termination_by reader.ahead

/-- One error token for the invalid characters that stand together. -/
def failInvalid (reader : ReadAhead) (piece : Scanned) : Token × ReadAhead :=
  let (stop, after) := reader.invalidStop piece.stop
  after.fail piece.start stop
    (Lexer.invalidMessage ((Text.slice? reader.text piece.start stop).getD []))

/-- The calibration body that begins with a brace. Its end is looked for in what is not scanned. -/
def calibrationBody (reader : ReadAhead) (brace : Scanned) : Token × ReadAhead :=
  match Lexer.closingLength? 1 reader.scanner.rest with
  | some n =>
    let scanner := reader.scanner.advance n
    (reader.token .calibrationBody brace.start
        (brace.stop + Text.width (reader.scanner.rest.take n)), { reader with scanner })
  | none =>
    let rest := reader.scanner.rest
    { reader with scanner := reader.scanner.advance rest.length }.fail brace.start
      (brace.stop + Text.width rest) "unterminated calibration block"

/-- The token that begins with a piece just scanned. -/
def deliver (reader : ReadAhead) (piece : Scanned) : Token × ReadAhead :=
  match piece.verdict with
  | .token (.symbol .leftBrace) =>
    if reader.calibrationPending then
      { reader with calibrationPending := false }.calibrationBody piece
    else (reader.token Symbol.leftBrace piece.start piece.stop, reader)
  | .token .string =>
    let text := (Text.slice? reader.text piece.start piece.stop).getD []
    (reader.token (Lexer.stringKind text) piece.start piece.stop, reader)
  | .token kind =>
    (reader.token kind piece.start piece.stop,
      { reader with calibrationPending := Lexer.pendingAfter reader.calibrationPending kind })
  | .fault .invalidCharacter => reader.failInvalid piece
  | .fault .unterminatedString => reader.fail piece.start piece.stop "unterminated string literal"
  | .fault .unterminatedComment => reader.fail piece.start piece.stop "unterminated block comment"

/-- The next token and the reader past it; none at the end of the text. -/
def next? (reader : ReadAhead) : Option (Token × ReadAhead) :=
  reader.piece?.map fun (piece, after) => after.deliver piece

def interface : Interface ReadAhead := ⟨next?, takeDiagnostics⟩

end ReadAhead

/-! ## Both lexers -/

/-- Where a lexer scans on. -/
def Lexer.scanner (lexer : Lexer) : Scanner := ⟨lexer.rest, lexer.offset⟩

/-- A lexer and its scanner have the same text ahead. -/
@[simp] theorem Lexer.rest_scanner (lexer : Lexer) : lexer.scanner.rest = lexer.rest := rfl

/-- A lexer that reads ahead is so many characters ahead of another one, and may have kept the piece
behind them. -/
structure ReadsAhead (reader : ReadAhead) (lexer : Lexer) (n : Nat) : Prop where
  source : reader.source = lexer.source
  pending : reader.calibrationPending = lexer.calibrationPending
  diagnostics : reader.diagnostics = lexer.diagnostics
  text : ∃ before, reader.text = before ++ lexer.rest ∧ Text.width before = lexer.offset
  scanner : match reader.stash with
    | none => reader.scanner = lexer.scanner.advance n
    | some piece => (lexer.scanner.advance n).next? = some (piece, reader.scanner)

/-- Two lexers yield the same token, and are alike after it. -/
def YieldAlike (left : Token × ReadAhead) (right : Token × Lexer) : Prop :=
  left.1 = right.1 ∧ ReadsAhead left.2 right.2 0

namespace ReadsAhead

variable {reader after : ReadAhead} {lexer : Lexer} {piece : Scanned} {n : Nat}

/-- At first nothing has been read ahead. -/
theorem ofText (source : SourceId) (text : List Char) :
    ReadsAhead (.ofText source text) (.ofText source text) 0 :=
  ⟨rfl, rfl, rfl, ⟨[], rfl, rfl⟩, rfl⟩

/-- The next piece is the one that the scanner yields so many characters ahead. -/
theorem piece?_eq (h : ReadsAhead reader lexer n) : reader.piece? =
    (lexer.scanner.advance n).next?.map fun (piece, scanner) =>
      (piece, { reader with scanner, stash := none }) := by
  have hscanner := h.scanner
  unfold ReadAhead.piece?
  cases hstash : reader.stash with
  | none =>
    rw [hstash] at hscanner
    dsimp only at hscanner ⊢
    rw [hscanner, ← hstash]
  | some piece =>
    rw [hstash] at hscanner
    dsimp only at hscanner ⊢
    rw [hscanner, Option.map_some]

/-- The text of so many characters stands between the bytes where they begin and end. -/
theorem slice?_eq (h : ReadsAhead reader lexer n) (m : Nat) :
    Text.slice? reader.text lexer.offset (lexer.scanner.advance m).offset =
      some (lexer.rest.take m) := by
  obtain ⟨before, htext, hwidth⟩ := h.text
  have hslice := Text.slice?_append before (lexer.rest.take m) (lexer.rest.drop m)
  rw [List.append_assoc, List.take_append_drop, ← htext, hwidth] at hslice
  exact hslice

/-- The reader and the lexer cut the same token. -/
theorem token_eq (h : ReadsAhead reader lexer n) (kind : TokenKind) (m : Nat) :
    reader.token kind lexer.offset (lexer.scanner.advance m).offset = (lexer.cut kind m).1 := by
  rw [ReadAhead.token, h.slice?_eq, h.source]
  rfl

/-- What is expected next is noted by both. -/
theorem withPending (h : ReadsAhead reader lexer n) (pending : Bool) :
    ReadsAhead { reader with calibrationPending := pending }
      { lexer with calibrationPending := pending } n :=
  { h with pending := rfl }

/-- A lexer that goes on by so many characters meets the one that was ahead. -/
theorem settle (h : ReadsAhead reader lexer n) : ReadsAhead reader (lexer.advance n) 0 where
  source := h.source
  pending := h.pending
  diagnostics := h.diagnostics
  text := by
    obtain ⟨before, htext, hwidth⟩ := h.text
    refine ⟨before ++ lexer.rest.take n, ?_, ?_⟩
    · rw [List.append_assoc, Lexer.rest_advance, List.take_append_drop, htext]
    · rw [Text.width_append, hwidth, Lexer.advance]
  scanner := by
    have hscanner : (lexer.advance n).scanner.advance 0 = lexer.scanner.advance n :=
      Scanner.advance_advance lexer.scanner n 0
    rw [hscanner]
    exact h.scanner

/-- A token that is cut is yielded alike. -/
theorem cut (h : ReadsAhead reader lexer n) (kind : TokenKind) :
    YieldAlike (reader.token kind lexer.offset (lexer.scanner.advance n).offset, reader)
      (lexer.cut kind n) :=
  ⟨h.token_eq kind n, h.settle⟩

/-- So is a token at fault. -/
theorem fail (h : ReadsAhead reader lexer n) (message : String) :
    YieldAlike (reader.fail lexer.offset (lexer.scanner.advance n).offset message)
      (lexer.fail n message) := by
  have htoken := h.token_eq .error n
  refine ⟨htoken, { h.settle with diagnostics := ?_ }⟩
  rw [ReadAhead.fail, htoken, h.diagnostics]
  rfl

/-- The next piece is scanned where the reader is ahead, and is then behind the scanner. -/
theorem exists_of_piece? (h : ReadsAhead reader lexer n)
    (hp : reader.piece? = some (piece, after)) :
    ∃ scanner, (lexer.scanner.advance n).next? = some (piece, scanner) ∧
      after = { reader with scanner, stash := none } := by
  rw [h.piece?_eq] at hp
  obtain ⟨⟨first, scanner⟩, hnext, heq⟩ := Option.map_eq_some_iff.1 hp
  obtain ⟨rfl, rfl⟩ := Prod.mk.inj heq
  exact ⟨scanner, hnext, rfl⟩

/-- The reader that has passed the piece is that much further ahead. -/
theorem pass (h : ReadsAhead reader lexer n) (m : Nat) :
    ReadsAhead { reader with scanner := lexer.scanner.advance m, stash := none } lexer m :=
  { h with scanner := rfl }

/-- The reader that keeps the piece is where it was. -/
theorem keep (h : ReadsAhead reader lexer n) {scanner : Scanner}
    (hnext : (lexer.scanner.advance n).next? = some (piece, scanner)) :
    ReadsAhead { reader with scanner, stash := some piece } lexer n :=
  { h with scanner := hnext }

/-- The invalid characters that go on are read by both up to the same byte. -/
theorem invalidStop {reader : ReadAhead} {n : Nat} (h : ReadsAhead reader lexer n) :
    (reader.invalidStop (lexer.scanner.advance n).offset).1 =
        (lexer.scanner.advance (n + Lexer.invalidRun (lexer.rest.drop n))).offset ∧
      ReadsAhead (reader.invalidStop (lexer.scanner.advance n).offset).2 lexer
        (n + Lexer.invalidRun (lexer.rest.drop n)) := by
  rw [ReadAhead.invalidStop]
  split
  · next hnone =>
    rw [h.piece?_eq, Option.map_eq_none_iff] at hnone
    have hblank := Scanner.next?_eq_none hnone
    rw [Scanner.rest_advance, Lexer.rest_scanner] at hblank
    rw [Lexer.invalidRun_eq_zero]
    · exact ⟨rfl, h⟩
    · intro c text hr hs
      rw [hr] at hblank
      simp [hs] at hblank
  · next piece after hsome =>
    have hless := ReadAhead.ahead_piece? hsome
    obtain ⟨scanner, hnext, rfl⟩ := h.exists_of_piece? hsome
    dsimp only
    split
    · next hgoes =>
      obtain ⟨hinvalid, hnear⟩ := hgoes
      obtain ⟨c, text, hr, hs, hverdict, rfl, hstop⟩ := Scanner.exists_of_near hnext hnear
      rw [Scanner.rest_advance, Lexer.rest_scanner] at hr
      have hfaulty := Token.scan_faulty c text
      rw [Token.Piece.Faulty, ← hverdict, hinvalid] at hfaulty
      have hone : (lexer.scanner.advance n).advance ((Token.scan c text).tail + 1) =
          lexer.scanner.advance (n + 1) := by
        rw [hfaulty.2, Scanner.advance_advance]
      have hrun : n + Lexer.invalidRun (lexer.rest.drop n) =
          n + 1 + Lexer.invalidRun (lexer.rest.drop (n + 1)) := by
        rw [← List.drop_drop, hr, Lexer.invalidRun_cons hs (hverdict.symm.trans hinvalid)]
        simp +arith
      rw [hstop, hone, hrun]
      exact (h.pass (n + 1)).invalidStop
    · next hends =>
      rw [Lexer.invalidRun_eq_zero]
      · exact ⟨rfl, h.keep hnext⟩
      · intro c text hr hs hinvalid
        obtain ⟨hverdict, hstart⟩ := Scanner.near_of_rest hnext hr hs
        exact hends ⟨hverdict.trans hinvalid, hstart⟩
termination_by reader.ahead
decreasing_by exact hone ▸ hless

section
variable {c : Char} {text : List Char}

/-- One error token for the invalid characters that stand together, whose first one both have
passed. -/
theorem failInvalid (h : ReadsAhead reader lexer 1) (hr : lexer.rest = c :: text)
    (hs : Token.isSpace c = false)
    (hinvalid : (Token.scan c text).verdict = .fault .invalidCharacter)
    (hstart : piece.start = lexer.offset) (hstop : piece.stop = (lexer.scanner.advance 1).offset) :
    YieldAlike (reader.failInvalid piece) lexer.failInvalid := by
  have hrun : 1 + Lexer.invalidRun (lexer.rest.drop 1) = Lexer.invalidRun lexer.rest := by
    rw [hr, Lexer.invalidRun_cons hs hinvalid, Nat.add_comm]
    rfl
  obtain ⟨heq, hafter⟩ := h.invalidStop
  rw [hrun, ← hstop] at heq hafter
  rw [ReadAhead.failInvalid, Lexer.failInvalid]
  dsimp only
  rw [heq, hstart, h.slice?_eq]
  exact hafter.fail _

/-- A calibration body whose brace the reader has passed. -/
theorem calibrationBody (h : ReadsAhead reader lexer n) (hr : lexer.rest = c :: text)
    (hstart : piece.start = lexer.offset)
    (hstop : piece.stop = (lexer.scanner.advance 1).offset) :
    YieldAlike
      (ReadAhead.calibrationBody { reader with
        scanner := lexer.scanner.advance 1, stash := none, calibrationPending := false } piece)
      lexer.calibrationBody := by
  have hpass (m : Nat) := (h.withPending false).pass (1 + m)
  have hscanner (m : Nat) : (lexer.scanner.advance 1).advance m = lexer.scanner.advance (1 + m) :=
    Scanner.advance_advance lexer.scanner 1 m
  have hoffset (m : Nat) : piece.stop + Text.width ((lexer.rest.drop 1).take m) =
      (lexer.scanner.advance (1 + m)).offset := by
    rw [← hscanner, hstop]
    rfl
  rw [ReadAhead.calibrationBody, Lexer.calibrationBody]
  dsimp only [Scanner.rest_advance, Lexer.rest_scanner]
  cases Lexer.closingLength? 1 (lexer.rest.drop 1) with
  | some m =>
    dsimp only
    rw [hstart, hoffset, hscanner, Nat.add_comm m]
    exact (hpass m).cut .calibrationBody
  | none =>
    have hlength : 1 + (lexer.rest.drop 1).length = lexer.rest.length := by
      rw [hr, List.length_cons, Nat.add_comm]
      rfl
    have hend := hoffset (lexer.rest.drop 1).length
    rw [List.take_length] at hend
    dsimp only
    rw [hstart, hend, hscanner, hlength]
    exact (hlength ▸ hpass _).fail _

/-- The token that begins with the piece ahead. -/
theorem deliver (h : ReadsAhead reader lexer n) (hr : lexer.rest = c :: text)
    (hs : Token.isSpace c = false) (hverdict : piece.verdict = (Token.scan c text).verdict)
    (hstart : piece.start = lexer.offset)
    (hstop : piece.stop = (lexer.scanner.advance ((Token.scan c text).tail + 1)).offset) :
    YieldAlike
      (ReadAhead.deliver { reader with
        scanner := lexer.scanner.advance ((Token.scan c text).tail + 1), stash := none } piece)
      (lexer.token c text) := by
  have hpass := h.pass ((Token.scan c text).tail + 1)
  have hfaulty := Token.scan_faulty c text
  unfold ReadAhead.deliver Lexer.token
  rw [hverdict]
  dsimp only
  rw [hstart, hstop, h.slice?_eq, h.pending]
  rw [h.pending] at hpass
  -- The cases of the lexer are those of the reader, and may have been split along with them.
  split
  · next hbrace =>
    try simp only [hbrace]
    obtain rfl := Option.some.inj ((Token.scan_told hbrace).leftBrace rfl)
    rw [Token.scan_leftBrace] at hpass hstop ⊢
    split
    · exact h.calibrationBody hr hstart hstop
    · exact hpass.cut _
  · next hstring =>
    try simp only [hstring]
    exact hpass.cut _
  · next kind _ _ hkind =>
    try simp only [hkind]
    exact ((h.withPending (Lexer.pendingAfter lexer.calibrationPending kind)).pass _).cut kind
  · next hinvalid =>
    try simp only [hinvalid]
    rw [Token.Piece.Faulty, hinvalid] at hfaulty
    rw [hfaulty.2] at hpass hstop ⊢
    exact hpass.failInvalid hr hs hinvalid hstart hstop
  · next hopen =>
    try simp only [hopen]
    exact hpass.fail _
  · next hopen =>
    try simp only [hopen]
    exact hpass.fail _

end

/-- Both yield the same token, or both are at the end. -/
theorem next? (h : ReadsAhead reader lexer 0) :
    (reader.next? = none ∧ lexer.next? = none) ∨
      ∃ yielded yielded', reader.next? = some yielded ∧ lexer.next? = some yielded' ∧
        YieldAlike yielded yielded' := by
  unfold ReadAhead.next?
  cases hpiece : reader.piece? with
  | none =>
    rw [h.piece?_eq, Option.map_eq_none_iff, Scanner.advance_zero] at hpiece
    have hrest : lexer.skipSpace.rest = [] := by
      rw [Lexer.skipSpace, Lexer.rest_advance, Token.drop_run]
      exact Scanner.next?_eq_none hpiece
    exact .inl ⟨rfl, Lexer.next?_eq_none hrest⟩
  | some scanned =>
    obtain ⟨piece, after⟩ := scanned
    obtain ⟨scanner, hnext, rfl⟩ := h.exists_of_piece? hpiece
    rw [Scanner.advance_zero] at hnext
    obtain ⟨c, text, hr, hs, hverdict, hstart, rfl, hstop⟩ := Scanner.exists_of_next? hnext
    have hrest : lexer.skipSpace.rest = c :: text := by
      rw [Lexer.skipSpace, Lexer.rest_advance, Token.drop_run]
      exact hr
    refine .inr ⟨_, _, rfl, Lexer.next?_of_rest hrest, ?_⟩
    rw [← Scanner.advance_advance] at hstop ⊢
    have hskip := (h.pass (Token.run Token.isSpace lexer.rest)).settle
    exact hskip.deliver hrest hs hverdict hstart hstop

/-- Both give out the same reports. -/
theorem takeDiagnostics (h : ReadsAhead reader lexer 0) :
    reader.takeDiagnostics.1 = lexer.takeDiagnostics.1 ∧
      ReadsAhead reader.takeDiagnostics.2 lexer.takeDiagnostics.2 0 :=
  ⟨congrArg (·.items) h.diagnostics, { h with diagnostics := rfl }⟩

/-- Both answer a call alike. -/
theorem answer (h : ReadsAhead reader lexer 0) (call : Call) :
    (ReadAhead.interface.answer reader call).1 = (Lexer.interface.answer lexer call).1 ∧
      ReadsAhead (ReadAhead.interface.answer reader call).2
        (Lexer.interface.answer lexer call).2 0 := by
  unfold Interface.answer ReadAhead.interface Lexer.interface
  dsimp only
  cases call with
  | next =>
    dsimp only
    rcases h.next? with ⟨hreader, hlexer⟩ |
      ⟨⟨token, reader⟩, ⟨_, lexer⟩, hreader, hlexer, rfl, halike⟩
    · rw [hreader, hlexer]
      exact ⟨rfl, h⟩
    · rw [hreader, hlexer]
      exact ⟨rfl, halike⟩
  | take =>
    obtain ⟨hreports, hafter⟩ := h.takeDiagnostics
    exact ⟨congrArg Answer.reports hreports, hafter⟩

/-- Both answer all calls alike. -/
theorem serve (h : ReadsAhead reader lexer 0) (calls : List Call) :
    (ReadAhead.interface.serve reader calls).1 = (Lexer.interface.serve lexer calls).1 ∧
      ReadsAhead (ReadAhead.interface.serve reader calls).2
        (Lexer.interface.serve lexer calls).2 0 :=
  Interface.serve_congr (ReadsAhead · · 0) (fun _ _ => answer) h calls

end ReadsAhead

/-! ## Reports and error tokens -/

/-- Whatever is asked of a lexer, in whatever order: what was taken and what is left to take are one
lexical error for each error token yielded, with its span; the tokens are those of the text, however
often reports are taken; no two tokens that stand for invalid characters touch. All of this is true
as well of a lexer that reads ahead. -/
theorem session_complaints (source : SourceId) (text : List Char) (calls : List Call) :
    let session := Lexer.interface.serve (.ofText source text) calls
    let reading := ReadAhead.interface.serve (.ofText source text) calls
    let tokens := Answer.tokens session.1
    Answer.taken session.1 ++ session.2.diagnostics.items = tokens.filterMap Token.report? ∧
      tokens = (tokenize source text).1.take (calls.count .next) ∧
      (∀ front left between right back, tokens = front ++ left :: (between ++ right :: back) →
        left.isInvalid → right.isInvalid →
        Lexer.Apart source text front left between right) ∧
      reading.1 = session.1 ∧ reading.2.diagnostics = session.2.diagnostics := by
  dsimp only
  have htokens := Lexer.serve_tokens (.ofText source text) calls
  have hreading := (ReadsAhead.ofText source text).serve calls
  refine ⟨Lexer.serve_reports _ calls, htokens, ?_, hreading.1, hreading.2.diagnostics⟩
  intro front left between right back hfound hl hr
  rw [htokens] at hfound
  have hdrained := (Lexer.ofText source text).drained_drain
  rw [← List.take_append_drop (calls.count .next) (Lexer.drain _).1, hfound, List.append_assoc,
    List.cons_append, List.append_assoc, List.cons_append] at hdrained
  exact hdrained.apart rfl hl hr

/-- Invalid characters with a blank between them, the second ones read ahead of. -/
theorem session_complaints_blank : ∃ (calls : List Call) (left right : Token),
    calls = [.next, .take, .next, .take] ∧
      Answer.tokens (Lexer.interface.serve (.ofText ⟨0⟩ "€€ €\x7b".toList) calls).1 =
        [] ++ left :: ([] ++ right :: []) ∧
      left.isInvalid ∧ right.isInvalid ∧
      Lexer.Apart ⟨0⟩ "€€ €\x7b".toList [] left [] right := by
  have htokens : Answer.tokens
      (Lexer.interface.serve (.ofText ⟨0⟩ "€€ €\x7b".toList) [.next, .take, .next, .take]).1 =
        [] ++ ⟨.error, "€€".toList, ⟨⟨0⟩, 0, 6⟩⟩ ::
          ([] ++ ⟨.error, "€".toList, ⟨⟨0⟩, 7, 10⟩⟩ :: []) := by
    decide +kernel
  have hapart := (session_complaints ⟨0⟩ _ _).2.2.1 _ _ _ _ _ htokens rfl rfl
  exact ⟨_, _, _, rfl, htokens, rfl, rfl, hapart⟩

end OpenQasm
