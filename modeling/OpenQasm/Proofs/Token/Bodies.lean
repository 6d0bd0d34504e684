import OpenQasm.Proofs.Token.Calibration
import OpenQasm.Proofs.Token.ReadAhead

/-!
# Where calibration bodies begin and end

An opening brace that a lexer comes to begins a calibration body if a `cal` or `defcal` was yielded
before and no semicolon, closing brace or body since. The body is the shortest head of the text
ahead with as many opening as closing braces. If there is none, all the text ahead is one error
token, and the last one. Every other opening brace is a token of its own.

The lexer that reads ahead may have scanned the brace, and kept it, before it yielded the invalid
characters in front of it. It cuts the same bodies.
-/

namespace OpenQasm

/-! ## Balanced text -/

/-- Text with as many opening as closing braces. -/
def Balanced (text : List Char) : Prop := text ≠ [] ∧ text.count '{' = text.count '}'

/-- The shortest head of a text that has as many opening as closing braces. -/
structure ShortestBalanced (body text : List Char) : Prop where
  head : body <+: text
  balanced : Balanced body
  least : ∀ other, other <+: text → Balanced other → body <+: other

/-- Text in which some of the `depth` braces that were open before stay open. -/
def Open (depth : Nat) (text : List Char) : Prop := text.count '}' < depth + text.count '{'

section
variable {depth n : Nat} {text : List Char}

/-- The number of open braces past a character. -/
def depthAfter (depth : Nat) (c : Char) : Nat :=
  if c = '{' then depth + 2 else if c = '}' then depth else depth + 1

/-- The closing brace is looked for one character after the other. -/
theorem Lexer.closingLength?_cons (depth : Nat) (c : Char) (text : List Char) :
    closingLength? (depth + 1) (c :: text) =
      (closingLength? (depthAfter depth c) text).map (· + 1) := rfl

/-- The depth counts the braces on the way. -/
theorem depthAfter_count (depth : Nat) (c : Char) (text : List Char) :
    depthAfter depth c + text.count '{' + (c :: text).count '}' =
      depth + 1 + (c :: text).count '{' + text.count '}' := by
  unfold depthAfter
  by_cases hopen : c = '{'
  · subst hopen
    simp
    omega
  · by_cases hclose : c = '}'
    · subst hclose
      simp
      omega
    · simp [hopen, hclose]

/-- A body that is open behind a character is open before it. -/
theorem open_cons {c : Char} (h : Open (depthAfter depth c) text) :
    Open (depth + 1) (c :: text) := by
  have := depthAfter_count depth c text
  unfold Open at h ⊢
  omega

/-- The braces that are open are closed where a body ends, and not before. -/
theorem Lexer.closingLength?_eq_some (h : closingLength? depth text = some n) :
    (text.take n).count '}' = depth + (text.take n).count '{' ∧
      ∀ m < n, Open depth (text.take m) := by
  induction text generalizing depth n with
  | nil =>
    cases depth with
    | zero =>
      obtain rfl := Option.some.inj h
      exact ⟨rfl, nofun⟩
    | succ depth => cases h
  | cons c text ih =>
    cases depth with
    | zero =>
      obtain rfl := Option.some.inj h
      exact ⟨rfl, nofun⟩
    | succ depth =>
      rw [closingLength?_cons] at h
      obtain ⟨n, hn, rfl⟩ := Option.map_eq_some_iff.1 h
      obtain ⟨hclosed, hopen⟩ := ih hn
      constructor
      · have := depthAfter_count depth c (text.take n)
        rw [List.take_succ_cons]
        omega
      · rintro (_ | m) hm
        · exact Nat.succ_pos _
        · exact open_cons (hopen m (Nat.lt_of_succ_lt_succ hm))

/-- The braces of a body without an end stay open. -/
theorem Lexer.closingLength?_eq_none (h : closingLength? depth text = none) (m : Nat) :
    Open depth (text.take m) := by
  induction text generalizing depth m with
  | nil =>
    cases depth with
    | zero => cases h
    | succ depth =>
      rw [List.take_nil]
      exact Nat.succ_pos _
  | cons c text ih =>
    cases depth with
    | zero => cases h
    | succ depth =>
      rw [closingLength?_cons, Option.map_eq_none_iff] at h
      cases m with
      | zero => exact Nat.succ_pos _
      | succ m => exact open_cons (ih h m)

/-- Behind a brace, a head of the text is balanced if it closes that brace. -/
theorem balanced_iff {m : Nat} :
    Balanced ('{' :: text.take m) ↔ (text.take m).count '}' = 1 + (text.take m).count '{' := by
  unfold Balanced
  simp
  omega

/-- A head of the text that is balanced takes the brace, and some more. -/
theorem exists_of_balanced {head : List Char} (hb : Balanced head) (h : head <+: '{' :: text) :
    ∃ m, head = '{' :: text.take m := by
  obtain ⟨rest, hrest⟩ := h
  cases head with
  | nil => exact absurd rfl hb.1
  | cons c head =>
    obtain ⟨rfl, rfl⟩ := List.cons.inj hrest
    exact ⟨head.length, by simp⟩

/-- A body is the shortest balanced head. -/
theorem shortestBalanced_of_closingLength? (h : Lexer.closingLength? 1 text = some n) :
    ShortestBalanced ('{' :: text.take n) ('{' :: text) := by
  obtain ⟨hclosed, hopen⟩ := Lexer.closingLength?_eq_some h
  refine ⟨?_, balanced_iff.2 hclosed, fun other hhead hbalanced => ?_⟩
  · exact (List.prefix_cons_inj _).2 (List.take_prefix _ _)
  · obtain ⟨m, rfl⟩ := exists_of_balanced hbalanced hhead
    have hle : n ≤ m := by
      refine Nat.le_of_not_lt fun hlt => ?_
      have := hopen m hlt
      rw [balanced_iff] at hbalanced
      unfold Open at this
      omega
    exact (List.prefix_cons_inj _).2 (List.take_prefix_take_left hle)

/-- If no brace closes the body, no head of the text is balanced. -/
theorem not_balanced_of_closingLength? (h : Lexer.closingLength? 1 text = none) (head : List Char)
    (hh : head <+: '{' :: text) : ¬ Balanced head := by
  intro hb
  obtain ⟨m, rfl⟩ := exists_of_balanced hb hh
  have := Lexer.closingLength?_eq_none h m
  rw [balanced_iff] at hb
  unfold Open at this
  omega

end

/-! ## Bodies that are awaited -/

/-- A body is awaited behind `cal` and `defcal`. -/
def Token.announcesBody (token : Token) : Prop :=
  token.kind = .keyword .kwCal ∨ token.kind = .keyword .kwDefcal

/-- No body is awaited any more behind a body, a semicolon and a closing brace. -/
def Token.settlesBody (token : Token) : Prop :=
  token.kind = .calibrationBody ∨ token.kind = Symbol.semicolon ∨ token.kind = Symbol.rightBrace

/-- A body has been announced, and nothing has settled it since. -/
def AwaitsBody (tokens : List Token) : Prop :=
  ∃ before word between, tokens = before ++ word :: between ∧ word.announcesBody ∧
    ∀ token ∈ between, ¬ token.settlesBody

section
variable {token : Token} {tokens : List Token} {pending : Bool}

/-- A body is awaited if it is announced, or was and is not settled. -/
theorem Token.leavesPending_iff : token.leavesPending pending = true ↔
    token.announcesBody ∨ (pending = true ∧ ¬ token.settlesBody) := by
  unfold leavesPending announcesBody settlesBody Lexer.pendingAfter
  split
  · next hk => simp [hk]
  · split <;> simp_all

/-- A body is awaited by the first token or by those behind it. -/
theorem awaitsBody_cons : AwaitsBody (token :: tokens) ↔
    (token.announcesBody ∧ ∀ other ∈ tokens, ¬ other.settlesBody) ∨ AwaitsBody tokens := by
  constructor
  · rintro ⟨_ | ⟨first, before⟩, word, between, heq, hword, hbetween⟩
    · obtain ⟨rfl, rfl⟩ := List.cons.inj heq
      exact .inl ⟨hword, hbetween⟩
    · obtain ⟨rfl, rfl⟩ := List.cons.inj heq
      exact .inr ⟨before, word, between, rfl, hword, hbetween⟩
  · rintro (⟨hword, hbetween⟩ | ⟨before, word, between, rfl, hword, hbetween⟩)
    · exact ⟨[], token, tokens, rfl, hword, hbetween⟩
    · exact ⟨token :: before, word, between, rfl, hword, hbetween⟩

/-- What is pending past some tokens was so before and is not settled, or is announced by them. -/
theorem foldl_leavesPending_iff : tokens.foldl Token.leavesPending pending = true ↔
    (pending = true ∧ ∀ token ∈ tokens, ¬ token.settlesBody) ∨ AwaitsBody tokens := by
  induction tokens generalizing pending with
  | nil => simp [AwaitsBody]
  | cons token tokens ih =>
    rw [List.foldl_cons, ih, awaitsBody_cons, Token.leavesPending_iff, List.forall_mem_cons,
      or_and_right, and_assoc, or_assoc, or_left_comm]

/-- Reading the tokens in a row tells whether a body is awaited. -/
theorem awaitsBody_iff : tokens.foldl Token.leavesPending false = true ↔ AwaitsBody tokens := by
  simp [foldl_leavesPending_iff]

end

namespace Lexer

section
variable {lexer next last : Lexer} {token : Token} {tokens : List Token} {c : Char}
  {text after : List Char}

/-- What is pending past a token is told by the token, unless no text is left. -/
theorem pending_token (hr : lexer.rest = c :: text) :
    (lexer.token c text).2.calibrationPending =
        (lexer.token c text).1.leavesPending lexer.calibrationPending ∨
      (lexer.token c text).2.rest = [] := by
  by_cases hk : (lexer.token c text).1.kind = .error
  · revert hk
    unfold Lexer.token
    dsimp only
    split
    · split
      · unfold calibrationBody
        dsimp only
        split
        · exact nofun
        · exact fun _ => .inr List.drop_length
      · exact nofun
    · unfold stringKind cut
      dsimp only
      split <;> exact nofun
    · next hkind => exact fun hk => absurd hk (Token.scan_told hkind).ne_error
    all_goals exact fun _ => .inl rfl
  · exact .inl ((token_apt hr).pending hk)

/-- Past some tokens, what is pending is told by them, unless no text is left. -/
theorem Yields.pending (h : Yields lexer tokens last) :
    last.calibrationPending = tokens.foldl Token.leavesPending lexer.calibrationPending ∨
      last.rest = [] := by
  induction h with
  | nil => exact .inl rfl
  | @cons lexer next last token tokens hnext hrest ih =>
    obtain ⟨c, text, hr, -, htoken⟩ := exists_of_next? hnext
    have hpending := pending_token hr
    rw [htoken] at hpending
    rcases hpending with hpending | hend
    · rw [List.foldl_cons]
      rw [hpending] at ih
      exact ih
    · obtain ⟨behind, heq, -⟩ := hrest.laid
      rw [hend] at heq
      exact .inr (List.append_eq_nil_iff.1 heq.symm).2

end

end Lexer

/-- What becomes of a brace ahead, when a body is awaited and when none is: the token that begins
with it, and the text behind that. -/
inductive Opens (awaited : Prop) (ahead : List Char) : Token → List Char → Prop
  | body {token : Token} {rest : List Char} : awaited → token.kind = .calibrationBody →
      ShortestBalanced token.text ahead → ahead = token.text ++ rest →
      Opens awaited ahead token rest
  | unclosed {token : Token} {rest : List Char} : awaited →
      (∀ head, head <+: ahead → ¬ Balanced head) → token.kind = .error → token.text = ahead →
      rest = [] → Opens awaited ahead token rest
  | brace {token : Token} {rest : List Char} : ¬ awaited → token.kind = Symbol.leftBrace →
      token.text = ['{'] → ahead = '{' :: rest → Opens awaited ahead token rest

section
variable {awaited : Prop} {ahead rest : List Char} {token : Token}

/-- What opens the text is the token with the rest behind it. -/
theorem Opens.append (h : Opens awaited ahead token rest) : ahead = token.text ++ rest := by
  cases h with
  | body _ _ _ hsplit => exact hsplit
  | unclosed _ _ _ htext hend => rw [htext, hend, List.append_nil]
  | brace _ _ htext hsplit => rw [htext, hsplit, List.singleton_append]

/-- The token is a body if one is awaited and can be cut. -/
theorem Opens.kind_iff (h : Opens awaited ahead token rest) :
    token.kind = .calibrationBody ↔ awaited ∧ ∃ body, ShortestBalanced body ahead := by
  cases h with
  | body hawaited hkind hbody _ => exact iff_of_true hkind ⟨hawaited, _, hbody⟩
  | unclosed _ hnone hkind _ _ =>
    rw [hkind]
    refine iff_of_false nofun ?_
    rintro ⟨-, body, hbody⟩
    exact hnone body hbody.head hbody.balanced
  | brace hnot hkind _ _ =>
    rw [hkind]
    exact iff_of_false nofun fun h => hnot h.1

/-- A body without its end runs to the end of the text. -/
theorem Opens.rest_of_error (h : Opens awaited ahead token rest) (hk : token.kind = .error) :
    rest = [] := by
  cases h with
  | body _ hkind _ _ => cases hk.symm.trans hkind
  | unclosed _ _ _ _ hend => exact hend
  | brace _ hkind _ _ => cases hk.symm.trans hkind

end

namespace Lexer

section
variable {lexer next last : Lexer} {token : Token} {tokens : List Token} {c : Char}
  {text after : List Char}

/-- Where a body is awaited, it begins with the brace, or else no text is left. -/
theorem opens_calibrationBody (hr : lexer.rest = '{' :: after) {awaited : Prop} (h : awaited) :
    Opens awaited lexer.rest lexer.calibrationBody.1 lexer.calibrationBody.2.rest := by
  have hafter : lexer.rest.drop 1 = after := by rw [hr, List.drop_one, List.tail_cons]
  unfold calibrationBody
  rw [hafter]
  cases hlength : closingLength? 1 after with
  | some n =>
    have hshortest := shortestBalanced_of_closingLength? hlength
    rw [← List.take_succ_cons, ← hr] at hshortest
    exact .body h rfl hshortest (List.take_append_drop _ _).symm
  | none =>
    have hnone := not_balanced_of_closingLength? hlength
    rw [← hr] at hnone
    exact .unclosed h hnone rfl List.take_length List.drop_length

/-- What becomes of a brace is told by what is pending. -/
theorem opens_token (hr : lexer.rest = '{' :: after) :
    Opens (lexer.calibrationPending = true) lexer.rest (lexer.token '{' after).1
      (lexer.token '{' after).2.rest := by
  unfold Lexer.token
  rw [Token.scan_leftBrace]
  dsimp only
  split
  · next hpending => exact opens_calibrationBody hr hpending
  · next hpending =>
    refine .brace hpending rfl ?_ ?_
    · rw [cut, hr]
      rfl
    · rw [rest_cut, hr]
      rfl

/-- What becomes of a brace is told by the tokens yielded before it. -/
theorem Yields.opens (h : Yields lexer tokens last) (hpending : lexer.calibrationPending = false)
    (hr : last.skipSpace.rest = '{' :: after) :
    ∃ token next, last.next? = some (token, next) ∧
      Opens (AwaitsBody tokens) ('{' :: after) token next.rest := by
  refine ⟨_, _, next?_of_rest hr, ?_⟩
  have hopens := opens_token hr
  rw [hr] at hopens
  have hawaits : last.calibrationPending = true ↔ AwaitsBody tokens := by
    rcases h.pending with hlast | hend
    · rw [hlast, hpending, awaitsBody_iff]
    · rw [skipSpace, rest_advance, hend, List.drop_nil] at hr
      cases hr
  exact propext hawaits ▸ hopens

end

end Lexer

/-! ## Sessions -/

/-- Whatever has been asked of a lexer before it comes to an opening brace: the next token begins
with the brace, as a body if one is awaited and the braces ahead can be balanced, as an error up to
the end of the text if they cannot, and by itself if none is awaited. The lexer that reads ahead
yields the same token there. -/
theorem session_bodies (source : SourceId) (text : List Char) (calls : List Call) :
    let session := Lexer.interface.serve (.ofText source text) calls
    let reading := ReadAhead.interface.serve (.ofText source text) calls
    let front := Answer.tokens session.1
    ∀ after, session.2.skipSpace.rest = '{' :: after →
      ∃ before token next reader, text = before ++ '{' :: after ∧ Lexer.Laid before front ∧
        session.2.next? = some (token, next) ∧ reading.2.next? = some (token, reader) ∧
        Opens (AwaitsBody front) ('{' :: after) token next.rest ∧
        (token.kind = .calibrationBody ↔
          AwaitsBody front ∧ ∃ body, ShortestBalanced body ('{' :: after)) ∧
        (token.kind = .error → next.next? = none) ∧
        token.span = .ofRange source (Text.width before) (Text.width (before ++ token.text)) := by
  intro session reading front after hr
  obtain ⟨reports, hyields⟩ := Lexer.serve_yields (.ofText source text) calls
  obtain ⟨_, other, hother, hopens⟩ := hyields.opens rfl hr
  obtain ⟨before, hrest, hlaid, -, hoffset, hspan⟩ := hyields.laid_next hother
  rw [Lexer.next?_withReports] at hother
  obtain ⟨⟨token, next⟩, hnext, heq⟩ := Option.map_eq_some_iff.1 hother
  obtain ⟨rfl, rfl⟩ := Prod.mk.inj heq
  have hahead := hopens.append
  rw [← hahead] at hrest
  have hstop : next.offset = Text.width (before ++ token.text) := hoffset.trans (Nat.zero_add _)
  have hstart : (Lexer.ofText source text).offset + Text.width before = Text.width before :=
    Nat.zero_add _
  obtain ⟨reader, hreader⟩ : ∃ reader, reading.2.next? = some (token, reader) := by
    have halike := ((ReadsAhead.ofText source text).serve calls).2
    rcases halike.next? with ⟨-, hnone⟩ | ⟨⟨_, reader⟩, ⟨_, _⟩, hreader, hsome, rfl, -⟩
    · cases hnext.symm.trans hnone
    · obtain ⟨rfl, -⟩ := Prod.mk.inj (Option.some.inj (hnext.symm.trans hsome))
      exact ⟨reader, hreader⟩
  refine ⟨before, token, next, reader, hrest, hlaid, hnext, hreader, hopens, hopens.kind_iff,
    ?_, ?_⟩
  · intro hk
    have hend : next.rest = [] := hopens.rest_of_error hk
    exact Lexer.next?_eq_none (by rw [Lexer.skipSpace, Lexer.rest_advance, hend, List.drop_nil])
  · rw [hspan, hstart]
    exact congrArg (Span.ofRange source (Text.width before)) hstop

/-- A brace that is scanned and kept before the invalid characters in front of it are yielded. -/
theorem session_bodies_kept : ∃ (text after : List Char) (calls : List Call) (token : Token),
    text = "cal x €\x7b \x7b\x7d \x7d; \x7d".toList ∧ calls = [.next, .next, .take, .next] ∧
      (Lexer.interface.serve (.ofText ⟨0⟩ text) calls).2.skipSpace.rest = '{' :: after ∧
      ∃ rest, Opens (AwaitsBody (Answer.tokens (Lexer.interface.serve (.ofText ⟨0⟩ text) calls).1))
        ('{' :: after) token rest := by
  have hrest : (Lexer.interface.serve (.ofText ⟨0⟩ "cal x €\x7b \x7b\x7d \x7d; \x7d".toList)
      [.next, .next, .take, .next]).2.skipSpace.rest =
        '{' :: " \x7b\x7d \x7d; \x7d".toList := by
    decide +kernel
  obtain ⟨_, token, next, _, -, -, -, -, hopens, -⟩ := session_bodies ⟨0⟩ _ _ _ hrest
  exact ⟨_, _, _, token, rfl, rfl, hrest, _, hopens⟩

end OpenQasm
