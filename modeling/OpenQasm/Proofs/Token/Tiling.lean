import Mathlib.Algebra.Group.Nat.Defs
import OpenQasm.Proofs.Text.Boundary
import OpenQasm.Proofs.Token.Order

/-!
# Tokens tile a text

A text is made up of its tokens in their order and of blanks around them. Each token is a piece of
the text that is not empty, taken at the span of the token, and a byte that lies in no token is a
blank. Invalid characters, unclosed strings and comments, and calibration bodies make no difference:
whatever is cut off the text ahead becomes the text of one token.
-/

namespace OpenQasm

/-- Tokens that a text of a source is made up of, but for blanks between them. -/
structure Tiles (source : SourceId) (text : List Char) (tokens : List Token) : Prop where
  source : ∀ token ∈ tokens, token.span.source = source
  nonempty : ∀ token ∈ tokens, token.span.start < token.span.stop
  ordered : tokens.Pairwise fun left right => left.span.stop ≤ right.span.start
  /-- The span of a token lies on character boundaries, and its text stands there. -/
  slice : ∀ token ∈ tokens, Text.slice? text token.span.start token.span.stop = some token.text
  blank : ∀ offset < Text.width text,
    (∀ token ∈ tokens, ¬(token.span.start ≤ offset ∧ offset < token.span.stop)) →
    ∃ c ∈ [' ', '\t', '\r', '\n', '\x0c'], Text.slice? text offset (offset + 1) = some [c]

/-- The text from an offset on is these tokens in their order, with blanks around them. -/
inductive Tiled (source : SourceId) : Nat → List Char → List Token → Prop
  | blanks {offset : Nat} {blanks : List Char} :
      (∀ c ∈ blanks, Token.isSpace c) → Tiled source offset blanks []
  | token {offset : Nat} {blanks rest : List Char} {token : Token} {tokens : List Token} :
      (∀ c ∈ blanks, Token.isSpace c) → token.text ≠ [] →
      token.span = ⟨source, offset + Text.width blanks,
        offset + Text.width blanks + Text.width token.text⟩ →
      Tiled source (offset + Text.width blanks + Text.width token.text) rest tokens →
      Tiled source offset (blanks ++ (token.text ++ rest)) (token :: tokens)

namespace Lexer

/-- The tokens that a lexer yields one after the other until it yields no more. -/
inductive Drained : Lexer → List Token → Lexer → Prop
  | stop {lexer : Lexer} : lexer.next? = none → Drained lexer [] lexer
  | next {lexer after last : Lexer} {token : Token} {tokens : List Token} :
      lexer.next? = some (token, after) → Drained after tokens last →
      Drained lexer (token :: tokens) last

section
variable {lexer next last : Lexer} {token : Token} {tokens : List Token}

/-- Draining a lexer is taking one token after the other. -/
theorem drained_drain (lexer : Lexer) : Drained lexer lexer.drain.1 lexer.drain.2 := by
  fun_induction drain lexer with
  | case1 lexer h => exact .stop h
  | case2 lexer token after h _ tokens last hdrain ih =>
    rw [hdrain] at ih
    exact .next h ih

/-- A token and what is ahead of it make up the text that was ahead. -/
theorem token_append (lexer : Lexer) (c : Char) (text : List Char) :
    (lexer.token c text).1.text ++ (lexer.token c text).2.rest = lexer.rest := by
  unfold Lexer.token
  dsimp only
  split
  · split
    · unfold calibrationBody
      dsimp only
      split <;> exact List.take_append_drop _ _
    · exact List.take_append_drop _ _
  all_goals exact List.take_append_drop _ _

/-- Taking a token cuts it off the text, with the blanks ahead of it. -/
theorem exists_blanks (h : lexer.next? = some (token, next)) :
    ∃ blanks, (∀ c ∈ blanks, Token.isSpace c) ∧ token.text ≠ [] ∧
      lexer.rest = blanks ++ (token.text ++ next.rest) ∧
      next.offset = lexer.offset + Text.width blanks + Text.width token.text ∧
      token.span = .ofRange lexer.source (lexer.offset + Text.width blanks) next.offset := by
  unfold next? at h
  dsimp only at h
  split at h
  · cases h
  · next c text hr =>
    have happend := lexer.skipSpace.token_append c text
    have hspans := spans_token lexer.skipSpace c text
    obtain ⟨n, hn⟩ := exists_rest_token hr (isSpace_of_rest_skipSpace hr)
    rw [Option.some.inj h] at happend hspans hn
    obtain ⟨hpassed, hspan⟩ := hspans
    dsimp only at happend hpassed hspan hn
    refine ⟨lexer.rest.takeWhile Token.isSpace,
      List.all_eq_true.1 List.all_takeWhile, ?_, ?_, ?_, ?_⟩
    · intro hnil
      rw [hnil, List.nil_append, hn, hr] at happend
      have := congrArg List.length happend
      simp at this
      omega
    · rw [happend, skipSpace, rest_advance, Token.drop_run, List.takeWhile_append_dropWhile]
    · have hstop := hpassed.stop
      rw [Lexer.stop, Lexer.stop, ← happend, Text.width_append] at hstop
      have hoffset : lexer.skipSpace.offset =
          lexer.offset + Text.width (lexer.rest.takeWhile Token.isSpace) := by
        simp [skipSpace, advance]
      omega
    · rw [hspan]
      simp [skipSpace, advance]

/-- The tokens of a lexer and the blanks around them are the text ahead. -/
theorem Drained.tiled (h : Drained lexer tokens last) (hl : lexer.stop ≤ maxOffset) :
    Tiled lexer.source lexer.offset lexer.rest tokens := by
  induction h with
  | @stop lexer h =>
    refine .blanks ?_
    unfold next? at h
    dsimp only at h
    split at h
    · next hr =>
      rw [skipSpace, rest_advance, Token.drop_run] at hr
      have hall := @List.takeWhile_append_dropWhile _ Token.isSpace lexer.rest
      rw [hr, List.append_nil] at hall
      exact hall ▸ List.all_eq_true.1 List.all_takeWhile
    · cases h
  | @next lexer after last token tokens h _ ih =>
    obtain ⟨behind, hbehind, hafter, -⟩ := next?_spans h
    have hpassed := hbehind.trans hafter
    obtain ⟨blanks, hblanks, htext, hrest, hoffset, hspan⟩ := exists_blanks h
    have htiled := ih (hpassed.stop ▸ hl)
    rw [hpassed.source, hoffset] at htiled
    rw [hrest]
    refine .token hblanks htext ?_ htiled
    rw [Lexer.stop, hrest, Text.width_append, Text.width_append] at hl
    rw [hspan, hoffset, Span.ofRange, Nat.min_eq_left (by omega), Nat.min_eq_left (by omega)]

end

end Lexer

section
variable {source : SourceId} {offset position : Nat} {text blanks : List Char}
  {tokens : List Token} {token : Token}

theorem Token.isSpace_iff (c : Char) :
    Token.isSpace c = true ↔ c ∈ [' ', '\t', '\r', '\n', '\x0c'] := by
  simp [Token.isSpace, or_assoc]

/-- A blank is one byte. -/
theorem Token.utf8Size_of_isSpace {c : Char} (h : Token.isSpace c) : c.utf8Size = 1 := by
  rw [Token.isSpace_iff] at h
  simp only [List.mem_cons, List.not_mem_nil, or_false] at h
  rcases h with rfl | rfl | rfl | rfl | rfl <;> rfl

/-- Every byte of some blanks is a blank by itself. -/
theorem exists_slice?_of_blanks (before after : List Char)
    (hs : ∀ c ∈ blanks, Token.isSpace c)
    (hlow : Text.width before ≤ position)
    (hhigh : position < Text.width before + Text.width blanks) :
    ∃ c ∈ [' ', '\t', '\r', '\n', '\x0c'],
      Text.slice? (before ++ (blanks ++ after)) position (position + 1) = some [c] := by
  induction blanks generalizing before with
  | nil =>
    rw [Text.width_nil] at hhigh
    omega
  | cons c blanks ih =>
    have hc := hs c List.mem_cons_self
    have hsize := Token.utf8Size_of_isSpace hc
    rcases Nat.eq_or_lt_of_le hlow with rfl | hlt
    · refine ⟨c, (Token.isSpace_iff c).1 hc, ?_⟩
      have := Text.slice?_append before [c] (blanks ++ after)
      simpa [hsize] using this
    · have hbefore : Text.width (before ++ [c]) = Text.width before + 1 := by simp [hsize]
      rw [Text.width_cons, hsize] at hhigh
      have := ih (before ++ [c]) (fun c hc => hs c (List.mem_cons_of_mem _ hc)) (by omega)
        (by omega)
      simpa using this

/-- The tokens of a tiled text are no points, and lie behind the offset. -/
theorem Tiled.span (h : Tiled source offset text tokens) :
    ∀ token ∈ tokens, token.span.source = source ∧ offset ≤ token.span.start ∧
      token.span.start < token.span.stop := by
  induction h with
  | blanks => exact fun _ hm => nomatch hm
  | token _ htext hspan _ ih =>
    intro token hm
    have hwidth := Text.width_pos htext
    rcases List.mem_cons.1 hm with rfl | hm
    · rw [hspan]
      exact ⟨rfl, Nat.le_add_right _ _, by dsimp only; omega⟩
    · obtain ⟨hsource, hstart, hstop⟩ := ih token hm
      exact ⟨hsource, by omega, hstop⟩

/-- Every token of a tiled text ends before the later ones begin. -/
theorem Tiled.ordered (h : Tiled source offset text tokens) :
    tokens.Pairwise fun left right => left.span.stop ≤ right.span.start := by
  induction h with
  | blanks => exact .nil
  | token _ _ hspan htiled ih =>
    refine .cons (fun token hm => ?_) ih
    rw [hspan]
    exact (htiled.span token hm).2.1

/-- The tokens of a tiled text stand in it where their spans say. -/
theorem Tiled.slice (h : Tiled source offset text tokens) (before : List Char)
    (ho : offset = Text.width before) :
    ∀ token ∈ tokens,
      Text.slice? (before ++ text) token.span.start token.span.stop = some token.text := by
  induction h generalizing before with
  | blanks => exact fun _ hm => nomatch hm
  | @token offset blanks rest first tokens _ _ hspan _ ih =>
    intro token hm
    rcases List.mem_cons.1 hm with rfl | hm
    · have hslice := Text.slice?_append (before ++ blanks) token.text rest
      rw [Text.width_append, ← ho] at hslice
      rw [hspan]
      simpa using hslice
    · have hslice := ih (before ++ blanks ++ first.text) (by simp [ho, Nat.add_assoc]) token hm
      simpa using hslice

/-- A byte of a tiled text that lies in no token is a blank. -/
theorem Tiled.blank (h : Tiled source offset text tokens) (before : List Char)
    (ho : offset = Text.width before) (hlow : offset ≤ position)
    (hhigh : position < offset + Text.width text)
    (hout : ∀ token ∈ tokens, ¬(token.span.start ≤ position ∧ position < token.span.stop)) :
    ∃ c ∈ [' ', '\t', '\r', '\n', '\x0c'],
      Text.slice? (before ++ text) position (position + 1) = some [c] := by
  induction h generalizing before with
  | blanks hs =>
    have := exists_slice?_of_blanks before [] hs (ho ▸ hlow) (ho ▸ hhigh)
    rwa [List.append_nil] at this
  | @token offset blanks rest first tokens hs _ hspan _ ih =>
    by_cases hb : position < offset + Text.width blanks
    · exact exists_slice?_of_blanks before _ hs (ho ▸ hlow) (ho ▸ hb)
    · have hfirst := hout first List.mem_cons_self
      rw [hspan] at hfirst
      simp only [Text.width_append] at hfirst hhigh
      have := ih (before ++ blanks ++ first.text) (by simp [ho, Nat.add_assoc]) (by omega)
        (by omega) fun token hm => hout token (List.mem_cons_of_mem _ hm)
      simpa using this

end

/-! ## Tokens apart from each other -/

/-- Tokens of a source that take up some text each, one after the other. -/
structure Separate (source : SourceId) (tokens : List Token) : Prop where
  span : ∀ token ∈ tokens, token.span.source = source ∧ token.span.start < token.span.stop
  ordered : tokens.Pairwise fun left right => left.span.stop ≤ right.span.start

theorem Separate.sublist {source : SourceId} {tokens more : List Token} (h : Separate source tokens)
    (hs : more.Sublist tokens) : Separate source more where
  span := fun token hm => h.span token (hs.subset hm)
  ordered := h.ordered.sublist hs

/-- The tokens of a text that is not too long are apart from each other. -/
theorem tokenize_separate (source : SourceId) (text : List Char)
    (h : Text.width text ≤ maxOffset) : Separate source (tokenize source text).1 := by
  have hstop : (Lexer.ofText source text).stop = Text.width text := Nat.zero_add _
  have htiled : Tiled source 0 text (tokenize source text).1 :=
    (Lexer.ofText source text).drained_drain.tiled (hstop ▸ h)
  refine ⟨fun token hm => ?_, htiled.ordered⟩
  have hspan := htiled.span token hm
  exact ⟨hspan.1, hspan.2.2⟩

/-! ## Texts -/

/-- The tokens of a text that is not too long tile it, and taking one after the other comes to an
end with the last of them. -/
theorem tokenize_tiles (source : SourceId) (text : List Char) (h : Text.width text < 2 ^ 32) :
    Tiles source text (tokenize source text).1 ∧
      ∃ last, (Lexer.ofText source text).Drained (tokenize source text).1 last := by
  have hdrained := (Lexer.ofText source text).drained_drain
  have hstop : (Lexer.ofText source text).stop ≤ maxOffset := by
    have hw : (Lexer.ofText source text).stop = Text.width text := Nat.zero_add _
    rw [hw, maxOffset]
    omega
  have htiled : Tiled source 0 text (tokenize source text).1 := hdrained.tiled hstop
  refine ⟨?_, _, hdrained⟩
  exact
    { source := fun token hm => (htiled.span token hm).1
      nonempty := fun token hm => (htiled.span token hm).2.2
      ordered := htiled.ordered
      slice := fun token hm => htiled.slice [] rfl token hm
      blank := fun offset hlt hout =>
        htiled.blank [] rfl (Nat.zero_le _) (by omega) hout }

/-- Invalid characters, a string without its end, a calibration body and a comment without its end
tile their text. -/
theorem tokenize_tiles_faults : ∃ text : List Char,
    text = "x €€π \"0\ncal \x7b[\x7b\"\x7d]\x7d; /* ".toList ∧ Text.width text < 2 ^ 32 ∧
      Tiles ⟨0⟩ text (tokenize ⟨0⟩ text).1 ∧
      ∃ last, (Lexer.ofText ⟨0⟩ text).Drained (tokenize ⟨0⟩ text).1 last :=
  have hwidth : Text.width "x €€π \"0\ncal \x7b[\x7b\"\x7d]\x7d; /* ".toList < 2 ^ 32 := by
    decide +kernel
  ⟨_, rfl, hwidth, tokenize_tiles ⟨0⟩ _ hwidth⟩

end OpenQasm
