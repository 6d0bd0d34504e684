import OpenQasm.Proofs.Token.Scanning
import OpenQasm.Proofs.Token.Tiling

/-!
# Calibration bodies among the tokens

After `cal` and `defcal` a body is pending until a semicolon or a closing brace comes. While it is
pending, an opening brace begins a body, and else it is a token of its own. A body is cut off at the
brace that closes the first one, so that the braces inside nest.
-/

namespace OpenQasm

/-- Text whose braces nest. -/
inductive Embraced : List Char → Prop
  | nil : Embraced []
  | char {c : Char} {text : List Char} : c ≠ '{' → c ≠ '}' → Embraced text → Embraced (c :: text)
  | group {inside text : List Char} : Embraced inside → Embraced text →
      Embraced ('{' :: (inside ++ '}' :: text))

/-- Text that closes so many braces, the last one at its end. -/
inductive Closing : Nat → List Char → Prop
  | nil : Closing 0 []
  | close {depth : Nat} {inside text : List Char} : Embraced inside → Closing depth text →
      Closing (depth + 1) (inside ++ '}' :: text)

/-- What closes a group has an inside, a brace and a rest. -/
theorem Closing.exists_inside {depth : Nat} {text : List Char} (h : Closing (depth + 1) text) :
    ∃ inside rest, text = inside ++ '}' :: rest ∧ Embraced inside ∧ Closing depth rest := by
  cases h with
  | close hinside hrest => exact ⟨_, _, rfl, hinside, hrest⟩

/-- Whether a calibration body is pending after a token. -/
def Token.leavesPending (pending : Bool) (token : Token) : Bool :=
  if token.kind = .calibrationBody then false else Lexer.pendingAfter pending token.kind

namespace Lexer

/-- What is passed over closes the braces that are open. -/
theorem closing_of_closingLength? {depth n : Nat} {text : List Char}
    (h : closingLength? depth text = some n) : Closing depth (text.take n) := by
  fun_induction closingLength? depth text generalizing n with
  | case1 =>
    obtain rfl := Option.some.inj h
    exact .nil
  | case2 => cases h
  | case3 depth c text ih =>
    obtain ⟨n, hn, rfl⟩ := Option.map_eq_some_iff.1 h
    have hclosing := ih hn
    rw [List.take_succ_cons]
    by_cases hopen : c = '{'
    · rw [if_pos hopen] at hclosing
      obtain ⟨inside, more, heq, hinside, hmore⟩ := hclosing.exists_inside
      obtain ⟨behind, rest, rfl, hbehind, hrest⟩ := hmore.exists_inside
      rw [heq, hopen]
      have hgroup := Closing.close (.group hinside hbehind) hrest
      simpa using hgroup
    · rw [if_neg hopen] at hclosing
      by_cases hclose : c = '}'
      · rw [if_pos hclose] at hclosing
        rw [hclose]
        exact .close .nil hclosing
      · rw [if_neg hclose] at hclosing
        obtain ⟨inside, rest, heq, hinside, hrest⟩ := hclosing.exists_inside
        rw [heq]
        exact .close (.char hopen hclose hinside) hrest

/-- A calibration body is what stands between two braces and nests. -/
theorem exists_body {n : Nat} {text : List Char} (h : closingLength? 1 text = some n) :
    ∃ body, text.take n = body ++ ['}'] ∧ Embraced body := by
  obtain ⟨body, rest, heq, hbody, hrest⟩ := (closing_of_closingLength? h).exists_inside
  cases hrest
  exact ⟨body, heq, hbody⟩

/-- What is known of a token from the lexer that it is cut off, and of the lexer past it. -/
structure Apt (lexer : Lexer) (token : Token) (next : Lexer) : Prop where
  body : token.kind = .calibrationBody →
    lexer.calibrationPending = true ∧ ∃ body, token.text = '{' :: (body ++ ['}']) ∧ Embraced body
  leftBrace : token.kind = Symbol.leftBrace → lexer.calibrationPending = false
  keyword : ∀ keyword, token.kind = .keyword keyword →
    Keyword.ofWord? token.text = some keyword ∨ Keyword.ofSign? token.text = some keyword
  pending : token.kind ≠ .error →
    next.calibrationPending = token.leavesPending lexer.calibrationPending
  head : token.kind ≠ .error → ∀ c ∈ token.text.head?, Text.isBlank c = false

section
variable {lexer next last : Lexer} {token : Token} {tokens : List Token} {c : Char}
  {text : List Char}

/-- A piece that is an error says nothing. -/
theorem apt_fail (pending : Bool) (n : Nat) (message : String) :
    Apt lexer ({ lexer with calibrationPending := pending }.fail n message).1
      ({ lexer with calibrationPending := pending }.fail n message).2 where
  body := nofun
  leftBrace := nofun
  keyword := nofun
  pending h := absurd rfl h
  head h := absurd rfl h

/-- A piece that is a token by itself. -/
theorem apt_cut {kind : TokenKind} (hr : lexer.rest = c :: text)
    (hpending : kind = Symbol.leftBrace → lexer.calibrationPending = false)
    (ht : Token.Told (c :: text.take (Token.scan c text).tail) kind)
    (hb : Text.isBlank c = false) :
    Apt lexer
      ({ lexer with calibrationPending := pendingAfter lexer.calibrationPending kind }.cut kind
        ((Token.scan c text).tail + 1)).1
      ({ lexer with calibrationPending := pendingAfter lexer.calibrationPending kind }.cut kind
        ((Token.scan c text).tail + 1)).2 := by
  have htext : lexer.rest.take ((Token.scan c text).tail + 1) =
      c :: text.take (Token.scan c text).tail := by rw [hr, List.take_succ_cons]
  have hhead : (lexer.rest.take ((Token.scan c text).tail + 1)).head? = some c := by rw [htext]; rfl
  rw [← htext] at ht
  exact
    { body := fun hk => absurd hk ht.ne_calibrationBody
      leftBrace := hpending
      keyword := ht.keyword
      pending := fun _ => (if_neg ht.ne_calibrationBody).symm
      head := fun _ c' hc' => Option.some.inj (hhead.symm.trans hc') ▸ hb }

/-- A token is apt where it is cut. -/
theorem token_apt (hr : lexer.rest = c :: text) :
    Apt lexer (lexer.token c text).1 (lexer.token c text).2 := by
  have hblank : ∀ kind, (Token.scan c text).verdict = .token kind → Text.isBlank c = false := by
    refine fun kind hverdict => Bool.eq_false_iff.2 fun hb => ?_
    cases (Token.scan_of_isBlank hb text).symm.trans hverdict
  unfold Lexer.token
  dsimp only
  split
  · next hverdict =>
    have htold := Token.scan_told hverdict
    obtain rfl := Option.some.inj (htold.leftBrace rfl)
    split
    · next hpending =>
      unfold calibrationBody
      dsimp only
      split
      · next n hn =>
        rw [hr, List.drop_one, List.tail_cons] at hn
        obtain ⟨body, htake, hbody⟩ := exists_body hn
        have htext : lexer.rest.take (n + 1) = '{' :: (body ++ ['}']) := by
          rw [hr, List.take_succ_cons, htake]
        exact
          { body := fun _ => ⟨hpending, body, htext, hbody⟩
            leftBrace := nofun
            keyword := nofun
            pending := fun _ => rfl
            head := fun _ c hc => by
              rw [← Option.some.inj ((congrArg List.head? htext).symm.trans hc)]
              decide }
      · exact apt_fail false _ _
    · next hpending =>
      exact apt_cut hr (fun _ => Bool.eq_false_iff.2 hpending) htold (hblank _ hverdict)
  · next hverdict =>
    have hstring : ∀ kind, kind = .string ∨ kind = .bitstring → Apt lexer
        (lexer.cut kind ((Token.scan c text).tail + 1)).1
        (lexer.cut kind ((Token.scan c text).tail + 1)).2 := by
      rintro _ (rfl | rfl)
      all_goals exact apt_cut hr nofun ⟨nofun, nofun, nofun, nofun⟩ (hblank _ hverdict)
    refine hstring _ ?_
    unfold stringKind
    dsimp only
    split
    · exact .inr rfl
    · exact .inl rfl
  · next kind hne _ hverdict =>
    exact apt_cut hr (fun hk => absurd hk hne) (Token.scan_told hverdict) (hblank _ hverdict)
  · exact apt_fail lexer.calibrationPending _ _
  · exact apt_fail lexer.calibrationPending _ _
  · exact apt_fail lexer.calibrationPending _ _

/-- So is the next one behind the blanks. -/
theorem next?_apt (h : lexer.next? = some (token, next)) : Apt lexer token next := by
  unfold next? at h
  dsimp only at h
  split at h
  · cases h
  · next c text hr =>
    have hapt := token_apt hr
    rw [Option.some.inj h] at hapt
    exact { hapt with }

/-- Of the tokens of a lexer that are no errors, each is as apt as if it came first, when what is
pending after those before it is. -/
theorem Drained.apt (h : Drained lexer tokens last) (he : ∀ token ∈ tokens, token.kind ≠ .error)
    {front back : List Token} (hs : tokens = front ++ token :: back) :
    ∃ before after, Apt before token after ∧
      before.calibrationPending = front.foldl Token.leavesPending lexer.calibrationPending := by
  induction h generalizing front with
  | stop => cases front <;> cases hs
  | @next lexer after last first tokens hnext _ ih =>
    have hapt := next?_apt hnext
    cases front with
    | nil =>
      obtain ⟨rfl, rfl⟩ := List.cons.inj hs
      exact ⟨lexer, after, hapt, rfl⟩
    | cons other front =>
      obtain ⟨rfl, hrest⟩ := List.cons.inj hs
      obtain ⟨before, behind, hbefore, hpending⟩ :=
        ih (fun token hm => he token (List.mem_cons_of_mem _ hm)) hrest
      refine ⟨before, behind, hbefore, ?_⟩
      rw [hpending, hapt.pending (he _ List.mem_cons_self), List.foldl_cons]

end

end Lexer

/-! ## Stretches of a text -/

section
variable {source : SourceId} {offset : Nat} {text : List Char} {front back : List Token}
  {token : Token}

/-- A tiled text is cut at one of its tokens. -/
theorem Tiled.split (h : Tiled source offset text (front ++ token :: back)) :
    ∃ gap rest, text = gap ++ (token.text ++ rest) ∧ Tiled source offset gap front ∧
      token.text ≠ [] ∧ token.span = ⟨source, offset + Text.width gap,
        offset + Text.width gap + Text.width token.text⟩ ∧
      Tiled source (offset + Text.width gap + Text.width token.text) rest back := by
  induction front generalizing offset text with
  | nil =>
    cases h with
    | token hblanks htext hspan hrest =>
      exact ⟨_, _, rfl, .blanks hblanks, htext, hspan, hrest⟩
  | cons first front ih =>
    cases h with
    | @token _ blanks _ _ _ hblanks htext hspan hrest =>
      obtain ⟨gap, rest, rfl, hgap, hne, htoken, hback⟩ := ih hrest
      refine ⟨blanks ++ (first.text ++ gap), rest, by simp, .token hblanks htext hspan hgap,
        hne, ?_⟩
      simp only [Text.width_append, ← Nat.add_assoc]
      exact ⟨htoken, hback⟩

/-- A tiled text is cut behind some of its tokens. -/
theorem Tiled.cut (h : Tiled source offset text (front ++ back)) :
    ∃ head rest, text = head ++ rest ∧ Tiled source offset head front ∧
      front.foldl (fun _ token => token.span.stop) offset = offset + Text.width head ∧
      Tiled source (offset + Text.width head) rest back ∧
      (front = [] → head = []) ∧ ∀ first more, front = first :: more →
        ∃ blanks tail, head = blanks ++ (first.text ++ tail) ∧ first.text ≠ [] := by
  induction front generalizing offset text with
  | nil => exact ⟨[], text, rfl, .blanks nofun, rfl, h, fun _ => rfl, nofun⟩
  | cons first front ih =>
    cases h with
    | @token _ blanks _ _ _ hblanks htext hspan hrest =>
      obtain ⟨head, rest, rfl, hhead, hstop, hback, -, -⟩ := ih hrest
      refine ⟨blanks ++ (first.text ++ head), rest, by simp, .token hblanks htext hspan hhead, ?_⟩
      simp only [Text.width_append, ← Nat.add_assoc, List.foldl_cons]
      rw [hspan]
      refine ⟨hstop, hback, nofun, fun first' more heq => ?_⟩
      obtain ⟨rfl, -⟩ := List.cons.inj heq
      exact ⟨blanks, head, rfl, htext⟩

end

/-! ## Behind the keyword -/

/-- A keyword that no sign stands for is told by its word. -/
theorem Keyword.text_of_word {keyword : Keyword} {word : List Char}
    (hn : ∀ sign ∈ signs, sign.2 ≠ keyword)
    (h : ofWord? word = some keyword ∨ ofSign? word = some keyword) :
    word = keyword.text.toList := by
  rcases h with h | h
  · have hword := List.find?_some (show all.find? _ = some keyword from h)
    exact (beq_iff_eq.1 hword).symm
  · obtain ⟨sign, hsign, rfl⟩ := Option.map_eq_some_iff.1 h
    exact absurd rfl (hn sign (List.mem_of_find?_eq_some hsign))

/-- The calibration keywords are spelled in one way only. -/
theorem Keyword.text_of_calibration {keyword : Keyword} {word : List Char}
    (hc : keyword = .kwCal ∨ keyword = .kwDefcal)
    (h : ofWord? word = some keyword ∨ ofSign? word = some keyword) :
    word = keyword.text.toList := by
  refine text_of_word ?_ h
  rcases hc with rfl | rfl <;> decide

section
variable {source : SourceId} {text : List Char} {front inside back : List Token}
  {word token block : Token} {keyword : Keyword}

/-- Behind a calibration keyword a body is pending. -/
theorem Token.leavesPending_of_keyword (hk : word.kind = .keyword keyword)
    (hc : keyword = .kwCal ∨ keyword = .kwDefcal) (pending : Bool) :
    word.leavesPending pending = true := by
  rw [leavesPending, hk]
  rcases hc with rfl | rfl <;> rfl

/-- Only a body, a semicolon or a closing brace ends what is pending. -/
theorem Token.foldl_leavesPending (h : ∀ token ∈ inside, token.kind ≠ .calibrationBody ∧
      token.kind ≠ Symbol.semicolon ∧ token.kind ≠ Symbol.rightBrace) :
    inside.foldl Token.leavesPending true = true := by
  induction inside with
  | nil => rfl
  | cons token inside ih =>
    obtain ⟨hbody, hsemicolon, hbrace⟩ := h token List.mem_cons_self
    have hpending : token.leavesPending true = true := by
      rw [leavesPending, if_neg hbody]
      unfold Lexer.pendingAfter
      split
      · rfl
      · rfl
      · next hk => exact absurd hk hsemicolon
      · next hk => exact absurd hk hbrace
      · rfl
    rw [List.foldl_cons, hpending]
    exact ih fun token hm => h token (List.mem_cons_of_mem _ hm)

/-- What is known of a token of a text without error tokens. -/
theorem tokenize_apt (he : ∀ token ∈ (tokenize source text).1, token.kind ≠ .error)
    (hs : (tokenize source text).1 = front ++ token :: back) :
    ∃ before after, Lexer.Apt before token after ∧
      before.calibrationPending = front.foldl Token.leavesPending false :=
  (Lexer.ofText source text).drained_drain.apt he hs

/-- A token of such a text begins with no blank. -/
theorem not_isBlank_of_mem (he : ∀ token ∈ (tokenize source text).1, token.kind ≠ .error)
    (hm : token ∈ (tokenize source text).1) : ∀ c ∈ token.text.head?, Text.isBlank c = false := by
  obtain ⟨front, back, hs⟩ := List.append_of_mem hm
  obtain ⟨_, _, hapt, -⟩ := tokenize_apt he hs
  exact hapt.head (he token hm)

/-- Behind the keyword no brace is opened before a body, a semicolon or a closing brace comes. -/
theorem not_leftBrace_of_pending (he : ∀ token ∈ (tokenize source text).1, token.kind ≠ .error)
    (hs : (tokenize source text).1 = front ++ word :: (inside ++ token :: back))
    (hk : word.kind = .keyword keyword) (hc : keyword = .kwCal ∨ keyword = .kwDefcal)
    (hi : ∀ token ∈ inside, token.kind ≠ .calibrationBody ∧
      token.kind ≠ Symbol.semicolon ∧ token.kind ≠ Symbol.rightBrace) :
    token.kind ≠ Symbol.leftBrace := by
  intro hbrace
  have hsplit : (tokenize source text).1 = (front ++ word :: inside) ++ token :: back := by
    rw [hs, List.append_assoc, List.cons_append]
  obtain ⟨before, after, hapt, hpending⟩ := tokenize_apt he hsplit
  rw [hapt.leftBrace hbrace, List.foldl_append, List.foldl_cons,
    Token.leavesPending_of_keyword hk hc, Token.foldl_leavesPending hi] at hpending
  cases hpending

/-! ## Calibrations -/

/-- A calibration as its text shows it: its keyword, the tokens between, and its body in braces. -/
structure Quoted (source : SourceId) (text : List Char) (span : Span) (keyword : Keyword)
    (inside : List Token) (between body : List Char) : Prop where
  slice : Text.slice? text span.start span.stop =
    some (keyword.text.toList ++ (between ++ '{' :: (body ++ ['}'])))
  tiled : Tiled source (span.start + Text.width keyword.text.toList) between inside
  tokens : inside <:+: (tokenize source text).1
  embraced : Embraced body
  /-- The body is the first one, and the first brace is its own, unless a brace is closed before. -/
  first : ∀ (front : List Token) (token : Token) (back : List Token),
    inside = front ++ token :: back → token.kind ≠ .calibrationBody ∧
      (token.kind = Symbol.leftBrace → ∃ closing ∈ front, closing.kind = Symbol.rightBrace)

/-- From a keyword to a body with no other one and no semicolon between, the tokens are a
calibration. -/
theorem quoted_of_tokens (hw : Text.width text ≤ maxOffset)
    (he : ∀ token ∈ (tokenize source text).1, token.kind ≠ .error)
    (hs : (tokenize source text).1 = front ++ word :: (inside ++ block :: back))
    (hk : word.kind = .keyword keyword) (hc : keyword = .kwCal ∨ keyword = .kwDefcal)
    (hb : block.kind = .calibrationBody)
    (hi : ∀ token ∈ inside, token.kind ≠ .calibrationBody ∧ token.kind ≠ Symbol.semicolon) :
    word.span.start ≤ block.span.stop ∧ ∃ between,
      Quoted source text ⟨source, word.span.start, block.span.stop⟩ keyword inside between
        (block.text.drop 1).dropLast := by
  have hstop : (Lexer.ofText source text).stop = Text.width text := Nat.zero_add _
  have htiled : Tiled source 0 text (tokenize source text).1 :=
    (Lexer.ofText source text).drained_drain.tiled (hstop ▸ hw)
  rw [hs] at htiled
  obtain ⟨gap, rest, htext, -, -, hword, hrest⟩ := htiled.split
  obtain ⟨between, rest, rfl, hbetween, -, hblock, -⟩ := hrest.split
  obtain ⟨before, after, happt, -⟩ := tokenize_apt he hs
  have hspelled : word.text = keyword.text.toList :=
    Keyword.text_of_calibration hc (happt.keyword keyword hk)
  have hsplit : (tokenize source text).1 = (front ++ word :: inside) ++ block :: back := by
    rw [hs, List.append_assoc, List.cons_append]
  obtain ⟨_, _, hbody, -⟩ := tokenize_apt he hsplit
  obtain ⟨-, body, hblocktext, hembraced⟩ := hbody.body hb
  have hinner : (block.text.drop 1).dropLast = body := by
    rw [hblocktext, List.drop_one, List.tail_cons, List.dropLast_concat]
  rw [hword, hblock]
  dsimp only
  refine ⟨by omega, between, ?_, ?_, ?_, ?_, ?_⟩
  · have hslice := Text.slice?_append gap (word.text ++ (between ++ block.text)) rest
    rw [hinner, htext, ← hspelled, ← hblocktext]
    simpa [Nat.add_assoc] using hslice
  · rw [← hspelled]
    exact hbetween
  · exact ⟨front ++ [word], block :: back, by rw [hs]; simp⟩
  · rw [hinner]
    exact hembraced
  · rintro front' token back' rfl
    refine ⟨(hi token (by simp)).1, fun hbrace => Classical.byContradiction fun hnone => ?_⟩
    rw [List.append_assoc, List.cons_append] at hs
    refine not_leftBrace_of_pending he hs hk hc (fun closing hm => ?_) hbrace
    have hclosing := hi closing (List.mem_append_left _ hm)
    exact ⟨hclosing.1, hclosing.2, fun hk => hnone ⟨closing, hm, hk⟩⟩

end

end OpenQasm
