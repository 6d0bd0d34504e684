import OpenQasm.Grammar.Lookahead

/-!
# Groups of tokens

What the count of open groups makes of tokens whose brackets nest: it goes past them, or it stops at
the first semicolon among them.
-/

namespace OpenQasm.Grammar

/-- Tokens whose brackets nest, those of all kinds alike. -/
inductive Nests : List Token → Prop
  | nil : Nests []
  | token {token : Token} {tokens : List Token} : isOpening token.kind = false →
      isClosing token.kind = false → Nests tokens → Nests (token :: tokens)
  | group {left right : Token} {inside tokens : List Token} : isOpening left.kind = true →
      isClosing right.kind = true → Nests inside → Nests tokens →
      Nests (left :: (inside ++ right :: tokens))

/-- No semicolon stands among the tokens. -/
def Unbroken (tokens : List Token) : Prop := ∀ token ∈ tokens, token.kind ≠ Symbol.semicolon

/-- Tokens between two brackets. -/
structure Group where
  left : Token
  inside : List Token
  right : Token
  opening : isOpening left.kind = true
  closing : isClosing right.kind = true

namespace Group

def tokens (group : Group) : List Token := group.left :: (group.inside ++ [group.right])

end Group

/-- The tokens are a group with a left bracket of a kind. -/
def Bracketed (left : TokenKind) (tokens : List Token) : Prop :=
  ∃ group : Group, group.left.kind = left ∧ tokens = group.tokens

/-- The tokens between the first and the last one. -/
def within (tokens : List Token) : List Token := tokens.tail.dropLast

section
variable {kind : TokenKind} {token left right : Token} {tokens more inside rest : List Token}
  {opened : Nat}

/-! ## Nesting -/

/-- Two nests in a row are one. -/
theorem Nests.append (h : Nests tokens) (h' : Nests more) : Nests (tokens ++ more) := by
  induction h with
  | nil => exact h'
  | token ho hc _ ih => exact .token ho hc ih
  | group ho hc hinside _ _ ih =>
    rw [List.cons_append, List.append_assoc, List.cons_append]
    exact .group ho hc hinside ih

/-- There is no semicolon in an empty text. -/
theorem unbroken_nil : Unbroken [] := fun _ hm => absurd hm List.not_mem_nil

/-- Nor in two texts without one. -/
theorem Unbroken.append (h : Unbroken tokens) (h' : Unbroken more) : Unbroken (tokens ++ more) :=
  fun token hm => (List.mem_append.1 hm).elim (h token) (h' token)

/-- A text has no semicolon if neither of its parts has. -/
theorem unbroken_append_iff : Unbroken (tokens ++ more) ↔ Unbroken tokens ∧ Unbroken more :=
  List.forall_mem_append

/-- Or if its first token is none and the rest has none. -/
theorem unbroken_cons_iff :
    Unbroken (token :: tokens) ↔ token.kind ≠ Symbol.semicolon ∧ Unbroken tokens :=
  List.forall_mem_cons

/-- A bracket is no semicolon. -/
theorem ne_semicolon_of_bracket (h : isOpening kind = true ∨ isClosing kind = true) :
    kind ≠ Symbol.semicolon := by
  rintro rfl
  cases h with
  | inl h => cases h
  | inr h => cases h

/-- A group has no semicolon if there is none inside. -/
theorem Group.unbroken_tokens_iff {group : Group} :
    Unbroken group.tokens ↔ Unbroken group.inside := by
  have hright : Unbroken [group.right] :=
    List.forall_mem_singleton.2 (ne_semicolon_of_bracket (.inr group.closing))
  rw [Group.tokens, unbroken_cons_iff, unbroken_append_iff]
  exact ⟨fun h => h.2.1, fun h => ⟨ne_semicolon_of_bracket (.inl group.opening), h, hright⟩⟩

/-! ## Counting -/

/-- A closing bracket does not open. -/
theorem not_opening_of_closing (h : isClosing kind = true) :
    isOpening kind = false := by
  unfold isClosing at h
  split at h
  · rfl
  · rfl
  · rfl
  · cases h

/-- An opening bracket opens one group more. -/
theorem afterGroup_opening (h : isOpening token.kind = true) :
    afterGroup opened (token :: rest) = afterGroup (opened + 1) rest := by
  rw [afterGroup, if_pos h]

/-- A closing bracket closes one. -/
theorem afterGroup_closing (h : isClosing token.kind = true) :
    afterGroup (opened + 2) (token :: rest) = afterGroup (opened + 1) rest := by
  rw [afterGroup, not_opening_of_closing h, if_neg Bool.false_ne_true, if_pos h,
    if_neg (by omega)]
  rfl

/-- Behind the bracket that closes the last one the group is over. -/
theorem afterGroup_closing_last (h : isClosing token.kind = true) :
    afterGroup 1 (token :: rest) = rest := by
  rw [afterGroup, not_opening_of_closing h, if_neg Bool.false_ne_true, if_pos h,
    if_pos (Nat.le_refl 1)]

/-- A group is cut short before a semicolon. -/
theorem afterGroup_semicolon (h : token.kind = Symbol.semicolon) :
    afterGroup opened (token :: rest) = token :: rest := by
  rw [afterGroup, h]
  rfl

/-- Any other token is passed over. -/
theorem afterGroup_token (ho : isOpening token.kind = false) (hc : isClosing token.kind = false)
    (hs : token.kind ≠ Symbol.semicolon) :
    afterGroup opened (token :: rest) = afterGroup opened rest := by
  rw [afterGroup, ho, hc, if_neg Bool.false_ne_true, if_neg Bool.false_ne_true, if_neg hs]

/-- The count goes past tokens that nest if no semicolon stands among them. -/
theorem Nests.afterGroup_eq (h : Nests tokens) (hs : Unbroken tokens) :
    afterGroup (opened + 1) (tokens ++ rest) = afterGroup (opened + 1) rest := by
  induction h generalizing opened rest with
  | nil => rfl
  | token ho hc _ ih =>
    obtain ⟨hhead, htail⟩ := unbroken_cons_iff.1 hs
    rw [List.cons_append, afterGroup_token ho hc hhead, ih htail]
  | group ho hc _ _ ih ih' =>
    obtain ⟨-, hs⟩ := unbroken_cons_iff.1 hs
    obtain ⟨hinside, hs⟩ := unbroken_append_iff.1 hs
    obtain ⟨-, htail⟩ := unbroken_cons_iff.1 hs
    rw [List.cons_append, afterGroup_opening ho, List.append_assoc, ih hinside, List.cons_append,
      afterGroup_closing hc, ih' htail]

/-- The count stops at the first semicolon among tokens that nest. -/
theorem Nests.afterGroup_stops (h : Nests tokens) (hs : ¬Unbroken tokens) :
    startsWith Symbol.semicolon (afterGroup (opened + 1) (tokens ++ rest)) = true := by
  induction h generalizing opened rest with
  | nil => exact absurd unbroken_nil hs
  | @token token tokens ho hc _ ih =>
    rw [List.cons_append]
    by_cases hk : token.kind = Symbol.semicolon
    · rw [afterGroup_semicolon hk]
      simp [startsWith, hk]
    · rw [afterGroup_token ho hc hk]
      exact ih fun htail => hs (unbroken_cons_iff.2 ⟨hk, htail⟩)
  | @group left right inside tokens ho hc hinside _ ih ih' =>
    rw [List.cons_append, afterGroup_opening ho, List.append_assoc]
    by_cases hunbroken : Unbroken inside
    · rw [hinside.afterGroup_eq hunbroken, List.cons_append, afterGroup_closing hc]
      refine ih' fun htail => hs (unbroken_cons_iff.2 ⟨ne_semicolon_of_bracket (.inl ho), ?_⟩)
      exact hunbroken.append (unbroken_cons_iff.2 ⟨ne_semicolon_of_bracket (.inr hc), htail⟩)
    · exact ih hunbroken

/-- Within a group stands what is inside. -/
theorem Group.within_tokens (group : Group) : within group.tokens = group.inside :=
  List.dropLast_concat

namespace Bracketed

/-- The tokens after a group are found if it nests and holds no semicolon. -/
theorem afterGroup_eq (h : Bracketed kind tokens) (hn : Nests (within tokens))
    (hs : Unbroken tokens) : afterGroup 0 (tokens ++ rest) = rest := by
  obtain ⟨group, -, rfl⟩ := h
  rw [group.within_tokens] at hn
  rw [Group.tokens, List.cons_append, afterGroup_opening group.opening, List.append_assoc,
    hn.afterGroup_eq (group.unbroken_tokens_iff.1 hs), List.singleton_append,
    afterGroup_closing_last group.closing]

/-- A group with a semicolon in it is passed over only up to there. -/
theorem afterGroup_stops (h : Bracketed kind tokens) (hn : Nests (within tokens))
    (hs : ¬Unbroken tokens) :
    startsWith Symbol.semicolon (afterGroup 0 (tokens ++ rest)) = true := by
  obtain ⟨group, -, rfl⟩ := h
  rw [group.within_tokens] at hn
  rw [Group.tokens, List.cons_append, afterGroup_opening group.opening, List.append_assoc]
  exact hn.afterGroup_stops (mt group.unbroken_tokens_iff.2 hs)

/-- A bracketed text starts with its bracket. -/
theorem startsWith (h : Bracketed kind tokens) : startsWith kind (tokens ++ rest) = true := by
  obtain ⟨group, rfl, rfl⟩ := h
  simp [Grammar.startsWith, Group.tokens]

end Bracketed

end

end OpenQasm.Grammar
