import OpenQasm.Grammar.Declaration

/-!
# Levels of braces

How many braces are open after some tokens. Tokens are balanced if they close all that they open
and nothing else.
-/

namespace OpenQasm.Grammar

/-- Whether a token is a brace, opening or closing. -/
def isBrace : TokenKind → Bool
  | .symbol .leftBrace | .symbol .rightBrace => true
  | _ => false

/-- The number of braces open after some tokens, if `opened` are open before them. There is none
if the tokens close a brace that is not open. -/
def braceLevel? : Nat → List Token → Option Nat
  | opened, [] => some opened
  | opened, token :: tokens =>
    if token.kind = Symbol.leftBrace then braceLevel? (opened + 1) tokens
    else if token.kind = Symbol.rightBrace then
      match opened with
      | 0 => none
      | opened + 1 => braceLevel? opened tokens
    else braceLevel? opened tokens

/-- Tokens that close every brace they open, and no other. -/
def Balanced (tokens : List Token) : Prop := braceLevel? 0 tokens = some 0

instance (tokens : List Token) : Decidable (Balanced tokens) := inferInstanceAs (Decidable (_ = _))

/-- The signatures of calibration definitions, which may hold any tokens, keep braces balanced. -/
def SignaturesBalanced (tokens : List Token) : Prop :=
  ∀ before token after, tokens = before ++ token :: after → token.kind = .keyword .kwDefcal →
    Balanced (after.takeWhile (!endsSignature ·.kind))

section
variable {opened level : Nat} {token : Token} {tokens : List Token}

/-- A left brace opens one level. -/
theorem braceLevel?_left (h : token.kind = Symbol.leftBrace) :
    braceLevel? opened (token :: tokens) = braceLevel? (opened + 1) tokens := by
  simp [braceLevel?, h]

/-- A right brace closes one. -/
theorem braceLevel?_right (h : token.kind = Symbol.rightBrace) :
    braceLevel? (opened + 1) (token :: tokens) = braceLevel? opened tokens := by
  simp [braceLevel?, h]

/-- If none is open, the levels do not match. -/
theorem braceLevel?_right_zero (h : token.kind = Symbol.rightBrace) :
    braceLevel? 0 (token :: tokens) = none := by
  simp [braceLevel?, h]

/-- Any other token changes no level. -/
theorem braceLevel?_plain (h : isBrace token.kind = false) :
    braceLevel? opened (token :: tokens) = braceLevel? opened tokens := by
  have hl : token.kind ≠ Symbol.leftBrace := by rintro h'; rw [h'] at h; cases h
  have hr : token.kind ≠ Symbol.rightBrace := by rintro h'; rw [h'] at h; cases h
  simp [braceLevel?, hl, hr]

/-- A token that is no closing brace, an opening one, or neither. -/
theorem brace_cases (token : Token) :
    token.kind = Symbol.leftBrace ∨ token.kind = Symbol.rightBrace ∨
      isBrace token.kind = false := by
  unfold isBrace
  split <;> simp_all

/-- The levels of two texts are counted in a row. -/
theorem braceLevel?_append (opened : Nat) (tokens more : List Token) :
    braceLevel? opened (tokens ++ more) =
      (braceLevel? opened tokens).bind fun level => braceLevel? level more := by
  induction tokens generalizing opened with
  | nil => rfl
  | cons token tokens ih =>
    rw [List.cons_append]
    rcases brace_cases token with h | h | h
    · rw [braceLevel?_left h, braceLevel?_left h, ih]
    · cases opened with
      | zero => rw [braceLevel?_right_zero h, braceLevel?_right_zero h, Option.bind_none]
      | succ opened => rw [braceLevel?_right h, braceLevel?_right h, ih]
    · rw [braceLevel?_plain h, braceLevel?_plain h, ih]

/-- What tokens do to the level does not depend on the braces open around them. -/
theorem braceLevel?_add (h : braceLevel? opened tokens = some level) (around : Nat) :
    braceLevel? (opened + around) tokens = some (level + around) := by
  induction tokens generalizing opened with
  | nil => simp_all [braceLevel?]
  | cons token tokens ih =>
    rcases brace_cases token with hk | hk | hk
    · rw [braceLevel?_left hk] at h ⊢
      rw [Nat.add_right_comm]
      exact ih h
    · cases opened with
      | zero => simp [braceLevel?_right_zero hk] at h
      | succ opened =>
        rw [braceLevel?_right hk] at h
        rw [Nat.add_right_comm, braceLevel?_right hk]
        exact ih h
    · rw [braceLevel?_plain hk] at h ⊢
      exact ih h

/-- Tokens that lead to one level from two lead to it from the same. -/
theorem braceLevel?_inj {opened' : Nat} (h : braceLevel? opened tokens = some level)
    (h' : braceLevel? opened' tokens = some level) : opened = opened' := by
  rcases Nat.le_total opened opened' with hle | hle
  · have := braceLevel?_add h (opened' - opened)
    rw [Nat.add_sub_cancel' hle, h', Option.some.injEq] at this
    omega
  · have := braceLevel?_add h' (opened - opened')
    rw [Nat.add_sub_cancel' hle, h, Option.some.injEq] at this
    omega

/-- Balanced tokens leave every level as it is. -/
theorem Balanced.braceLevel? (h : Balanced tokens) (opened : Nat) :
    braceLevel? opened tokens = some opened := by
  have := braceLevel?_add h opened
  rwa [Nat.zero_add] at this

end

end OpenQasm.Grammar
