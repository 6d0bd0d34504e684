import OpenQasm.Literal.Reader

/-!
# Separators in numbers

Underscores may set the characters of a number apart. They are stripped off exactly those texts in
which each of them stands between two other characters, whatever these are; that they are digits of
the radix is checked behind that.
-/

namespace OpenQasm.Literal

/-- Texts in which separators stand singly between two other characters, with these characters. -/
inductive Spaced : List Char → List Char → Prop
  | single {c : Char} : c ≠ '_' → Spaced [c] [c]
  | next {c : Char} {text digits : List Char} :
      c ≠ '_' → Spaced text digits → Spaced (c :: text) (c :: digits)
  | separated {c : Char} {text digits : List Char} :
      c ≠ '_' → Spaced text digits → Spaced (c :: '_' :: text) (c :: digits)

variable {text digits : List Char} {c : Char}

theorem Spaced.ne_nil (h : Spaced text digits) : digits ≠ [] := by
  cases h <;> simp

/-- The characters that are kept are those of the text that are no separators. -/
theorem Spaced.digits_eq (h : Spaced text digits) : digits = text.filter (· ≠ '_') := by
  induction h with
  | single hc => simp [hc]
  | next hc _ ih | separated hc _ ih => simp [hc, ih]

/-- Without separators, all characters are kept. -/
theorem spaced_self (hne : digits ≠ []) (h : ∀ c ∈ digits, c ≠ '_') : Spaced digits digits := by
  induction digits with
  | nil => exact absurd rfl hne
  | cons c digits ih =>
    obtain ⟨hc, hrest⟩ := List.forall_mem_cons.1 h
    cases digits with
    | nil => exact .single hc
    | cons d digits => exact .next hc (ih (List.cons_ne_nil _ _) hrest)

/-- A character before a text joins the first group, unless it is a separator. -/
theorem digitGroups_cons (text : List Char) (h : c ≠ '_') :
    ∃ first rest, digitGroups text = first :: rest ∧
      digitGroups (c :: text) = (c :: first) :: rest := by
  unfold digitGroups
  cases hfields : Text.fields '_' text with
  | nil => exact absurd hfields (Text.fields_ne_nil _ _)
  | cons first rest => exact ⟨first, rest, rfl, by rw [Text.fields, if_neg h, hfields]⟩

/-- No group of a spaced text is empty, and its groups are the characters that are kept. -/
theorem Spaced.groups (h : Spaced text digits) :
    (∀ group ∈ digitGroups text, group ≠ []) ∧ (digitGroups text).flatten = digits := by
  induction h with
  | single hc =>
    obtain ⟨first, rest, hgroups, heq⟩ := digitGroups_cons [] hc
    cases hgroups
    rw [heq]
    exact ⟨List.forall_mem_singleton.2 (List.cons_ne_nil _ _), rfl⟩
  | @next c text digits hc _ ih =>
    obtain ⟨first, rest, hgroups, heq⟩ := digitGroups_cons text hc
    rw [hgroups] at ih
    rw [heq]
    refine ⟨List.forall_mem_cons.2 ⟨List.cons_ne_nil _ _, (List.forall_mem_cons.1 ih.1).2⟩, ?_⟩
    rw [List.flatten_cons, List.cons_append, ← List.flatten_cons, ih.2]
  | @separated c text digits hc _ ih =>
    obtain ⟨first, rest, hgroups, heq⟩ := digitGroups_cons ('_' :: text) hc
    have hnone : digitGroups ('_' :: text) = [] :: digitGroups text := rfl
    obtain ⟨rfl, rfl⟩ := List.cons.inj (hgroups.symm.trans hnone)
    rw [heq]
    exact ⟨List.forall_mem_cons.2 ⟨List.cons_ne_nil _ _, ih.1⟩, by
      rw [List.flatten_cons, ih.2]; rfl⟩

/-- A text without an empty group is spaced. Behind another character, its first group may be
empty. -/
theorem spaced_of_groups (text : List Char) :
    ((∀ group ∈ digitGroups text, group ≠ []) → Spaced text (digitGroups text).flatten) ∧
      ∀ c : Char, c ≠ '_' → (∀ group ∈ (digitGroups text).tail, group ≠ []) →
        Spaced (c :: text) (c :: (digitGroups text).flatten) := by
  induction text with
  | nil => exact ⟨fun h => absurd rfl (h [] List.mem_cons_self), fun c hc _ => .single hc⟩
  | cons d text ih =>
    obtain ⟨hspaced, hbehind⟩ := ih
    by_cases hd : d = '_'
    · subst hd
      exact ⟨fun h => absurd rfl (h [] List.mem_cons_self), fun c hc h =>
        .separated hc (hspaced h)⟩
    · obtain ⟨first, rest, hgroups, heq⟩ := digitGroups_cons text hd
      have hflatten : (digitGroups (d :: text)).flatten = d :: (digitGroups text).flatten := by
        rw [heq, hgroups]
        rfl
      have hjoined : (∀ group ∈ rest, group ≠ []) →
          Spaced (d :: text) (digitGroups (d :: text)).flatten := by
        intro h
        rw [hflatten]
        exact hbehind d hd (hgroups ▸ h)
      rw [heq] at hjoined ⊢
      exact ⟨fun h => hjoined (List.forall_mem_cons.1 h).2, fun c hc h => .next hc (hjoined h)⟩

/-- The separators of a text are stripped off if they stand singly between two other characters, and
only then. -/
theorem stripSeparators_eq_ok_iff (whole : List Char) :
    stripSeparators text whole = .ok digits ↔ text = [] ∧ digits = [] ∨ Spaced text digits := by
  unfold stripSeparators
  cases text with
  | nil =>
    constructor
    · intro h
      exact .inl ⟨rfl, (Except.ok.inj h).symm⟩
    · rintro (⟨-, rfl⟩ | h)
      · rfl
      · cases h
  | cons c text =>
    rw [List.isEmpty_cons, Bool.not_false, Bool.true_and]
    constructor
    · intro h
      split at h
      · cases h
      · next hempty =>
        have hgroups : ∀ group ∈ digitGroups (c :: text), group ≠ [] := by
          rintro group hm rfl
          exact hempty (List.any_eq_true.2 ⟨[], hm, rfl⟩)
        rw [← Except.ok.inj h]
        exact .inr ((spaced_of_groups _).1 hgroups)
    · rintro (⟨h, -⟩ | h)
      · cases h
      · obtain ⟨hgroups, hdigits⟩ := h.groups
        rw [if_neg, hdigits]
        intro hempty
        obtain ⟨group, hm, heq⟩ := List.any_eq_true.1 hempty
        exact hgroups group hm (List.isEmpty_iff.1 heq)

end OpenQasm.Literal
