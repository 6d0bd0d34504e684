import Mathlib.Logic.Relation
import OpenQasm.Proofs.Literal.Decimal

/-!
# Normalization of decimals

A decimal is brought into normal form in rounds, each of which moves one zero from the end of the
mantissa into the exponent. The rounds come to an end, at the decimal that `ofScaled` builds; that
one is the only normal decimal with its value, so questions about the value are answered by its
mantissa and its exponent.
-/

namespace OpenQasm.Decimal

open Relation (ReflTransGen)

/-! ## Rounds -/

/-- A round of normalization: the mantissa ends with a zero, which moves into the exponent. -/
inductive Round (d : Decimal) : Decimal → Prop
  | zero : d.mantissa ≠ 0 → (10 : Int) ∣ d.mantissa → Round d ⟨d.mantissa / 10, d.exponent + 1⟩

section
variable {d next last : Decimal}

/-- A zero that is dropped makes the mantissa smaller. -/
theorem Round.natAbs_lt (h : Round d next) : next.mantissa.natAbs < d.mantissa.natAbs := by
  cases h
  dsimp only
  omega

/-- And the exponent larger by one. -/
theorem Round.exponent_eq (h : Round d next) : next.exponent = d.exponent + 1 := by
  cases h
  rfl

/-- There is one way to drop a zero. -/
theorem Round.unique (h : Round d next) (h' : Round d last) : next = last := by
  cases h
  cases h'
  rfl

/-- There is no endless sequence of rounds. -/
theorem round_wellFounded : WellFounded fun next d : Decimal => Round d next :=
  Subrelation.wf (r := fun next d : Decimal => next.mantissa.natAbs < d.mantissa.natAbs)
    Round.natAbs_lt (measure fun d : Decimal => d.mantissa.natAbs).wf

/-- A normal form has no zero to drop. -/
theorem Normal.not_round (h : d.Normal) : ¬Round d next := by
  intro hround
  cases hround with
  | zero hne hdvd => exact h.not_dvd hne hdvd

/-- Dropping zeros does not make the exponent smaller. -/
theorem exponent_le_of_rounds (h : ReflTransGen Round d last) : d.exponent ≤ last.exponent := by
  induction h with
  | refl => exact Int.le_refl _
  | tail _ hround ih =>
    rw [hround.exponent_eq]
    omega

/-- All sequences of rounds go the same way, so each can be continued up to the last decimal. -/
theorem rounds_to_last (hlast : ReflTransGen Round d last) (hnormal : last.Normal)
    (h : ReflTransGen Round d next) : ReflTransGen Round next last := by
  have hunique : Relator.RightUnique Round := fun _ _ _ => Round.unique
  rcases h.total_of_right_unique hunique hlast with hon | hback
  · exact hon
  · rcases hback.cases_head with rfl | ⟨_, hround, -⟩
    · exact .refl
    · exact absurd hround hnormal.not_round

end

/-- The loop that strips zeros is a sequence of rounds, whatever the sign of the mantissa is. -/
theorem rounds_stripZeros (sign : Int) (hsign : sign ≠ 0) (magnitude : Nat) (exponent : Int) :
    ReflTransGen Round ⟨sign * magnitude, exponent⟩
      ⟨sign * (stripZeros magnitude exponent).1, (stripZeros magnitude exponent).2⟩ := by
  fun_induction stripZeros magnitude exponent with
  | case1 magnitude exponent hz ih =>
    obtain ⟨hpos, hmod⟩ := hz
    have hsplit : (magnitude : Int) = (magnitude / 10 : Nat) * 10 := by omega
    have hmantissa : sign * magnitude = sign * (magnitude / 10 : Nat) * 10 := by
      rw [hsplit, mul_assoc]
    have hround : Round ⟨sign * magnitude, exponent⟩
        ⟨sign * magnitude / 10, exponent + 1⟩ :=
      .zero (mul_ne_zero hsign (by omega)) (Dvd.intro_left _ hmantissa.symm)
    rw [hmantissa, Int.mul_ediv_cancel _ (by decide), ← hmantissa] at hround
    exact ih.head hround
  | case2 => exact .refl

/-- The rounds lead from a scaled number to the decimal that stands for it. -/
theorem rounds_ofScaled (mantissa exponent : Int) (h : mantissa ≠ 0) :
    ReflTransGen Round ⟨mantissa, exponent⟩ (ofScaled mantissa exponent) := by
  have hsign : mantissa.sign ≠ 0 := mt Int.sign_eq_zero_iff_zero.1 h
  have hrounds := rounds_stripZeros mantissa.sign hsign mantissa.natAbs exponent
  rw [Int.sign_mul_natAbs] at hrounds
  rw [ofScaled, if_neg h]
  exact hrounds

/-! ## Whole and rational values -/

section
variable {d : Decimal}

/-- The exponent of a whole number counts the zeros at its end. -/
theorem Normal.le_exponent_iff (h : d.Normal) {n : Int} (hn : d.value = n) (hne : n ≠ 0)
    (zeros : Nat) : (zeros : Int) ≤ d.exponent ↔ (10 ^ zeros : Int) ∣ n := by
  constructor
  · intro hle
    obtain ⟨k, hk⟩ := Int.eq_ofNat_of_zero_le (Int.sub_nonneg_of_le hle)
    have hexponent : d.exponent = (zeros + k : Nat) := by push_cast; omega
    have hvalue : (n : ℚ) = (10 ^ zeros * (d.mantissa * 10 ^ k) : Int) := by
      rw [← hn, value, hexponent, zpow_natCast, pow_add]
      push_cast
      exact mul_left_comm _ _ _
    exact ⟨d.mantissa * 10 ^ k, by exact_mod_cast hvalue⟩
  · rintro ⟨k, rfl⟩
    have hscaled : d.value = (⟨k, zeros⟩ : Decimal).value := by
      rw [hn, value, zpow_natCast, mul_comm]
      push_cast
      rfl
    exact h.exponent_le (right_ne_zero_of_mul hne) hscaled

/-- A decimal in normal form is whole if and only if its exponent is not negative. -/
theorem Normal.isIntegral_iff (h : d.Normal) : d.isIntegral = true ↔ ∃ n : Int, d.value = n := by
  rw [isIntegral, decide_eq_true_iff]
  constructor
  · intro hexponent
    obtain ⟨k, hk⟩ := Int.eq_ofNat_of_zero_le hexponent
    exact ⟨d.mantissa * 10 ^ k, by rw [value, hk, zpow_natCast]; push_cast; rfl⟩
  · rintro ⟨n, hn⟩
    by_cases hz : d.mantissa = 0
    · rw [h.exponent_eq_zero hz]
    · have hne : n ≠ 0 := by
        rintro rfl
        exact hz (mantissa_eq_zero_iff.2 (by rw [hn, Int.cast_zero]))
      exact (h.le_exponent_iff hn hne 0).2 (one_dvd n)

/-- The rational number that is written out is the value. -/
theorem toRat?_eq (d : Decimal) :
    d.toRat? = if d.exponent.natAbs ≤ maxExpanded then some d.value else none := by
  obtain ⟨mantissa, exponent⟩ := d
  unfold toRat? value
  dsimp only
  split
  · congr 1
    obtain ⟨places, rfl | rfl⟩ := exponent.eq_nat_or_neg
    · simp [Rat.mkRat_eq_div]
    · rcases places.eq_zero_or_pos with rfl | hpos
      · simp [Rat.mkRat_eq_div]
      · rw [if_neg (by omega)]
        simp [Rat.mkRat_eq_div, div_eq_mul_inv]
  · rfl

end

/-! ## Canonical form -/

/-- Decimals are canonical. Normalization ends: of a mantissa other than zero, every sequence of
rounds can be continued up to one decimal, from which no round leads on, and no exponent on the way
is beyond those at its ends. Equal values have equal decimals; nothing can be moved from the
mantissa to the exponent; the sign of the exponent tells whether the value is whole; and the
fraction that is written out is the value in lowest terms. -/
theorem ofScaled_canonical (mantissa exponent mantissa' exponent' : Int) :
    (WellFounded fun next d : Decimal => Round d next) ∧
    (mantissa = 0 ∧ ofScaled mantissa exponent = ⟨0, 0⟩ ∨
      mantissa ≠ 0 ∧ ∀ d, ReflTransGen Round ⟨mantissa, exponent⟩ d →
        ReflTransGen Round d (ofScaled mantissa exponent) ∧
        exponent ≤ d.exponent ∧ d.exponent ≤ (ofScaled mantissa exponent).exponent) ∧
    (∀ d, ¬Round (ofScaled mantissa exponent) d) ∧
    (ofScaled mantissa exponent = ofScaled mantissa' exponent' ↔
      (mantissa * 10 ^ exponent : ℚ) = mantissa' * 10 ^ exponent') ∧
    (ofScaled mantissa exponent = ⟨0, 0⟩ ∨
      ¬(10 : Int) ∣ (ofScaled mantissa exponent).mantissa) ∧
    ((ofScaled mantissa exponent).isIntegral = true ↔
      ∃ n : Int, (mantissa * 10 ^ exponent : ℚ) = n) ∧
    ∀ q : ℚ, (ofScaled mantissa exponent).toRat? = some q ↔
      (ofScaled mantissa exponent).exponent.natAbs ≤ maxExpanded ∧
        (q.num / q.den : ℚ) = mantissa * 10 ^ exponent ∧ q.num.natAbs.Coprime q.den := by
  have hnormal := ofScaled_normal mantissa exponent
  refine ⟨round_wellFounded, ?_, fun _ => hnormal.not_round, ?_, ?_, ?_, fun q => ?_⟩
  · by_cases hz : mantissa = 0
    · exact .inl ⟨hz, if_pos hz⟩
    · refine .inr ⟨hz, fun d hd => ?_⟩
      have hlast := rounds_to_last (rounds_ofScaled mantissa exponent hz) hnormal hd
      exact ⟨hlast, exponent_le_of_rounds hd, exponent_le_of_rounds hlast⟩
  · rw [eq_ofScaled_iff, value_ofScaled, and_iff_right hnormal]
  · by_cases hz : (ofScaled mantissa exponent).mantissa = 0
    · left
      rw [Decimal.mk.injEq]
      exact ⟨hz, hnormal.exponent_eq_zero hz⟩
    · exact .inr (hnormal.not_dvd hz)
  · rw [hnormal.isIntegral_iff, value_ofScaled]
  · rw [toRat?_eq, value_ofScaled, Rat.num_div_den, and_iff_left q.reduced]
    split
    · next hexpanded => simp [hexpanded, eq_comm]
    · next hexpanded => simp [hexpanded]

end OpenQasm.Decimal
