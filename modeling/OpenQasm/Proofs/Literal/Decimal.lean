import Mathlib.Algebra.Order.Field.Rat
import Mathlib.Algebra.Order.Field.Power
import OpenQasm.Literal.Decimal

/-!
# Values of decimals

A decimal stands for a rational number. In normal form, different decimals stand for different
numbers, so a decimal that is built from a scaled number is the only normal one with its value.
-/

namespace OpenQasm.Decimal

/-- The number that a decimal stands for. -/
def value (d : Decimal) : ℚ := d.mantissa * 10 ^ d.exponent

/-- No power of ten can be moved from the mantissa to the exponent, and zero has one form only. -/
structure Normal (d : Decimal) : Prop where
  exponent_eq_zero : d.mantissa = 0 → d.exponent = 0
  not_dvd : d.mantissa ≠ 0 → ¬(10 : Int) ∣ d.mantissa

/-- What the loop that strips zeros keeps, and what it ends with. -/
theorem stripZeros_spec (magnitude : Nat) (exponent : Int) (h : 0 < magnitude) :
    ¬10 ∣ (stripZeros magnitude exponent).1 ∧
      ((stripZeros magnitude exponent).1 : ℚ) * 10 ^ (stripZeros magnitude exponent).2 =
        magnitude * 10 ^ exponent := by
  fun_induction stripZeros magnitude exponent with
  | case1 magnitude exponent hz ih =>
    obtain ⟨hnot, hvalue⟩ := ih (by omega)
    refine ⟨hnot, hvalue.trans ?_⟩
    have hsplit : magnitude = magnitude / 10 * 10 := by omega
    calc ((magnitude / 10 : Nat) : ℚ) * 10 ^ (exponent + 1)
        = ((magnitude / 10 : Nat) : ℚ) * 10 * 10 ^ exponent := by
          rw [zpow_add_one₀ (by norm_num), mul_assoc, mul_comm (10 ^ exponent : ℚ)]
      _ = ((magnitude / 10 * 10 : Nat) : ℚ) * 10 ^ exponent := by push_cast; rfl
      _ = magnitude * 10 ^ exponent := by rw [← hsplit]
  | case2 magnitude exponent hz => exact ⟨by omega, rfl⟩

theorem ofScaled_normal (mantissa exponent : Int) : (ofScaled mantissa exponent).Normal := by
  unfold ofScaled
  split
  · exact ⟨fun _ => rfl, fun h => absurd rfl h⟩
  · next hm =>
    obtain ⟨hnot, -⟩ := stripZeros_spec mantissa.natAbs exponent (Int.natAbs_pos.2 hm)
    have hdvd : ¬(10 : Int) ∣ mantissa.sign * (stripZeros mantissa.natAbs exponent).1 := by
      rcases Int.sign_trichotomy mantissa with hs | hs | hs
      · rw [hs]; omega
      · exact absurd (Int.sign_eq_zero_iff_zero.1 hs) hm
      · rw [hs]; omega
    exact ⟨fun hzero => absurd (Dvd.intro 0 (by rw [mul_zero]; exact hzero.symm)) hdvd,
      fun _ => hdvd⟩

theorem value_ofScaled (mantissa exponent : Int) :
    (ofScaled mantissa exponent).value = mantissa * 10 ^ exponent := by
  unfold ofScaled value
  split
  · next hm => simp [hm]
  · next hm =>
    obtain ⟨-, hvalue⟩ := stripZeros_spec mantissa.natAbs exponent (Int.natAbs_pos.2 hm)
    have hsign : ((mantissa.sign * mantissa.natAbs : Int) : ℚ) = mantissa :=
      congrArg _ (Int.sign_mul_natAbs mantissa)
    rw [Int.cast_mul, Int.cast_natCast] at hsign ⊢
    rw [mul_assoc, hvalue, ← mul_assoc, hsign]

/-- A mantissa that is scaled up has zeros at its end. -/
theorem Normal.exponent_le {d other : Decimal} (h : d.Normal) (ho : other.mantissa ≠ 0)
    (heq : d.value = other.value) : other.exponent ≤ d.exponent := by
  refine Int.not_lt.1 fun hlt => ?_
  obtain ⟨n, hn⟩ := Int.eq_ofNat_of_zero_le (Int.sub_nonneg_of_le (Int.add_one_le_of_lt hlt))
  have hexponent : other.exponent = d.exponent + (n + 1 : Nat) := by push_cast; omega
  have hten : (10 : ℚ) ≠ 0 := by norm_num
  have hmantissa : (d.mantissa : ℚ) = (other.mantissa * 10 ^ (n + 1) : Int) := by
    refine mul_right_cancel₀ (zpow_ne_zero d.exponent hten) (heq.trans ?_)
    rw [value, hexponent, zpow_add₀ hten, zpow_natCast]
    push_cast
    rw [mul_assoc, mul_comm (10 ^ (n + 1) : ℚ)]
  have hint : d.mantissa = other.mantissa * 10 ^ (n + 1) := by exact_mod_cast hmantissa
  have hne : d.mantissa ≠ 0 := hint ▸ mul_ne_zero ho (pow_ne_zero _ (by decide))
  exact h.not_dvd hne (hint ▸ Dvd.dvd.mul_left (dvd_pow_self 10 n.succ_ne_zero) _)

theorem mantissa_eq_zero_iff {d : Decimal} : d.mantissa = 0 ↔ d.value = 0 := by
  rw [value, mul_eq_zero, or_iff_left (zpow_ne_zero _ (by norm_num))]
  exact_mod_cast Iff.rfl

/-- Normal decimals with one value are the same. -/
theorem Normal.eq_of_value {d other : Decimal} (h : d.Normal) (h' : other.Normal)
    (heq : d.value = other.value) : d = other := by
  by_cases hz : d.mantissa = 0
  · have hz' : other.mantissa = 0 := by rwa [mantissa_eq_zero_iff, ← heq, ← mantissa_eq_zero_iff]
    have hsame : d.exponent = other.exponent :=
      (h.exponent_eq_zero hz).trans (h'.exponent_eq_zero hz').symm
    cases d; cases other
    simp_all
  · have hz' : other.mantissa ≠ 0 := fun hz' =>
      hz (by rwa [mantissa_eq_zero_iff, heq, ← mantissa_eq_zero_iff])
    have hsame : d.exponent = other.exponent :=
      Int.le_antisymm (h'.exponent_le hz heq.symm) (h.exponent_le hz' heq)
    have hmantissa : (d.mantissa : ℚ) = other.mantissa := by
      refine mul_right_cancel₀ (zpow_ne_zero d.exponent (by norm_num : (10 : ℚ) ≠ 0)) ?_
      rw [value, value, ← hsame] at heq
      exact heq
    cases d; cases other
    simp_all

/-- Of all decimals, `ofScaled` is the normal one with its value. -/
theorem eq_ofScaled_iff {d : Decimal} {mantissa exponent : Int} :
    d = ofScaled mantissa exponent ↔ d.Normal ∧ d.value = mantissa * 10 ^ exponent := by
  rw [← value_ofScaled]
  constructor
  · rintro rfl
    exact ⟨ofScaled_normal _ _, rfl⟩
  · exact fun ⟨hnormal, hvalue⟩ => hnormal.eq_of_value (ofScaled_normal _ _) hvalue

end OpenQasm.Decimal
