import Mathlib.Algebra.BigOperators.Group.List.Basic
import Mathlib.Algebra.Ring.Nat

/-! # Rounding to significant bits

A binary floating-point format with `p` significant bits, on the natural numbers:
the nearest multiple of the last place, and of two that are equally near the even
one. The numbers it keeps are those with at most `p` significant bits.
-/

namespace Rounding

/-- The low bits of `n` behind its `p` highest. -/
def excess (p n : Nat) : Nat := n.log2 + 1 - p

/-- The nearest number with `p` significant bits, ties to even. -/
def roundSig (p n : Nat) : Nat :=
  let ulp := 2 ^ excess p n
  let q := n / ulp
  let r := n % ulp
  if 2 * r < ulp ∨ 2 * r = ulp ∧ q % 2 = 0 then q * ulp else (q + 1) * ulp

/-- A significand of `p` bits and an exponent. -/
def Representable (p n : Nat) : Prop := ∃ m e, m < 2 ^ p ∧ n = m * 2 ^ e

theorem representable_iff_dvd (p n : Nat) : Representable p n ↔ 2 ^ excess p n ∣ n := by
  constructor
  · rintro ⟨m, e, hm, rfl⟩
    by_cases hn : m * 2 ^ e = 0
    · rw [hn]
      exact Nat.dvd_zero _
    · -- the number has at most `p + e` bits
      have hlt : m * 2 ^ e < 2 ^ (p + e) := by
        rw [Nat.pow_add]
        exact Nat.mul_lt_mul_of_pos_right hm (Nat.two_pow_pos e)
      have hlog := (Nat.log2_lt hn).mpr hlt
      have he : excess p (m * 2 ^ e) ≤ e := by
        unfold excess
        omega
      exact (Nat.pow_dvd_pow 2 he).trans (Nat.dvd_mul_left _ _)
  · rintro ⟨q, hq⟩
    refine ⟨q, excess p n, ?_, by rw [Nat.mul_comm]; exact hq⟩
    have hlt : n < 2 ^ (excess p n + p) :=
      Nat.lt_of_lt_of_le Nat.lt_log2_self
        (Nat.pow_le_pow_right (by decide) (by unfold excess; omega))
    have hmul : 2 ^ excess p n * q < 2 ^ excess p n * 2 ^ p := by
      rwa [← hq, ← Nat.pow_add]
    exact Nat.lt_of_mul_lt_mul_left hmul

/-- Rounding keeps a number exactly if it has at most `p` significant bits. -/
theorem roundSig_eq_self_iff (p n : Nat) : roundSig p n = n ↔ Representable p n := by
  have hpos : 0 < 2 ^ excess p n := Nat.two_pow_pos _
  have hdiv := Nat.div_add_mod' n (2 ^ excess p n)
  have hmod := Nat.mod_lt n hpos
  rw [representable_iff_dvd, Nat.dvd_iff_mod_eq_zero]
  unfold roundSig
  simp only
  split
  · -- rounded down, by the remainder
    constructor
    · intro h
      omega
    · intro h
      omega
  · -- rounded up, past the number
    rename_i hup
    constructor
    · intro h
      rw [Nat.add_mul, Nat.one_mul] at h
      omega
    · intro h
      rw [h] at hup
      omega

end Rounding
