import Mathlib.Algebra.Order.Field.Power
import Mathlib.Algebra.Order.Ring.Rat
import Mathlib.Tactic.Linarith
import Mathlib.Tactic.Positivity
import Mathlib.Tactic.Ring

/-!
# Doubles

The finite numbers of 64 bits with a binary point, and the rounding of an integer to one of them.
Rounding never goes past a double: what is on one side of it before is there afterwards too.
-/

namespace Diplom

/-- The double closest to a natural number, of two equally close ones the even one. -/
def roundDouble (n : Nat) : Nat :=
  let unit := 2 ^ (n.log2 + 1 - 53)
  let below := n / unit
  let rest := n % unit
  (if 2 * rest < unit ∨ (2 * rest = unit ∧ below % 2 = 0) then below else below + 1) * unit

theorem roundDouble_of_lt {n : Nat} (h : n < 2 ^ 53) : roundDouble n = n := by
  have hlog : n.log2 + 1 - 53 = 0 := by
    by_cases hzero : n = 0
    · subst hzero
      decide
    · have := (Nat.log2_lt hzero).mpr h
      omega
  simp [roundDouble, hlog, Nat.mod_one]

/-- A finite double: an integer of 53 bits and a power of two. -/
structure Double where
  mantissa : Int
  exponent : Int
  mantissa_lt : mantissa.natAbs < 2 ^ 53
  exponent_ge : -1074 ≤ exponent
  exponent_le : exponent ≤ 971

namespace Double

def value (d : Double) : ℚ := d.mantissa * 2 ^ d.exponent

def neg (d : Double) : Double := { d with
  mantissa := -d.mantissa
  mantissa_lt := by
    rw [Int.natAbs_neg]
    exact d.mantissa_lt }

@[simp] theorem value_neg (d : Double) : d.neg.value = -d.value := by
  simp [value, neg]

/-- A double whose last bit is worth at least `2 ^ k` is a multiple of it. -/
theorem value_eq_mul {d : Double} {k : Nat} (h : (k : Int) ≤ d.exponent) :
    ∃ m : Int, d.value = m * 2 ^ k := by
  refine ⟨d.mantissa * 2 ^ (d.exponent - k).toNat, ?_⟩
  have hexponent : d.exponent = ((d.exponent - k).toNat : Int) + (k : Int) := by omega
  rw [value]
  nth_rewrite 1 [hexponent]
  rw [zpow_add₀ (by decide), zpow_natCast, zpow_natCast]
  push_cast
  ring

/-- A double whose last bit is worth less than `2 ^ k` has not more than 52 bits before it. -/
theorem abs_value_lt {d : Double} {k : Nat} (h : d.exponent < (k : Int)) :
    |d.value| < 2 ^ (52 + k) := by
  have hmantissa : |(d.mantissa : ℚ)| < 2 ^ 53 := by
    rw [← Int.cast_abs, Int.abs_eq_natAbs]
    exact_mod_cast d.mantissa_lt
  have hpower : (2 : ℚ) ^ d.exponent ≤ 2 ^ ((k : Int) - 1) :=
    zpow_le_zpow_right₀ (by decide) (by omega)
  have hpos : (0 : ℚ) < 2 ^ d.exponent := by positivity
  calc |d.value| = |(d.mantissa : ℚ)| * 2 ^ d.exponent := by
        rw [value, abs_mul, abs_of_pos hpos]
    _ < 2 ^ 53 * 2 ^ d.exponent := by gcongr
    _ ≤ 2 ^ 53 * 2 ^ ((k : Int) - 1) := by gcongr
    _ = 2 ^ (52 + k) := by
        rw [zpow_sub₀ (by decide), zpow_natCast, zpow_one, pow_add]
        ring

end Double

/-- The rounding of a natural number that has more than 53 bits: it is between the multiples below
and above, and it stays where it is on a multiple. -/
theorem roundDouble_spec (n : Nat) :
    roundDouble n = n ∨ ∃ k below : Nat, 2 ^ 52 ≤ below ∧ below * 2 ^ k < n ∧
      n < (below + 1) * 2 ^ k ∧ below * 2 ^ k ≤ roundDouble n ∧
        roundDouble n ≤ (below + 1) * 2 ^ k := by
  by_cases hsmall : n < 2 ^ 53
  · exact .inl (roundDouble_of_lt hsmall)
  · have hne : n ≠ 0 := by omega
    have hlog : 53 ≤ n.log2 := (Nat.le_log2 hne).mpr (by omega)
    have hlow : 2 ^ n.log2 ≤ n := Nat.log2_self_le hne
    obtain ⟨k, hk⟩ : ∃ k, n.log2 = 52 + k := ⟨n.log2 - 52, by omega⟩
    have hexponent : n.log2 + 1 - 53 = k := by omega
    have hround : roundDouble n =
        (if 2 * (n % 2 ^ k) < 2 ^ k ∨ (2 * (n % 2 ^ k) = 2 ^ k ∧ n / 2 ^ k % 2 = 0) then n / 2 ^ k
          else n / 2 ^ k + 1) * 2 ^ k := by
      rw [roundDouble, hexponent]
    have hpos : 0 < 2 ^ k := Nat.two_pow_pos k
    have hdiv : n / 2 ^ k * 2 ^ k + n % 2 ^ k = n := by
      rw [Nat.mul_comm]
      exact Nat.div_add_mod n (2 ^ k)
    have hmod : n % 2 ^ k < 2 ^ k := Nat.mod_lt n hpos
    have hbelow : 2 ^ 52 ≤ n / 2 ^ k := by
      rw [Nat.le_div_iff_mul_le hpos, ← Nat.pow_add, ← hk]
      exact hlow
    by_cases hrest : n % 2 ^ k = 0
    · left
      rw [hround, if_pos (.inl (by omega))]
      omega
    · refine .inr ⟨k, n / 2 ^ k, hbelow, by omega, ?_, ?_, ?_⟩
      · rw [Nat.add_mul]
        omega
      · rw [hround]
        apply Nat.mul_le_mul_right
        split <;> omega
      · rw [hround]
        apply Nat.mul_le_mul_right
        split <;> omega

namespace Double

variable {d : Double} {n : Nat}

theorem le_roundDouble (h : d.value ≤ n) : d.value ≤ roundDouble n := by
  rcases roundDouble_spec n with heq | ⟨k, below, hbelow, hlow, hhigh, hround, -⟩
  · rwa [heq]
  · have hround : (below : ℚ) * 2 ^ k ≤ roundDouble n := by exact_mod_cast hround
    refine le_trans ?_ hround
    by_cases hk : (k : Int) ≤ d.exponent
    · obtain ⟨m, hm⟩ := value_eq_mul hk
      have hhigh : (n : ℚ) < (below + 1) * 2 ^ k := by exact_mod_cast hhigh
      have hlt : (m : ℚ) < below + 1 := by
        apply lt_of_mul_lt_mul_right _ (by positivity : (0 : ℚ) ≤ 2 ^ k)
        rw [← hm]
        exact lt_of_le_of_lt h hhigh
      have hle : m ≤ below := Int.lt_add_one_iff.mp (by exact_mod_cast hlt)
      rw [hm]
      gcongr
      exact_mod_cast hle
    · have hlt := lt_of_le_of_lt (le_abs_self d.value) (abs_value_lt (by omega : d.exponent < k))
      refine hlt.le.trans ?_
      rw [pow_add]
      gcongr
      exact_mod_cast hbelow

theorem roundDouble_le (h : n ≤ d.value) : roundDouble n ≤ d.value := by
  rcases roundDouble_spec n with heq | ⟨k, below, hbelow, hlow, hhigh, -, hround⟩
  · rwa [heq]
  · have hround : (roundDouble n : ℚ) ≤ (below + 1) * 2 ^ k := by exact_mod_cast hround
    have hlow : (below : ℚ) * 2 ^ k < n := by exact_mod_cast hlow
    refine hround.trans ?_
    by_cases hk : (k : Int) ≤ d.exponent
    · obtain ⟨m, hm⟩ := value_eq_mul hk
      have hlt : (below : ℚ) < m := by
        apply lt_of_mul_lt_mul_right _ (by positivity : (0 : ℚ) ≤ 2 ^ k)
        rw [← hm]
        exact lt_of_lt_of_le hlow h
      have hle : (below : Int) + 1 ≤ m := by exact_mod_cast hlt
      rw [hm]
      gcongr
      exact_mod_cast hle
    · have hlt := lt_of_le_of_lt (le_abs_self d.value) (abs_value_lt (by omega : d.exponent < k))
      have hle : (2 : ℚ) ^ (52 + k) ≤ below * 2 ^ k := by
        rw [pow_add]
        gcongr
        exact_mod_cast hbelow
      linarith

end Double

def roundInt (n : Int) : Int := if n < 0 then -roundDouble n.natAbs else roundDouble n.natAbs

namespace Double

variable {d : Double} {n : Int}

theorem le_roundInt (h : d.value ≤ n) : d.value ≤ roundInt n := by
  rw [roundInt]
  split
  · rename_i hneg
    have habs : ((n.natAbs : ℕ) : ℚ) = -(n : ℚ) := by
      rw [← Int.cast_neg, ← Int.cast_natCast]
      congr 1
      omega
    have hle : roundDouble n.natAbs ≤ d.neg.value := by
      apply roundDouble_le
      rw [habs, value_neg]
      linarith
    rw [value_neg] at hle
    push_cast
    linarith
  · rename_i hpos
    have habs : ((n.natAbs : ℕ) : ℚ) = (n : ℚ) := by
      rw [← Int.cast_natCast]
      congr 1
      omega
    have hle : d.value ≤ roundDouble n.natAbs := by
      apply le_roundDouble
      rwa [habs]
    exact_mod_cast hle

theorem roundInt_le (h : n ≤ d.value) : roundInt n ≤ d.value := by
  have hneg : roundInt (-n) = -roundInt n := by
    rw [roundInt, roundInt, Int.natAbs_neg]
    by_cases hzero : n = 0
    · subst hzero
      decide
    · split <;> split <;> omega
  have hle : d.neg.value ≤ roundInt (-n) := by
    apply le_roundInt
    rw [value_neg]
    push_cast
    linarith
  rw [value_neg, hneg] at hle
  push_cast at hle
  linarith

end Double

end Diplom
