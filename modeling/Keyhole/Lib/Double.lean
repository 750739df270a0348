import Mathlib.Algebra.Order.Field.Power
import Mathlib.Algebra.Order.Floor.Semiring
import Mathlib.Algebra.Order.Round
import Mathlib.Data.Int.Log
import Mathlib.Data.Nat.Cast.Field
import Mathlib.Data.Rat.Floor
import Mathlib.Tactic.FieldSimp
import Mathlib.Tactic.Linarith
import Mathlib.Tactic.NormNum
import Mathlib.Tactic.Ring

/-!
# Numbers of 53 bits

An operation has its exact result rounded to the nearest number of 53
significant bits, and of two that are as near to the even one. The range of
the exponent is left out, and so are negative numbers.
-/

namespace Double

/-! ## Rounding -/

def nearestEven (y : ℚ) : ℤ :=
  if Int.fract y < 1 / 2 then ⌊y⌋
  else if 1 / 2 < Int.fract y then ⌊y⌋ + 1
  else if ⌊y⌋ % 2 = 0 then ⌊y⌋ else ⌊y⌋ + 1

/-- What the last of the 53 bits of `x` stands for. -/
def ulp (x : ℚ) : ℚ := 2 ^ (Int.log 2 x - 52)

def round (x : ℚ) : ℚ := nearestEven (x / ulp x) * ulp x

theorem nearestEven_intCast (n : ℤ) : nearestEven n = n := by
  simp [nearestEven]

theorem abs_nearestEven_sub (y : ℚ) : |nearestEven y - y| ≤ 1 / 2 := by
  have hsum := Int.floor_add_fract y
  have hnonneg := Int.fract_nonneg y
  have hlt := Int.fract_lt_one y
  have hdown : Int.fract y ≤ 1 / 2 → |((⌊y⌋ : ℤ) : ℚ) - y| ≤ 1 / 2 := by
    intro h
    rw [abs_le]
    constructor <;> linarith
  have hup : 1 / 2 ≤ Int.fract y → |((⌊y⌋ + 1 : ℤ) : ℚ) - y| ≤ 1 / 2 := by
    intro h
    rw [abs_le]
    push_cast
    constructor <;> linarith
  unfold nearestEven
  by_cases hless : Int.fract y < 1 / 2
  · rw [if_pos hless]
    exact hdown hless.le
  · rw [if_neg hless]
    rw [not_lt] at hless
    by_cases hmore : 1 / 2 < Int.fract y
    · rw [if_pos hmore]
      exact hup hless
    · rw [if_neg hmore]
      rw [not_lt] at hmore
      by_cases heven : ⌊y⌋ % 2 = 0
      · rw [if_pos heven]
        exact hdown hmore
      · rw [if_neg heven]
        exact hup hless

theorem ulp_pos (x : ℚ) : 0 < ulp x := by
  unfold ulp
  positivity

/-- Half a unit in the last place, and so one part in `2 ^ 53`. -/
theorem abs_round_sub {x : ℚ} (hx : 0 < x) : |round x - x| ≤ x / 2 ^ 53 := by
  have hu := ulp_pos x
  have hlow : (2 : ℚ) ^ Int.log 2 x ≤ x := Int.zpow_log_le_self (by norm_num) hx
  have hulp : ulp x = 2 ^ Int.log 2 x / 2 ^ 52 := by
    unfold ulp
    rw [zpow_sub₀ (by norm_num)]
    norm_num
  have herror := abs_nearestEven_sub (x / ulp x)
  have hscale : round x - x = (nearestEven (x / ulp x) - x / ulp x) * ulp x := by
    unfold round
    field_simp
  rw [hscale, abs_mul, abs_of_pos hu]
  calc |nearestEven (x / ulp x) - x / ulp x| * ulp x ≤ 1 / 2 * ulp x := mul_le_mul_of_nonneg_right herror hu.le
    _ = 2 ^ Int.log 2 x / 2 ^ 53 := by
      rw [hulp]
      ring
    _ ≤ x / 2 ^ 53 := div_le_div_of_nonneg_right hlow (by norm_num)

/-- A number of 53 bits is left alone. -/
theorem round_of_bits {m : ℕ} (hm : m < 2 ^ 53) (e : ℤ) : round (m * 2 ^ e) = m * 2 ^ e := by
  by_cases hzero : m = 0
  · simp [hzero, round, nearestEven]
  · have hpos : (0 : ℚ) < m * 2 ^ e := by positivity
    have hlog : Int.log 2 ((m : ℚ) * 2 ^ e) < 53 + e := by
      rw [← Int.lt_zpow_iff_log_lt (by norm_num) hpos]
      push_cast
      rw [zpow_add₀ (by norm_num)]
      apply mul_lt_mul_of_pos_right _ (by positivity)
      exact_mod_cast hm
    obtain ⟨k, hk⟩ : ∃ k : ℕ, (k : ℤ) = e - (Int.log 2 ((m : ℚ) * 2 ^ e) - 52) :=
      ⟨_, Int.toNat_of_nonneg (by omega)⟩
    have hint : (m : ℚ) * 2 ^ e / ulp (m * 2 ^ e) = ((m * 2 ^ k : ℕ) : ℤ) := by
      unfold ulp
      rw [mul_div_assoc, ← zpow_sub₀ (by norm_num), ← hk]
      push_cast
      rfl
    unfold round
    rw [hint, nearestEven_intCast, ← hint]
    field_simp [(ulp_pos _).ne']

/-! ## Whole numbers -/

def nat (n : ℕ) : ℕ := ⌊round n⌋₊

def add (a b : ℕ) : ℕ := nat (a + b)

def mul (a b : ℕ) : ℕ := nat (a * b)

/-- The floor of a quotient that has been rounded. -/
def floorDiv (a b : ℕ) : ℕ := ⌊round (a / b)⌋₊

theorem round_natCast {n : ℕ} (h : n < 2 ^ 53) : round n = n := by
  have hround := round_of_bits h 0
  simpa using hround

theorem nat_of_lt {n : ℕ} (h : n < 2 ^ 53) : nat n = n := by
  rw [nat, round_natCast h, Nat.floor_natCast]

theorem nat_two_pow (k : ℕ) : nat (2 ^ k) = 2 ^ k := by
  have hround : round ((2 ^ k : ℕ) : ℚ) = ((2 ^ k : ℕ) : ℚ) := by
    have hbits := round_of_bits (m := 1) (by norm_num) k
    simpa using hbits
  rw [nat, hround, Nat.floor_natCast]

theorem add_of_lt {a b : ℕ} (h : a + b < 2 ^ 53) : add a b = a + b := nat_of_lt h

theorem mul_of_lt {a b : ℕ} (h : a * b < 2 ^ 53) : mul a b = a * b := nat_of_lt h

/-- The quotient of two whole numbers is never rounded up to the next one. -/
theorem floorDiv_of_lt {a b : ℕ} (ha : a < 2 ^ 53) (hb : 0 < b) : floorDiv a b = a / b := by
  unfold floorDiv
  by_cases hzero : a = 0
  · simp [hzero, round, nearestEven]
  by_cases hexact : a % b = 0
  · have hquot : ((a : ℚ) / b) = ((a / b : ℕ) : ℚ) := 
      (Nat.cast_div_charZero (Nat.dvd_of_mod_eq_zero hexact)).symm
    rw [hquot, round_natCast (Nat.lt_of_le_of_lt (Nat.div_le_self a b) ha), Nat.floor_natCast]
  · have hb' : (0 : ℚ) < b := by exact_mod_cast hb
    have ha' : (0 : ℚ) < a := by exact_mod_cast Nat.pos_of_ne_zero hzero
    have hx : (0 : ℚ) < a / b := by positivity
    have herror : |round (a / b) - a / b| < 1 / b := by
      refine (abs_round_sub hx).trans_lt ?_
      rw [div_div, div_lt_div_iff₀ (by positivity) hb']
      have hlt : (a : ℚ) < 2 ^ 53 := by exact_mod_cast ha
      nlinarith
    rw [abs_lt] at herror
    have hdiv := Nat.div_add_mod a b
    have hmod := Nat.mod_lt a hb
    have hlow : ((a / b : ℕ) : ℚ) + 1 / b ≤ a / b := by
      rw [le_div_iff₀ hb', add_mul, div_mul_cancel₀ _ hb'.ne']
      have hle : a / b * b + 1 ≤ a := by
        rw [Nat.mul_comm]
        omega
      exact_mod_cast hle
    have hhigh : (a : ℚ) / b + 1 / b ≤ ((a / b : ℕ) : ℚ) + 1 := by
      rw [← add_div, div_le_iff₀ hb']
      have hle : a + 1 ≤ (a / b + 1) * b := by
        rw [Nat.add_mul, Nat.one_mul, Nat.mul_comm]
        omega
      exact_mod_cast hle
    rw [Nat.floor_eq_iff (by linarith [(Nat.cast_nonneg (a / b) : (0 : ℚ) ≤ ((a / b : ℕ) : ℚ))])]
    constructor <;> linarith

end Double
