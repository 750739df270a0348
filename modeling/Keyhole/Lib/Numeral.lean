import Mathlib.Algebra.Ring.Nat
import Mathlib.Data.List.Lex
import Mathlib.Order.Lattice
import Mathlib.Order.Monotone.Basic

/-!
# Numerals of a fixed width

Written with the same number of digits, two numbers stand in the order of
their numerals as texts.
-/

namespace Numeral

variable {α : Type}

def numeral (symbol : Nat → α) (base : Nat) : (w n : Nat) → List α
  | 0, _ => []
  | w + 1, n => numeral symbol base w (n / base) ++ [symbol (n % base)]

variable {symbol : Nat → α} {base : Nat}

@[simp] theorem length_numeral (w n : Nat) : (numeral symbol base w n).length = w := by
  induction w generalizing n with
  | zero => rfl
  | succ w ih => simp [numeral, ih]

theorem numeral_inj (hs : ∀ i < base, ∀ j < base, symbol i = symbol j → i = j) {w n m : Nat}
    (hn : n < base ^ w) (hm : m < base ^ w) (h : numeral symbol base w n = numeral symbol base w m) : n = m := by
  induction w generalizing n m with
  | zero => simp at hn hm; omega
  | succ w ih =>
    have hb : 0 < base := by
      apply Nat.pos_of_ne_zero
      intro h0
      simp [h0] at hn
    obtain ⟨hq, hr⟩ := List.append_inj' h rfl
    rw [Nat.pow_succ] at hn hm
    have h₁ := ih (Nat.div_lt_of_lt_mul (by rwa [Nat.mul_comm])) (Nat.div_lt_of_lt_mul (by rwa [Nat.mul_comm])) hq
    have h₂ := hs _ (Nat.mod_lt n hb) _ (Nat.mod_lt m hb) (List.singleton_inj.mp hr)
    rw [← Nat.div_add_mod n base, ← Nat.div_add_mod m base, h₁, h₂]

variable [LinearOrder α]

theorem append_lt_append_iff {a a' b b' : List α} (h : a.length = a'.length) :
    a ++ b < a' ++ b' ↔ a < a' ∨ a = a' ∧ b < b' := by
  induction a generalizing a' with
  | nil =>
    cases a' with
    | nil => simp
    | cons y a' => cases h
  | cons x a ih =>
    cases a' with
    | nil => cases h
    | cons y a' =>
      have hl : a.length = a'.length := Nat.succ.inj h
      simp only [List.cons_append, List.cons_lt_cons_iff, ih hl, List.cons.injEq]
      by_cases hxy : x = y
      · simp [hxy]
      · simp [hxy]

theorem inj_of_lt_iff (hs : ∀ i < base, ∀ j < base, symbol i < symbol j ↔ i < j) :
    ∀ i < base, ∀ j < base, symbol i = symbol j → i = j := by
  intro i hi j hj he
  have h₁ := (hs i hi j hj).not.mp (by simp [he])
  have h₂ := (hs j hj i hi).not.mp (by simp [he])
  omega

theorem numeral_lt_iff (hs : ∀ i < base, ∀ j < base, symbol i < symbol j ↔ i < j) {w n m : Nat}
    (hn : n < base ^ w) (hm : m < base ^ w) : numeral symbol base w n < numeral symbol base w m ↔ n < m := by
  induction w generalizing n m with
  | zero => simp at hn hm; simp [hn, hm, numeral]
  | succ w ih =>
    have hb : 0 < base := by
      apply Nat.pos_of_ne_zero
      intro h0
      simp [h0] at hn
    rw [Nat.pow_succ] at hn hm
    have hn' : n / base < base ^ w := Nat.div_lt_of_lt_mul (by rwa [Nat.mul_comm])
    have hm' : m / base < base ^ w := Nat.div_lt_of_lt_mul (by rwa [Nat.mul_comm])
    have he : numeral symbol base w (n / base) = numeral symbol base w (m / base) ↔ n / base = m / base :=
      ⟨numeral_inj (inj_of_lt_iff hs) hn' hm', fun h => by rw [h]⟩
    have hd : symbol (n % base) < symbol (m % base) ↔ n % base < m % base :=
      hs _ (Nat.mod_lt n hb) _ (Nat.mod_lt m hb)
    rw [numeral, numeral, append_lt_append_iff (by simp), ih hn' hm', he]
    simp only [List.cons_lt_cons_iff, List.not_lt_nil, and_false, or_false, hd]
    have h₁ := Nat.div_add_mod n base
    have h₂ := Nat.div_add_mod m base
    constructor
    · rintro (h | ⟨h, h'⟩)
      · exact lt_of_not_ge fun hge => absurd (Nat.div_le_div_right (c := base) hge) (by omega)
      · rw [h] at h₁; omega
    · intro h
      by_cases hq : n / base = m / base
      · rw [hq] at h₁; exact Or.inr ⟨hq, by omega⟩
      · have := Nat.div_le_div_right (c := base) h.le
        exact Or.inl (by omega)

theorem numeral_append_lt_iff (hs : ∀ i < base, ∀ j < base, symbol i < symbol j ↔ i < j) {w n m : Nat}
    {u v : List α} (hn : n < base ^ w) (hm : m < base ^ w) :
    numeral symbol base w n ++ u < numeral symbol base w m ++ v ↔ n < m ∨ n = m ∧ u < v := by
  have he : numeral symbol base w n = numeral symbol base w m ↔ n = m :=
    ⟨numeral_inj (inj_of_lt_iff hs) hn hm, fun h => by rw [h]⟩
  rw [append_lt_append_iff (by simp), numeral_lt_iff hs hn hm, he]

end Numeral
