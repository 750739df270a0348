import Keyhole.Lib.Numeral
import Mathlib.Data.List.Induction
import Mathlib.Data.Set.Card

/-!
# The number that digits write

The most significant digit first. Read with one base or written with it, a
number below a power of the base and so many digits are the same thing.
-/

namespace Digits

def value (base : Nat) (digits : List Nat) : Nat := digits.foldl (fun n d => n * base + d) 0

variable {base : Nat}

@[simp] theorem value_nil : value base [] = 0 := rfl

theorem value_concat (digits : List Nat) (d : Nat) : value base (digits ++ [d]) = value base digits * base + d := by
  simp [value]

theorem value_lt {digits : List Nat} (h : ∀ d ∈ digits, d < base) :
    value base digits < base ^ digits.length := by
  induction digits using List.reverseRecOn with
  | nil => simp
  | append_singleton digits d ih =>
    rw [List.forall_mem_append, List.forall_mem_singleton] at h
    have hd := ih h.1
    rw [value_concat, List.length_append, List.length_singleton, Nat.pow_succ]
    have hmul : (value base digits + 1) * base ≤ base ^ digits.length * base := Nat.mul_le_mul_right base hd
    rw [Nat.add_mul, Nat.one_mul] at hmul
    have := h.2
    omega

theorem value_inj {a b : List Nat} (hlen : a.length = b.length) (ha : ∀ d ∈ a, d < base)
    (hb : ∀ d ∈ b, d < base) (h : value base a = value base b) : a = b := by
  induction a using List.reverseRecOn generalizing b with
  | nil => exact (List.length_eq_zero_iff.mp hlen.symm).symm
  | append_singleton a d ih =>
    cases b using List.reverseRecOn with
    | nil => simp at hlen
    | append_singleton b e =>
      rw [List.forall_mem_append, List.forall_mem_singleton] at ha hb
      rw [value_concat, value_concat] at h
      have hlow : (value base a * base + d) % base = (value base b * base + e) % base := by rw [h]
      rw [Nat.mul_add_mod_of_lt ha.2, Nat.mul_add_mod_of_lt hb.2] at hlow
      subst hlow
      have hhigh : value base a = value base b :=
        Nat.eq_of_mul_eq_mul_right (Nat.zero_lt_of_lt ha.2) (Nat.add_right_cancel h)
      rw [ih (by simpa using hlen) ha.1 hb.1 hhigh]

variable {α : Type} {symbol : Nat → α} {f : α → Nat}

theorem value_numeral (hb : 0 < base) (hs : ∀ i < base, f (symbol i) = i) (w n : Nat) :
    value base ((Numeral.numeral symbol base w n).map f) = n % base ^ w := by
  induction w generalizing n with
  | zero => simp [Numeral.numeral, Nat.mod_one]
  | succ w ih =>
    have hlast : f (symbol (n % base)) = n % base := hs _ (Nat.mod_lt n hb)
    simp only [Numeral.numeral, List.map_append, List.map_cons, List.map_nil]
    rw [value_concat, ih, hlast, Nat.pow_succ, Nat.mul_comm (base ^ w) base, Nat.mod_mul, Nat.mul_comm,
      Nat.add_comm]

/-- As many words as numbers: of the words of one width, one for each number. -/
theorem ncard_words (hs : ∀ i < base, f (symbol i) = i) (hf : ∀ a, f a < base ∧ symbol (f a) = a) {w : Nat}
    {numbers : Finset Nat} (hlt : ∀ n ∈ numbers, n < base ^ w) (hb : 0 < base) :
    Set.ncard {word : List α | word.length = w ∧ value base (word.map f) ∈ numbers} = numbers.card := by
  have himage : {word : List α | word.length = w ∧ value base (word.map f) ∈ numbers} =
      Numeral.numeral symbol base w '' numbers := by
    ext word
    simp only [Set.mem_ofPred_eq, Set.mem_image, Finset.mem_coe]
    constructor
    · rintro ⟨hlen, hmem⟩
      refine ⟨_, hmem, ?_⟩
      have hinj : Function.Injective f := fun a b h => by rw [← (hf a).2, h, (hf b).2]
      apply hinj.list_map
      have hdigits : ∀ l : List α, ∀ d ∈ l.map f, d < base := by
        intro l d hd
        obtain ⟨a, -, rfl⟩ := List.mem_map.mp hd
        exact (hf a).1
      apply value_inj (by simp [hlen]) (hdigits _) (hdigits _)
      rw [value_numeral hb hs, Nat.mod_eq_of_lt (hlt _ hmem)]
    · rintro ⟨n, hn, rfl⟩
      rw [value_numeral hb hs, Nat.mod_eq_of_lt (hlt n hn)]
      exact ⟨Numeral.length_numeral w n, hn⟩
  rw [himage, Set.InjOn.ncard_image, Set.ncard_coe_finset]
  intro n hn m hm h
  apply Numeral.numeral_inj _ (hlt n hn) (hlt m hm) h
  intro i hi j hj heq
  rw [← hs i hi, heq, hs j hj]

end Digits
