import Mathlib.Data.List.Forall2

/-!
# Machines with an answer for every input

`trace` pairs each input with the answer it got and the state it left. Two
runs over the same inputs stay related when every exchange keeps them so.
-/

namespace Mealy

variable {σ ι ο : Type}

structure Exchange (σ ι ο : Type) where
  input : ι
  output : ο
  after : σ

def trace (handle : σ → ι → ο × σ) (s : σ) : List ι → List (Exchange σ ι ο)
  | [] => []
  | i :: is => ⟨i, (handle s i).1, (handle s i).2⟩ :: trace handle (handle s i).2 is

/-- Every input meets `C` in the state it arrives in. -/
def Along (C : σ → ι → Prop) (handle : σ → ι → ο × σ) (s : σ) : List ι → Prop
  | [] => True
  | i :: is => C s i ∧ Along C handle (handle s i).2 is

instance decAlong (C : σ → ι → Prop) [∀ s i, Decidable (C s i)] (handle : σ → ι → ο × σ) (s : σ) :
    (is : List ι) → Decidable (Along C handle s is)
  | [] => inferInstanceAs (Decidable True)
  | i :: is =>
    have := decAlong C handle (handle s i).2 is
    inferInstanceAs (Decidable (_ ∧ _))

variable {C : σ → ι → Prop} {handle : σ → ι → ο × σ}

theorem trace_all {P : σ → Prop} {Q : ι → ο → Prop}
    (h : ∀ s i, P s → C s i → Q i (handle s i).1 ∧ P (handle s i).2) {s : σ} {is : List ι} (hs : P s)
    (hc : Along C handle s is) : ∀ x ∈ trace handle s is, Q x.input x.output ∧ P x.after := by
  induction is generalizing s with
  | nil =>
    intro x hx
    cases hx
  | cons i is ih =>
    obtain ⟨hi, hc⟩ := hc
    obtain ⟨hq, hp⟩ := h s i hs hi
    intro x hx
    rcases List.mem_cons.mp hx with rfl | hx
    · exact ⟨hq, hp⟩
    · exact ih hp hc x hx

theorem lockstep {R : σ → σ → Prop} {A : ι → ο → ο → Prop}
    (h : ∀ s s' i, R s s' → C s i → C s' i →
      A i (handle s i).1 (handle s' i).1 ∧ R (handle s i).2 (handle s' i).2)
    {s s' : σ} {is : List ι} (hr : R s s') (hc : Along C handle s is) (hc' : Along C handle s' is) :
    List.Forall₂ (fun x x' => x.input = x'.input ∧ A x.input x.output x'.output ∧ R x.after x'.after)
      (trace handle s is) (trace handle s' is) := by
  induction is generalizing s s' with
  | nil => exact .nil
  | cons i is ih =>
    obtain ⟨hi, hc⟩ := hc
    obtain ⟨hi', hc'⟩ := hc'
    obtain ⟨ha, hr⟩ := h s s' i hr hi hi'
    exact .cons ⟨rfl, ha, hr⟩ (ih hr hc hc')

end Mealy
