import Mathlib.Data.List.Nodup
import Mathlib.Data.List.Perm.Subperm
import Mathlib.Order.Lattice

/-!
# Keeping the greatest few

From a descending list all but the first `k` are given up. Only some of its
elements count; the law is that only these are given up, and never one that
fewer than `k` others of them exceed.
-/

namespace Newest

variable {α : Type}

theorem mem_drop_of_not_mem_take {l : List α} {k : Nat} {x : α} (hx : x ∈ l) (h : x ∉ l.take k) :
    x ∈ l.drop k := by
  rw [← List.take_append_drop k l, List.mem_append] at hx
  exact hx.resolve_left h

variable [LinearOrder α]

/-- Fewer than `k` of the elements of `l` that count exceed `x`. -/
def Among (l : List α) (P : α → Prop) (k : Nat) (x : α) : Prop :=
  ∀ above : List α, above.Nodup → (∀ y ∈ above, y ∈ l ∧ P y ∧ x < y) → above.length < k

theorem drop_lt_take {l : List α} (hl : l.Pairwise (· > ·)) {k : Nat} {x y : α} (hx : x ∈ l.drop k)
    (hy : y ∈ l.take k) : x < y := by
  rw [← List.take_append_drop k l, List.pairwise_append] at hl
  exact hl.2.2 y hy x hx

theorem nodup_of_descending {l : List α} (hl : l.Pairwise (· > ·)) : l.Nodup := hl.imp fun h => ne_of_gt h

theorem not_among_of_all {l : List α} {P : α → Prop} {k : Nat} {x : α} (hl : l.Pairwise (· > ·))
    (hP : ∀ y ∈ l, P y) (hx : x ∈ l.drop k) : ¬ Among l P k x := by
  intro h
  have hk : (l.take k).length = k := by
    have := List.length_pos_of_mem hx
    rw [List.length_drop] at this
    rw [List.length_take]
    omega
  have := h (l.take k) ((nodup_of_descending hl).sublist (List.take_sublist k l)) fun y hy =>
    ⟨List.mem_of_mem_take hy, hP y (List.mem_of_mem_take hy), drop_lt_take hl hx hy⟩
  omega

/-- If an element that does not count is among the first `k`, the first one given up is not exceeded by `k`
others. -/
theorem among_of_foreign {l : List α} {P : α → Prop} {k : Nat} {x z : α} {rest : List α}
    (hl : l.Pairwise (· > ·)) (hd : l.drop k = x :: rest) (hz : z ∈ l.take k) (hPz : ¬ P z) : Among l P k x := by
  intro above hn ha
  have hsub : ∀ y ∈ above, y ∈ (l.take k).erase z := by
    intro y hy
    obtain ⟨hyl, hPy, hxy⟩ := ha y hy
    have hyt : y ∈ l.take k := by
      by_contra hy'
      have hyd := mem_drop_of_not_mem_take hyl hy'
      have hs : (l.drop k).Pairwise (· > ·) := hl.sublist (List.drop_sublist k l)
      rw [hd] at hyd hs
      cases hyd with
      | head => exact lt_irrefl _ hxy
      | tail _ hyr => exact lt_asymm hxy ((List.pairwise_cons.mp hs).1 y hyr)
    have hne : y ≠ z := fun e => hPz (e ▸ hPy)
    exact (List.mem_erase_of_ne hne).mpr hyt
  have hle : above.length ≤ ((l.take k).erase z).length := (List.subperm_of_subset hn hsub).length_le
  rw [List.length_erase_of_mem hz] at hle
  have hp := List.length_pos_of_mem hz
  have := List.length_take_le k l
  omega

theorem drop_law {l : List α} (hl : l.Pairwise (· > ·)) {P : α → Prop} {k : Nat} :
    ((∀ x ∈ l.drop k, P x) ∧ ∀ x ∈ l.drop k, P x → ¬ Among l P k x) ↔ l.length ≤ k ∨
      ∀ x ∈ l, P x := by
  constructor
  · intro ⟨hgone, hkept⟩
    by_cases hk : l.length ≤ k
    · exact Or.inl hk
    right
    intro z hz
    by_contra hPz
    cases hd : l.drop k with
    | nil => exact hk (List.drop_eq_nil_iff.mp hd)
    | cons x rest =>
      have hx : x ∈ l.drop k := by rw [hd]; exact List.mem_cons_self
      have hzt : z ∈ l.take k := by
        by_contra hz'
        exact hPz (hgone z (mem_drop_of_not_mem_take hz hz'))
      exact hkept x hx (hgone x hx) (among_of_foreign hl hd hzt hPz)
  · rintro (hk | hP)
    · simp [List.drop_eq_nil_of_le hk]
    · exact ⟨fun x hx => hP x (List.mem_of_mem_drop hx), fun x hx _ => not_among_of_all hl hP hx⟩

end Newest
