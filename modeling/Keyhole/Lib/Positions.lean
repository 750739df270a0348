import Mathlib.Data.List.Nodup
import Mathlib.Data.List.Perm.Subperm

/-!
# Where a list holds a value

The indices, ascending, at which a value stands in a list that grows at its
end.
-/

namespace Positions

variable {α : Type} [DecidableEq α]

def positions (l : List α) (a : α) : List Nat := (List.range l.length).filter fun i => l[i]? = some a

@[simp] theorem mem_positions {l : List α} {a : α} {i : Nat} : i ∈ positions l a ↔ l[i]? = some a := by
  simp only [positions, List.mem_filter, List.mem_range, decide_eq_true_eq, and_iff_right_iff_imp]
  intro h
  exact (List.getElem?_eq_some_iff.mp h).1

theorem positions_sorted (l : List α) (a : α) : (positions l a).Pairwise (· < ·) :=
  List.pairwise_lt_range.sublist List.filter_sublist

theorem positions_lt {l : List α} {a : α} {i : Nat} (h : i ∈ positions l a) : i < l.length :=
  (List.getElem?_eq_some_iff.mp (mem_positions.mp h)).1

theorem positions_snoc (l : List α) (a b : α) :
    positions (l ++ [b]) a = positions l a ++ if b = a then [l.length] else [] := by
  have hold : (List.range l.length).filter (fun i => (l ++ [b])[i]? = some a) = positions l a := by
    apply List.filter_congr
    intro i hi
    rw [List.getElem?_append_left (List.mem_range.mp hi)]
  have hlast : (l ++ [b])[l.length]? = some b := by simp
  rw [positions, List.length_append, List.length_singleton, List.range_succ, List.filter_append, hold,
    List.filter_singleton,
    hlast]
  by_cases h : b = a <;> simp [h]

theorem positions_ne_nil {l : List α} {a : α} : positions l a ≠ [] ↔ a ∈ l := by
  rw [List.ne_nil_iff_exists_cons]
  constructor
  · intro ⟨i, is, h⟩
    have hi : i ∈ positions l a := by rw [h]; exact List.mem_cons_self
    exact List.mem_of_getElem? (mem_positions.mp hi)
  · intro h
    obtain ⟨i, hi⟩ := List.mem_iff_getElem?.mp h
    exact List.exists_cons_of_ne_nil (List.ne_nil_of_mem (mem_positions.mpr hi))

theorem one_lt_positions {l : List α} {a : α} {i : Nat} (hi : l[i]? = some a) :
    1 < (positions l a).length ↔ ∃ j, j ≠ i ∧ l[j]? = some a := by
  have hmem := mem_positions.mpr hi
  have hn : (positions l a).Nodup := (positions_sorted l a).imp Nat.ne_of_lt
  constructor
  · intro h
    have hpos : 0 < ((positions l a).erase i).length := by
      rw [List.length_erase_of_mem hmem]
      omega
    obtain ⟨j, hj⟩ := List.exists_mem_of_length_pos hpos
    obtain ⟨hne, hj⟩ := (hn.mem_erase_iff).mp hj
    exact ⟨j, hne, mem_positions.mp hj⟩
  · intro ⟨j, hne, hj⟩
    have hsub : ([i, j] : List Nat).Subperm (positions l a) :=
      List.subperm_of_subset (by simpa using hne.symm) (by simp [hi, hj])
    exact hsub.length_le

end Positions
