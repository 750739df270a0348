import Keyhole.Lib.Table
import Mathlib.Data.Int.Order.Basic

/-!
# Tables stamped from a sequence

Every row carries the value of a counter at the time it was last written.
-/

namespace Sql

section
variable {κ ρ : Type} {key : ρ → κ} {rev : ρ → Int}

/-- Each row of `t'` is a row of `t` or was stamped after `n` and by `n'`. -/
def Wrote (rev : ρ → Int) (n n' : Int) (t t' : Table key) : Prop :=
  ∀ r ∈ t', r ∈ t ∨ (n < rev r ∧ rev r ≤ n')

theorem wrote_refl (n n' : Int) (t : Table key) : Wrote rev n n' t t := fun _ h => Or.inl h

theorem wrote_trans {n n' n'' : Int} {t t' t'' : Table key} (hn : n ≤ n') (hn' : n' ≤ n'')
    (h : Wrote rev n n' t t') (h' : Wrote rev n' n'' t' t'') : Wrote rev n n'' t t'' := by
  intro r hr
  rcases h' r hr with hr' | ⟨hlt, hle⟩
  · rcases h r hr' with ht | ⟨hlt, hle⟩
    · exact Or.inl ht
    · exact Or.inr ⟨hlt, hle.trans hn'⟩
  · exact Or.inr ⟨lt_of_le_of_lt hn hlt, hle⟩

theorem wrote_delete (n n' : Int) (t : Table key) (p : ρ → Bool) : Wrote rev n n' t (t.delete p) :=
  fun _ h => Or.inl (Table.mem_delete.mp h).1

variable [DecidableEq κ]

theorem wrote_upsert {n n' : Int} (t : Table key) {r : ρ} (hlt : n < rev r) (hle : rev r ≤ n') :
    Wrote rev n n' t (t.upsert r) := by
  intro x hx
  rcases Table.mem_upsert.mp hx with ⟨h, -⟩ | rfl
  · exact Or.inl h
  · exact Or.inr ⟨hlt, hle⟩

theorem wrote_insert {n n' : Int} {t t' : Table key} {r : ρ} (h : t.insert? r = some t') (hlt : n < rev r)
    (hle : rev r ≤ n') : Wrote rev n n' t t' := by
  intro x hx
  rcases (Table.mem_insert? h).mp hx with h | rfl
  · exact Or.inl h
  · exact Or.inr ⟨hlt, hle⟩

end

end Sql
