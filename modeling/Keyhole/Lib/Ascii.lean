import Keyhole.Lib.Json

/-!
# Texts of ASCII

UTF-8 has one byte for each code unit of such a text, and JSON writes a value
whose texts are of ASCII as one.
-/

namespace Unicode

def Ascii (t : List UInt16) : Prop := ∀ u ∈ t, u.toNat < 0x80

variable {s t : List UInt16} {u : UInt16}

@[simp] theorem ascii_nil : Ascii [] := by simp [Ascii]

@[simp] theorem ascii_append : Ascii (s ++ t) ↔ Ascii s ∧ Ascii t := List.forall_mem_append

@[simp] theorem ascii_cons : Ascii (u :: t) ↔ u.toNat < 0x80 ∧ Ascii t := List.forall_mem_cons

instance (t : List UInt16) : Decidable (Ascii t) := List.decidableBAll (fun u : UInt16 => u.toNat < 0x80) t

theorem forall_ascii {p : UInt16 → Prop} (h : ∀ n < 0x80, p (.ofNat n)) (hu : u.toNat < 0x80) : p u := by
  have hn := h u.toNat hu
  rwa [UInt16.ofNat_toNat] at hn

theorem not_isHigh (hu : u.toNat < 0x80) : isHigh u = false := by
  unfold isHigh
  rw [decide_eq_false (by omega)]
  rfl

theorem length_utf8 (h : Ascii t) : (utf8 (scalars t)).length = t.length := by
  have hone : ∀ u : UInt16, u.toNat < 0x80 → (utf8Char (single u)).length = 1 := fun u hu =>
    forall_ascii (p := fun u => (utf8Char (single u)).length = 1) (by decide +kernel) hu
  induction t using scalars.induct with
  | case1 => rfl
  | case2 u =>
    rw [ascii_cons] at h
    simp [scalars, utf8, hone u h.1]
  | case3 u v t hpair ih =>
    rw [ascii_cons] at h
    rw [not_isHigh h.1] at hpair
    cases hpair
  | case4 u v t hpair ih =>
    rw [ascii_cons] at h
    have htail := ih h.2
    rw [utf8] at htail
    rw [scalars, if_neg hpair, utf8, List.flatMap_cons, List.length_append, hone u h.1, htail]
    exact Nat.add_comm 1 _

end Unicode

namespace Json
open Unicode

theorem ascii_quoteUnit {u : UInt16} (hu : u.toNat < 0x80) : Ascii (quoteUnit u) :=
  forall_ascii (p := fun u => Ascii (quoteUnit u)) (by decide +kernel) hu

theorem ascii_quoteBody {s : Units} (h : Ascii s) : Ascii (quoteBody s) := by
  induction s using quoteBody.induct with
  | case1 => exact ascii_nil
  | case2 u => exact ascii_quoteUnit (ascii_cons.mp h).1
  | case3 u v s hpair ih =>
    rw [not_isHigh (ascii_cons.mp h).1] at hpair
    cases hpair
  | case4 u v s hpair ih =>
    rw [ascii_cons] at h
    rw [quoteBody, if_neg hpair, ascii_append]
    exact ⟨ascii_quoteUnit h.1, ih h.2⟩

theorem ascii_quote {s : Units} (h : Ascii s) : Ascii (quote s) := by
  rw [quote, ascii_cons, ascii_append, ascii_cons]
  exact ⟨by decide, ascii_quoteBody h, by decide, ascii_nil⟩

theorem ascii_decimal (n : Nat) : Ascii (decimal n) := by
  intro u hu
  have hdigit := isDigit_decimal hu
  unfold isDigit at hdigit
  rw [Bool.and_eq_true, decide_eq_true_eq, decide_eq_true_eq] at hdigit
  have hle : u.toNat ≤ 57 := hdigit.2
  omega

theorem ascii_integer (i : Int) : Ascii (integer i) := by
  unfold integer
  by_cases h : i < 0
  · rw [if_pos h, ascii_cons]
    exact ⟨by decide, ascii_decimal _⟩
  · rw [if_neg h]
    exact ascii_decimal _

theorem ascii_exponentText (e : Int) : Ascii (exponentText e) := by
  unfold exponentText
  by_cases h : e = 0
  · rw [if_pos h]
    exact ascii_nil
  · rw [if_neg h, ascii_cons]
    exact ⟨by decide, ascii_integer e⟩

mutual

/-- Every text in it is of ASCII. -/
def HasAscii : Json → Prop
  | null | bool _ | number _ _ => True
  | string s => Ascii s
  | array xs => HaveAscii xs
  | object fields => FieldsAscii fields

def HaveAscii : List Json → Prop
  | [] => True
  | x :: xs => HasAscii x ∧ HaveAscii xs

def FieldsAscii : List (Units × Json) → Prop
  | [] => True
  | (key, x) :: fields => Ascii key ∧ HasAscii x ∧ FieldsAscii fields

end

mutual

theorem ascii_stringify : (j : Json) → HasAscii j → Ascii (stringify j)
  | null, _ => by
    rw [stringify]
    decide
  | bool b, _ => by
    rw [stringify]
    cases b <;> decide
  | number m e, _ => by
    rw [stringify, ascii_append]
    exact ⟨ascii_integer m, ascii_exponentText e⟩
  | string s, h => by
    rw [HasAscii] at h
    rw [stringify]
    exact ascii_quote h
  | array xs, h => by
    rw [HasAscii] at h
    rw [stringify, ascii_cons, ascii_append]
    exact ⟨by decide, ascii_elements xs h, by decide⟩
  | object fields, h => by
    rw [HasAscii] at h
    rw [stringify, ascii_cons, ascii_append]
    exact ⟨by decide, ascii_members fields h, by decide⟩

theorem ascii_elements : (xs : List Json) → HaveAscii xs → Ascii (stringifyElements xs)
  | [], _ => ascii_nil
  | [x], h => by
    rw [HaveAscii] at h
    rw [stringifyElements]
    exact ascii_stringify x h.1
  | x :: y :: xs, h => by
    rw [HaveAscii] at h
    rw [stringifyElements, ascii_append, ascii_cons]
    exact ⟨ascii_stringify x h.1, by decide, ascii_elements (y :: xs) h.2⟩

theorem ascii_members : (fields : List (Units × Json)) → FieldsAscii fields → Ascii (stringifyMembers fields)
  | [], _ => ascii_nil
  | [(key, x)], h => by
    rw [FieldsAscii] at h
    rw [stringifyMembers, ascii_append, ascii_cons]
    exact ⟨ascii_quote h.1, by decide, ascii_stringify x h.2.1⟩
  | (key, x) :: field :: fields, h => by
    rw [FieldsAscii] at h
    rw [stringifyMembers, ascii_append, ascii_cons, ascii_append, ascii_cons]
    exact ⟨ascii_quote h.1, by decide, ascii_stringify x h.2.1, by decide, ascii_members (field :: fields) h.2.2⟩

end

/-- The elements of an array, each with the comma after it. -/
theorem length_elements {xs : List Json} (h : xs ≠ []) :
    (stringifyElements xs).length + 1 = (xs.map fun x => (stringify x).length + 1).sum := by
  induction xs with
  | nil => exact absurd rfl h
  | cons x xs ih =>
    cases xs with
    | nil => simp [stringifyElements]
    | cons y xs =>
      have htail := ih (by simp)
      rw [stringifyElements, List.map_cons, List.sum_cons, ← htail, List.length_append, List.length_cons]
      omega

end Json
