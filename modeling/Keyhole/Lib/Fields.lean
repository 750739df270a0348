import Mathlib.Algebra.Ring.Nat
import Mathlib.Data.List.Basic

/-!
# Records of little-endian fields

A field is a number in so many bytes, the least significant first. Reading is
at an offset and gives nothing past the end.
-/

namespace Fields

abbrev Bytes : Type := List UInt8

/-! ## Slices -/

/-- `none` where the file does not reach. -/
def slice (file : Bytes) (start stop : Nat) : Option Bytes :=
  if start ≤ stop ∧ stop ≤ file.length then some ((file.drop start).take (stop - start)) else none

theorem slice_isSome {file : Bytes} {start stop : Nat} : (slice file start stop).isSome = true ↔
    start ≤ stop ∧ stop ≤ file.length := by
  unfold slice
  split <;> simp_all

theorem slice_append (before bytes after : Bytes) :
    slice (before ++ (bytes ++ after)) before.length (before.length + bytes.length) = some bytes := by
  unfold slice
  rw [if_pos (by simp), List.drop_left, Nat.add_sub_cancel_left, List.take_left]

/-! ## Numbers -/

def value (bytes : Bytes) : Nat := bytes.foldr (fun b n => b.toNat + 256 * n) 0

def encode : (size n : Nat) → Bytes
  | 0, _ => []
  | size + 1, n => .ofNat n :: encode size (n / 256)

@[simp] theorem length_encode (size n : Nat) : (encode size n).length = size := by
  induction size generalizing n with
  | zero => rfl
  | succ size ih => rw [encode, List.length_cons, ih]

theorem value_encode {size n : Nat} (h : n < 256 ^ size) : value (encode size n) = n := by
  induction size generalizing n with
  | zero => exact (Nat.lt_one_iff.mp h).symm
  | succ size ih =>
    have hn : n / 256 < 256 ^ size := by
      rw [Nat.pow_succ] at h
      exact Nat.div_lt_of_lt_mul (by rwa [Nat.mul_comm] at h)
    have hrest : value (encode size (n / 256)) = n / 256 := ih hn
    change (UInt8.ofNat n).toNat + 256 * value (encode size (n / 256)) = n
    rw [hrest, UInt8.toNat_ofNat']
    exact Nat.mod_add_div n 256

/-- The number in the `size` bytes at `offset`. -/
def read (file : Bytes) (size offset : Nat) : Option Nat := (slice file offset (offset + size)).map value

theorem read_isSome {file : Bytes} {size offset : Nat} : (read file size offset).isSome = true ↔
    offset + size ≤ file.length := by
  rw [read, Option.isSome_map, slice_isSome]
  omega

theorem read_append (before : Bytes) {size n : Nat} (h : n < 256 ^ size) (after : Bytes) :
    read (before ++ (encode size n ++ after)) size before.length = some n := by
  have hslice := slice_append before (encode size n) after
  rw [length_encode] at hslice
  rw [read, hslice, Option.map_some, value_encode h]

theorem slice_after (before after : Bytes) (start stop : Nat) :
    slice (before ++ after) (before.length + start) (before.length + stop) = slice after start stop := by
  have hbounds : (before.length + start ≤ before.length + stop ∧
    before.length + stop ≤ (before ++ after).length) ↔
      (start ≤ stop ∧ stop ≤ after.length) := by
    rw [List.length_append]
    omega
  have hlen : before.length + stop - (before.length + start) = stop - start := by omega
  unfold slice
  simp only [hbounds, List.drop_append, hlen]
  rw [List.drop_eq_nil_of_le (by omega), List.nil_append, Nat.add_sub_cancel_left]

theorem read_after (before after : Bytes) (size offset : Nat) :
    read (before ++ after) size (before.length + offset) = read after size offset := by
  unfold read
  rw [Nat.add_assoc, slice_after]

/-! ## Records -/

def record (fields : List (Nat × Nat)) : Bytes := fields.flatMap fun (size, n) => encode size n

def width : List (Nat × Nat) → Nat
  | [] => 0
  | (size, _) :: fields => size + width fields

@[simp] theorem length_record (fields : List (Nat × Nat)) : (record fields).length = width fields := by
  induction fields with
  | nil => rfl
  | cons field fields ih =>
    rw [width, ← ih, record, List.flatMap_cons, List.length_append, length_encode]
    rfl

theorem read_record {fields : List (Nat × Nat)} {k size n : Nat} (hk : fields[k]? = some (size, n))
    (h : n < 256 ^ size) (before after : Bytes) :
    read (before ++ (record fields ++ after)) size (before.length + width (fields.take k)) = some n := by
  obtain ⟨hlt, hget⟩ := List.getElem?_eq_some_iff.mp hk
  have hfields : fields = fields.take k ++ (size, n) :: fields.drop (k + 1) := by
    rw [← hget, List.getElem_cons_drop, List.take_append_drop]
  have hsplit : before ++ (record fields ++ after) =
      (before ++ record (fields.take k)) ++ (encode size n ++ (record (fields.drop (k + 1)) ++ after)) := by
    conv_lhs => rw [hfields]
    simp [record]
  have hread := read_append (before ++ record (fields.take k)) h (record (fields.drop (k + 1)) ++ after)
  rw [List.length_append, length_record] at hread
  rw [hsplit, hread]

end Fields
