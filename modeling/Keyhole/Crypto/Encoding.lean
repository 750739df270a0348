import Keyhole.Lib.Json

/-!
# Bytes as text

Base64 as the packed client writes and reads it, and UTF-8 by the platform's
encoder and decoder. Bitwise operators work on 32-bit integers.
-/

namespace Keyhole.Crypto
open Unicode Json

abbrev Bytes : Type := List UInt8

abbrev Text : Type := List UInt16

/-- `KeyholeCryptoError` in its kinds, and what the language throws where a value has no string. -/
inductive CryptoError
  | decryption
  | malformedEnvelope (message : Text)
  | invalidKey (message : Text)
  | typeError
  deriving DecidableEq, Repr

/-! ## Base64 -/

def BASE64_ALPHABET : Text := units "ABCDEFGHIJKLMNOPQRSTUVWXYZabcdefghijklmnopqrstuvwxyz0123456789+/"

def alphabetAt (alphabet : Text) (index : Nat) : Text := (alphabet.drop index).take 1

/-- One turn of the loop; `none` is past the end of the array. -/
def base64Group (b0 : UInt8) (b1 b2 : Option UInt8) : Text :=
  alphabetAt BASE64_ALPHABET (b0 >>> 2).toNat ++
    alphabetAt BASE64_ALPHABET (((b0 &&& 0x03) <<< 4) ||| (b1.getD 0 >>> 4)).toNat ++
    (match b1 with
      | none => units "="
      | some b1 => alphabetAt BASE64_ALPHABET (((b1 &&& 0x0f) <<< 2) ||| (b2.getD 0 >>> 6)).toNat) ++
    match b2 with
      | none => units "="
      | some b2 => alphabetAt BASE64_ALPHABET (b2 &&& 0x3f).toNat

def toBase64 : Bytes → Text
  | [] => []
  | [b0] => base64Group b0 none none
  | [b0, b1] => base64Group b0 (some b1) none
  | b0 :: b1 :: b2 :: bytes => base64Group b0 (some b1) (some b2) ++ toBase64 bytes

/-- What iterating over a string visits: a pair of surrogates is one character. -/
def characters : Text → List Text
  | [] => []
  | [u] => [[u]]
  | u :: v :: t => if isHigh u && isLow v then [u, v] :: characters t else [u] :: characters (v :: t)

def indexOf (text piece : Text) : Option Nat :=
  (List.range (text.length + 1)).find? fun i => piece.isPrefixOf (text.drop i)

structure Decoding where
  bits : Nat
  acc : BitVec 32
  index : Nat
  out : Bytes
  deriving DecidableEq, Repr

/-- A byte written past the end of the array is dropped. -/
def Decoding.add (d : Decoding) (value : Nat) : Decoding :=
  let acc := (d.acc <<< 6) ||| BitVec.ofNat 32 value
  let bits := d.bits + 6
  if 8 ≤ bits then
    { bits := bits - 8, acc, index := d.index + 1
      out := d.out.set d.index (.ofNat (acc.sshiftRight (bits - 8) &&& 0xff).toNat) }
  else { d with bits, acc }

def decodeCharacter (d : Decoding) (char : Text) : Except CryptoError Decoding :=
  match indexOf BASE64_ALPHABET char with
  | none => .error (.malformedEnvelope (units "Invalid base64 character: " ++ char))
  | some value => .ok (d.add value)

def withoutPadding (text : Text) : Text := (text.reverse.dropWhile (· = unit '=')).reverse

def fromBase64 (text : Text) : Except CryptoError Bytes :=
  let clean := withoutPadding text
  if clean.length % 4 = 1 then
    .error (.malformedEnvelope (units "Invalid base64 length: " ++ decimal clean.length ++ units " characters"))
  else do
    let d ← (characters clean).foldlM decodeCharacter
      { bits := 0, acc := 0, index := 0, out := .replicate (clean.length * 6 / 8) 0 }
    return d.out

/-! ## UTF-8 -/

/-- The encoder puts a replacement character for half of a pair. -/
def utf8Encode (text : Text) : Bytes := utf8 (scalars text)

/-- The decoder is made with no options: it replaces what is ill-formed and drops a mark at the start. -/
def utf8Decode (bytes : Bytes) : Text := utf16 (withoutBom (lossy bytes))

theorem utf8Decode_encode (cs : List Char) : utf8Decode (utf8Encode (utf16 cs)) = utf16 (withoutBom cs) := by
  unfold utf8Decode utf8Encode
  rw [scalars_utf16, lossy_utf8]

/-! ## The letters of a byte -/

def letter (i : Nat) : UInt16 := BASE64_ALPHABET.getD i 0

theorem alphabetAt_letter : ∀ i < 64, alphabetAt BASE64_ALPHABET i = [letter i] := by decide +kernel

theorem indexOf_letter : ∀ i < 64, indexOf BASE64_ALPHABET [letter i] = some i := by decide +kernel

theorem letter_plain : ∀ i < 64, letter i ≠ unit '=' ∧ isHigh (letter i) = false := by decide +kernel

def sextets : Bytes → List Nat
  | [] => []
  | [b0] => [b0.toNat / 4, b0.toNat % 4 * 16]
  | [b0, b1] => [b0.toNat / 4, b0.toNat % 4 * 16 + b1.toNat / 16, b1.toNat % 16 * 4]
  | b0 :: b1 :: b2 :: bytes =>
    b0.toNat / 4 :: (b0.toNat % 4 * 16 + b1.toNat / 16) :: (b1.toNat % 16 * 4 + b2.toNat / 64) :: b2.toNat % 64 ::
      sextets bytes

theorem sextets_lt (bytes : Bytes) : ∀ v ∈ sextets bytes, v < 64 := by
  induction bytes using sextets.induct with
  | case1 => exact fun v hv => by cases hv
  | case2 b0 =>
    have h0 := b0.toNat_lt
    simp only [sextets, List.forall_mem_cons, List.not_mem_nil, IsEmpty.forall_iff, implies_true, and_true]
    omega
  | case3 b0 b1 =>
    have h0 := b0.toNat_lt
    have h1 := b1.toNat_lt
    simp only [sextets, List.forall_mem_cons, List.not_mem_nil, IsEmpty.forall_iff, implies_true, and_true]
    omega
  | case4 b0 b1 b2 bytes ih =>
    have h0 := b0.toNat_lt
    have h1 := b1.toNat_lt
    have h2 := b2.toNat_lt
    simp only [sextets, List.forall_mem_cons]
    exact ⟨by omega, by omega, by omega, by omega, ih⟩

theorem toNat_fields {a b : UInt8} {i : Nat} (hi : i < 8) (ha : a.toNat * 2 ^ i < 256) (hb : b.toNat < 2 ^ i) :
    ((a <<< UInt8.ofNat i) ||| b).toNat = a.toNat * 2 ^ i + b.toNat := by
  have hshift : (a <<< UInt8.ofNat i).toNat = a.toNat <<< i := by
    rw [UInt8.toNat_shiftLeft, UInt8.toNat_ofNat', Nat.mod_eq_of_lt (show i < 2 ^ 8 by omega), Nat.mod_eq_of_lt hi,
      Nat.shiftLeft_eq, Nat.mod_eq_of_lt ha]
  rw [UInt8.toNat_or, hshift, ← Nat.shiftLeft_add_eq_or_of_lt hb, Nat.shiftLeft_eq]

theorem toNat_low (b : UInt8) : (b &&& 0x03).toNat = b.toNat % 4 ∧ (b &&& 0x0f).toNat = b.toNat % 16 ∧
    (b &&& 0x3f).toNat = b.toNat % 64 := by
  rw [UInt8.toNat_and, UInt8.toNat_and, UInt8.toNat_and]
  exact ⟨Nat.and_two_pow_sub_one_eq_mod _ 2, Nat.and_two_pow_sub_one_eq_mod _ 4, Nat.and_two_pow_sub_one_eq_mod _ 6⟩

theorem toNat_high (b : UInt8) : (b >>> 2).toNat = b.toNat / 4 ∧ (b >>> 4).toNat = b.toNat / 16 ∧
    (b >>> 6).toNat = b.toNat / 64 := by
  rw [UInt8.toNat_shiftRight, UInt8.toNat_shiftRight, UInt8.toNat_shiftRight]
  exact ⟨Nat.shiftRight_eq_div_pow _ 2, Nat.shiftRight_eq_div_pow _ 4, Nat.shiftRight_eq_div_pow _ 6⟩

theorem second_letter (b0 b1 : UInt8) :
    (((b0 &&& 0x03) <<< 4) ||| (b1 >>> 4)).toNat = b0.toNat % 4 * 16 + b1.toNat / 16 := by
  have h1 := b1.toNat_lt
  have h := @toNat_fields (b0 &&& 0x03) (b1 >>> 4) 4 (by omega) (by rw [(toNat_low b0).1]; omega)
    (by rw [(toNat_high b1).2.1]; omega)
  rw [(toNat_low b0).1, (toNat_high b1).2.1] at h
  exact h

theorem third_letter (b1 b2 : UInt8) :
    (((b1 &&& 0x0f) <<< 2) ||| (b2 >>> 6)).toNat = b1.toNat % 16 * 4 + b2.toNat / 64 := by
  have h2 := b2.toNat_lt
  have h := @toNat_fields (b1 &&& 0x0f) (b2 >>> 6) 2 (by omega) (by rw [(toNat_low b1).2.1]; omega)
    (by rw [(toNat_high b2).2.2]; omega)
  rw [(toNat_low b1).2.1, (toNat_high b2).2.2] at h
  exact h

theorem toBase64_letters (bytes : Bytes) :
    ∃ n, toBase64 bytes = (sextets bytes).map letter ++ List.replicate n (unit '=') := by
  induction bytes using sextets.induct with
  | case1 => exact ⟨0, rfl⟩
  | case2 b0 =>
    have hlt := sextets_lt [b0]
    simp only [sextets, List.forall_mem_cons] at hlt
    refine ⟨2, ?_⟩
    have h2 := second_letter b0 0
    rw [show UInt8.toNat 0 / 16 = 0 from rfl, Nat.add_zero] at h2
    rw [toBase64, base64Group, (toNat_high b0).1, Option.getD_none, h2, alphabetAt_letter _ hlt.1,
      alphabetAt_letter _ hlt.2.1]
    rfl
  | case3 b0 b1 =>
    have hlt := sextets_lt [b0, b1]
    simp only [sextets, List.forall_mem_cons] at hlt
    refine ⟨1, ?_⟩
    have h3 := third_letter b1 0
    rw [show UInt8.toNat 0 / 64 = 0 from rfl, Nat.add_zero] at h3
    rw [toBase64, base64Group, (toNat_high b0).1, Option.getD_some, second_letter, Option.getD_none]
    simp only [h3]
    rw [alphabetAt_letter _ hlt.1, alphabetAt_letter _ hlt.2.1, alphabetAt_letter _ hlt.2.2.1]
    rfl
  | case4 b0 b1 b2 bytes ih =>
    have hlt := sextets_lt (b0 :: b1 :: b2 :: bytes)
    simp only [sextets, List.forall_mem_cons] at hlt
    obtain ⟨n, hn⟩ := ih
    refine ⟨n, ?_⟩
    rw [toBase64, hn, base64Group, (toNat_high b0).1, Option.getD_some, second_letter, Option.getD_some]
    simp only [third_letter, (toNat_low b2).2.2]
    rw [alphabetAt_letter _ hlt.1, alphabetAt_letter _ hlt.2.1, alphabetAt_letter _ hlt.2.2.1,
      alphabetAt_letter _ hlt.2.2.2.1]
    rfl

/-! ## Reading the letters back -/

theorem accumulate (acc : BitVec 32) {v : Nat} (hv : v < 64) :
    ((acc <<< 6) ||| BitVec.ofNat 32 v).toNat = (acc.toNat * 64 + v) % 2 ^ 32 := by
  have hacc : acc.toNat < 2 ^ 32 := acc.isLt
  have hshift : acc.toNat <<< 6 % 2 ^ 32 = (acc.toNat % 2 ^ 26) <<< 6 := by
    rw [Nat.shiftLeft_eq, Nat.shiftLeft_eq]
    omega
  rw [BitVec.toNat_or, BitVec.toNat_shiftLeft, BitVec.toNat_ofNat,
    Nat.mod_eq_of_lt (show v < 2 ^ 32 by omega), hshift,
    ← Nat.shiftLeft_add_eq_or_of_lt (show v < 2 ^ 6 from hv), Nat.shiftLeft_eq]
  omega

/-- The sign is never among the eight bits that are kept. -/
theorem kept_byte (x : BitVec 32) {s : Nat} (hs : s ≤ 24) :
    (x.sshiftRight s &&& 0xff).toNat = x.toNat / 2 ^ s % 256 := by
  have hsign : x.sshiftRight s &&& 0xff = x >>> s &&& 0xff := by
    apply BitVec.eq_of_getLsbD_eq
    intro i hi
    rw [BitVec.getLsbD_and, BitVec.getLsbD_and, BitVec.getLsbD_sshiftRight, BitVec.getLsbD_ushiftRight]
    by_cases h8 : i < 8
    · simp [hi, show s + i < 32 by omega, show ¬ 32 ≤ i by omega]
    · have hmask : (0xff : BitVec 32).getLsbD i = false := by
        have hpow : 2 ^ 8 ≤ 2 ^ i := Nat.pow_le_pow_right (by omega) (by omega)
        exact Nat.testBit_lt_two_pow (show 0xff < 2 ^ i by omega)
      rw [hmask, Bool.and_false, Bool.and_false]
  rw [hsign, BitVec.toNat_and, BitVec.toNat_ushiftRight, Nat.shiftRight_eq_div_pow]
  exact Nat.and_two_pow_sub_one_eq_mod _ 8

theorem add_short {d : Decoding} {v : Nat} (hv : v < 64) (hb : d.bits < 2) :
    ∃ acc, d.add v = { d with bits := d.bits + 6, acc } ∧ acc.toNat = (d.acc.toNat * 64 + v) % 2 ^ 32 := by
  refine ⟨_, ?_, accumulate d.acc hv⟩
  unfold Decoding.add
  rw [if_neg (by omega)]

theorem add_full {d : Decoding} {v : Nat} (hv : v < 64) (hb : 2 ≤ d.bits) (hb' : d.bits ≤ 6) :
    ∃ acc, d.add v = { bits := d.bits - 2, acc, index := d.index + 1
                       out := d.out.set d.index (.ofNat ((d.acc.toNat * 64 + v) / 2 ^ (d.bits - 2) % 256)) } ∧
      acc.toNat = (d.acc.toNat * 64 + v) % 2 ^ 32 := by
  refine ⟨_, ?_, accumulate d.acc hv⟩
  unfold Decoding.add
  rw [if_pos (by omega), kept_byte _ (by omega), accumulate d.acc hv]
  have hlow : (d.acc.toNat * 64 + v) % 2 ^ 32 / 2 ^ (d.bits - 2) % 256 =
      (d.acc.toNat * 64 + v) / 2 ^ (d.bits - 2) % 256 := by
    obtain h | h | h | h | h : d.bits = 2 ∨ d.bits = 3 ∨ d.bits = 4 ∨ d.bits = 5 ∨ d.bits = 6 := by omega
    all_goals
      rw [h]
      omega
  rw [show d.bits + 6 - 8 = d.bits - 2 by omega, hlow]

/-- The bytes of a list of six-bit values; six bits over are none of them. -/
def octets : List Nat → Bytes
  | v0 :: v1 :: v2 :: v3 :: values =>
    .ofNat (v0 * 4 + v1 / 16) :: .ofNat (v1 % 16 * 16 + v2 / 4) :: .ofNat (v2 % 4 * 64 + v3) :: octets values
  | [v0, v1, v2] => [UInt8.ofNat (v0 * 4 + v1 / 16), .ofNat (v1 % 16 * 16 + v2 / 4)]
  | [v0, v1] => [UInt8.ofNat (v0 * 4 + v1 / 16)]
  | _ => []

theorem set_next (done : Bytes) (b : UInt8) (k : Nat) :
    (done ++ List.replicate (k + 1) 0).set done.length b = (done ++ [b]) ++ List.replicate k 0 := by
  rw [List.set_append_right _ _ (Nat.le_refl _), Nat.sub_self, List.replicate_succ, List.set_cons_zero,
    List.append_assoc]
  rfl

theorem add_pair {v0 v1 : Nat} (h0 : v0 < 64) (h1 : v1 < 64) (acc : BitVec 32) (done : Bytes) (k : Nat) :
    ∃ acc', (Decoding.add ⟨0, acc, done.length, done ++ .replicate (k + 1) 0⟩ v0).add v1 =
        ⟨4, acc', (done ++ [UInt8.ofNat (v0 * 4 + v1 / 16)]).length,
          done ++ [UInt8.ofNat (v0 * 4 + v1 / 16)] ++ .replicate k 0⟩ ∧
      acc'.toNat % 16 = v1 % 16 := by
  obtain ⟨a0, e0, n0⟩ := add_short (d := ⟨0, acc, done.length, done ++ .replicate (k + 1) 0⟩) h0 (by simp)
  obtain ⟨a1, e1, n1⟩ :=
    add_full (d := ⟨6, a0, done.length, done ++ .replicate (k + 1) 0⟩) h1 (by simp) (by simp)
  refine ⟨a1, ?_, by simp only at n1; omega⟩
  simp only at n0
  have hbyte : (a0.toNat * 64 + v1) / 2 ^ (6 - 2) % 256 = v0 * 4 + v1 / 16 := by omega
  rw [e0, e1]
  simp only [hbyte, set_next, List.length_append, List.length_singleton]

theorem add_third {v1 v2 : Nat} (h2 : v2 < 64) {acc : BitVec 32} (hacc : acc.toNat % 16 = v1 % 16) (done : Bytes)
    (k : Nat) :
    ∃ acc', Decoding.add ⟨4, acc, done.length, done ++ .replicate (k + 1) 0⟩ v2 =
        ⟨2, acc', (done ++ [UInt8.ofNat (v1 % 16 * 16 + v2 / 4)]).length,
          done ++ [UInt8.ofNat (v1 % 16 * 16 + v2 / 4)] ++ .replicate k 0⟩ ∧
      acc'.toNat % 4 = v2 % 4 := by
  obtain ⟨a2, e2, n2⟩ :=
    add_full (d := ⟨4, acc, done.length, done ++ .replicate (k + 1) 0⟩) h2 (by simp) (by simp)
  refine ⟨a2, ?_, by simp only at n2; omega⟩
  have hbyte : (acc.toNat * 64 + v2) / 2 ^ (4 - 2) % 256 = v1 % 16 * 16 + v2 / 4 := by omega
  rw [e2]
  simp only [hbyte, set_next, List.length_append, List.length_singleton]

theorem add_fourth {v2 v3 : Nat} (h3 : v3 < 64) {acc : BitVec 32} (hacc : acc.toNat % 4 = v2 % 4) (done : Bytes)
    (k : Nat) :
    ∃ acc', Decoding.add ⟨2, acc, done.length, done ++ .replicate (k + 1) 0⟩ v3 =
        ⟨0, acc', (done ++ [UInt8.ofNat (v2 % 4 * 64 + v3)]).length,
          done ++ [UInt8.ofNat (v2 % 4 * 64 + v3)] ++ .replicate k 0⟩ := by
  obtain ⟨a3, e3, -⟩ :=
    add_full (d := ⟨2, acc, done.length, done ++ .replicate (k + 1) 0⟩) h3 (by simp) (by simp)
  refine ⟨a3, ?_⟩
  have hbyte : (acc.toNat * 64 + v3) / 2 ^ (2 - 2) % 256 = v2 % 4 * 64 + v3 := by omega
  rw [e3]
  simp only [hbyte, set_next, List.length_append, List.length_singleton]

theorem foldl_add (values : List Nat) (hv : ∀ v ∈ values, v < 64) (acc : BitVec 32) (done : Bytes) :
    (values.foldl Decoding.add ⟨0, acc, done.length, done ++ .replicate (values.length * 6 / 8) 0⟩).out =
      done ++ octets values := by
  induction values using octets.induct generalizing acc done with
  | case1 v0 v1 v2 v3 values ih =>
    simp only [List.forall_mem_cons] at hv
    have hlen : (v0 :: v1 :: v2 :: v3 :: values).length * 6 / 8 = values.length * 6 / 8 + 1 + 1 + 1 := by
      simp only [List.length_cons]
      omega
    obtain ⟨a1, e1, n1⟩ := add_pair hv.1 hv.2.1 acc done (values.length * 6 / 8 + 1 + 1)
    obtain ⟨a2, e2, n2⟩ :=
      add_third hv.2.2.1 n1 (done ++ [UInt8.ofNat (v0 * 4 + v1 / 16)]) (values.length * 6 / 8 + 1)
    obtain ⟨a3, e3⟩ := add_fourth hv.2.2.2.1 n2
      (done ++ [UInt8.ofNat (v0 * 4 + v1 / 16)] ++ [UInt8.ofNat (v1 % 16 * 16 + v2 / 4)]) (values.length * 6 / 8)
    rw [hlen, List.foldl_cons, List.foldl_cons, e1, List.foldl_cons, e2, List.foldl_cons, e3, ih hv.2.2.2.2, octets]
    simp only [List.append_assoc, List.cons_append, List.nil_append]
  | case2 v0 v1 v2 =>
    simp only [List.forall_mem_cons] at hv
    obtain ⟨a1, e1, n1⟩ := add_pair hv.1 hv.2.1 acc done 1
    obtain ⟨a2, e2, -⟩ := add_third hv.2.2.1 n1 (done ++ [UInt8.ofNat (v0 * 4 + v1 / 16)]) 0
    rw [show [v0, v1, v2].length * 6 / 8 = 1 + 1 by simp, List.foldl_cons, List.foldl_cons, e1, List.foldl_cons, e2]
    simp [octets]
  | case3 v0 v1 =>
    simp only [List.forall_mem_cons] at hv
    obtain ⟨a1, e1, -⟩ := add_pair hv.1 hv.2.1 acc done 0
    rw [show [v0, v1].length * 6 / 8 = 0 + 1 by simp, List.foldl_cons, List.foldl_cons, e1]
    simp [octets]
  | case4 values h4 h3 h2 =>
    match values with
    | [] => simp [octets]
    | [v0] =>
      obtain ⟨a0, e0, -⟩ := add_short (d := ⟨0, acc, done.length, done ++ .replicate (1 * 6 / 8) 0⟩)
        (hv v0 (by simp)) (by simp)
      simp only [List.length_singleton, List.foldl_cons, List.foldl_nil, e0]
      simp [octets]
    | [v0, v1] => exact absurd rfl (h2 v0 v1)
    | [v0, v1, v2] => exact absurd rfl (h3 v0 v1 v2)
    | v0 :: v1 :: v2 :: v3 :: values => exact absurd rfl (h4 v0 v1 v2 v3 values)

theorem octets_sextets (bytes : Bytes) : octets (sextets bytes) = bytes := by
  induction bytes using sextets.induct with
  | case1 => rfl
  | case2 b0 =>
    have h0 := b0.toNat_lt
    rw [sextets, octets, byte_eq (b := b0) (by omega)]
  | case3 b0 b1 =>
    have h0 := b0.toNat_lt
    have h1 := b1.toNat_lt
    rw [sextets, octets, byte_eq (b := b0) (by omega), byte_eq (b := b1) (by omega)]
  | case4 b0 b1 b2 bytes ih =>
    have h0 := b0.toNat_lt
    have h1 := b1.toNat_lt
    have h2 := b2.toNat_lt
    rw [sextets, octets, ih, byte_eq (b := b0) (by omega), byte_eq (b := b1) (by omega),
      byte_eq (b := b2) (by omega)]

theorem characters_letters (values : List Nat) (hv : ∀ v ∈ values, v < 64) :
    characters (values.map letter) = values.map fun v => [letter v] := by
  induction values with
  | nil => rfl
  | cons v values ih =>
    rw [List.forall_mem_cons] at hv
    cases values with
    | nil => rfl
    | cons w values =>
      rw [List.map_cons, List.map_cons, characters, (letter_plain v hv.1).2, Bool.false_and, if_neg (by simp)]
      exact congrArg ([letter v] :: ·) (ih hv.2)

theorem foldlM_letters (values : List Nat) (hv : ∀ v ∈ values, v < 64) (d : Decoding) :
    (values.map fun v => [letter v]).foldlM decodeCharacter d = .ok (values.foldl Decoding.add d) := by
  induction values generalizing d with
  | nil => rfl
  | cons v values ih =>
    rw [List.forall_mem_cons] at hv
    rw [List.map_cons, List.foldlM_cons, decodeCharacter, indexOf_letter v hv.1, List.foldl_cons]
    exact ih hv.2 (d.add v)

theorem withoutPadding_letters (values : List Nat) (hv : ∀ v ∈ values, v < 64) (n : Nat) :
    withoutPadding (values.map letter ++ List.replicate n (unit '=')) = values.map letter := by
  unfold withoutPadding
  rw [List.reverse_append, List.reverse_replicate, List.dropWhile_append_of_pos]
  · cases h : (values.map letter).reverse with
    | nil => rw [List.reverse_eq_nil_iff.mp h]; rfl
    | cons c t =>
      obtain ⟨v, hmem, rfl⟩ := List.mem_map.mp (List.mem_reverse.mp
        (h ▸ List.mem_cons_self : c ∈ (values.map letter).reverse))
      rw [List.dropWhile_cons, if_neg (by simpa using (letter_plain v (hv v hmem)).1), ← h, List.reverse_reverse]
  · intro c hc
    rw [List.eq_of_mem_replicate hc]
    simp

theorem sextets_length (bytes : Bytes) : (sextets bytes).length % 4 ≠ 1 := by
  induction bytes using sextets.induct with
  | case4 b0 b1 b2 bytes ih =>
    simp only [sextets, List.length_cons]
    omega
  | _ => simp [sextets]

theorem fromBase64_letters (values : List Nat) (hv : ∀ v ∈ values, v < 64) (hlen : values.length % 4 ≠ 1)
    (n : Nat) :
    fromBase64 (values.map letter ++ List.replicate n (unit '=')) = .ok (octets values) := by
  unfold fromBase64
  simp only [withoutPadding_letters values hv, List.length_map, if_neg hlen, characters_letters values hv,
    foldlM_letters values hv]
  exact congrArg Except.ok (foldl_add values hv 0 [])

theorem fromBase64_toBase64 (bytes : Bytes) : fromBase64 (toBase64 bytes) = .ok bytes := by
  obtain ⟨n, hn⟩ := toBase64_letters bytes
  rw [hn, fromBase64_letters _ (sextets_lt bytes) (sextets_length bytes), octets_sextets]

end Keyhole.Crypto
