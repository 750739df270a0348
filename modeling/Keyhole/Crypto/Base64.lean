import Keyhole.Crypto.Encoding
import Keyhole.Lib.Digits

/-!
# Base64 to the bit

The loop of `fromBase64` over 32-bit integers beside the same loop over
integers of any size, and what either makes of the six bits of each letter.
-/

namespace Keyhole.Crypto
open Unicode Json

/-! ## The same loop, with nothing lost -/

structure ExactDecoding where
  bits : Nat
  acc : Nat
  index : Nat
  out : Bytes
  deriving DecidableEq, Repr

def ExactDecoding.add (d : ExactDecoding) (value : Nat) : ExactDecoding :=
  let acc := d.acc * 64 + value
  let bits := d.bits + 6
  if 8 ≤ bits then
    { bits := bits - 8, acc, index := d.index + 1, out := d.out.set d.index (.ofNat (acc / 2 ^ (bits - 8))) }
  else { d with bits, acc }

def decodeExactly (d : ExactDecoding) (char : Text) : Except CryptoError ExactDecoding :=
  match indexOf BASE64_ALPHABET char with
  | none => .error (.malformedEnvelope (units "Invalid base64 character: " ++ char))
  | some value => .ok (d.add value)

def fromBase64Exactly (text : Text) : Except CryptoError Bytes :=
  let clean := withoutPadding text
  if clean.length % 4 = 1 then
    .error (.malformedEnvelope (units "Invalid base64 length: " ++ decimal clean.length ++ units " characters"))
  else do
    let d ← (characters clean).foldlM decodeExactly
      { bits := 0, acc := 0, index := 0, out := .replicate (clean.length * 6 / 8) 0 }
    return d.out

/-- Of the accumulator 32 bits are there, and they are enough. -/
structure Decoding.Follows (d : Decoding) (e : ExactDecoding) : Prop where
  bits : d.bits = e.bits
  acc : d.acc.toNat = e.acc % 2 ^ 32
  index : d.index = e.index
  out : d.out = e.out
  few : e.bits < 8

theorem indexOf_lt {text piece : Text} {i : Nat} (h : indexOf text piece = some i) (hne : piece ≠ []) :
    i < text.length ∧ piece <+: text.drop i := by
  have hpre : piece <+: text.drop i := by
    have hfound := List.find?_some (p := fun i => piece.isPrefixOf (text.drop i)) h
    exact List.isPrefixOf_iff_prefix.mp hfound
  refine ⟨?_, hpre⟩
  by_contra hge
  rw [List.drop_of_length_le (by omega), List.prefix_nil] at hpre
  exact hne hpre

theorem low_byte (x : Nat) {s : Nat} (hs : s ≤ 24) : x % 2 ^ 32 / 2 ^ s % 256 = x / 2 ^ s % 256 := by
  have hsplit : 2 ^ 32 = 2 ^ s * 2 ^ (32 - s) := by
    rw [← Nat.pow_add]
    congr 1
    omega
  have hdvd : 256 ∣ 2 ^ (32 - s) := Nat.pow_dvd_pow 2 (show 8 ≤ 32 - s by omega)
  rw [hsplit, Nat.mod_mul_right_div_self, Nat.mod_mod_of_dvd _ hdvd]

theorem follows_add {d : Decoding} {e : ExactDecoding} (h : d.Follows e) {v : Nat} (hv : v < 64) :
    (d.add v).Follows (e.add v) := by
  obtain ⟨hbits, hacc, hindex, hout, hfew⟩ := h
  have haccum := accumulate d.acc hv
  rw [hacc] at haccum
  have hsame : (e.acc % 2 ^ 32 * 64 + v) % 2 ^ 32 = (e.acc * 64 + v) % 2 ^ 32 := by omega
  rw [hsame] at haccum
  unfold Decoding.add ExactDecoding.add
  simp only [hbits, hindex, hout]
  by_cases hfull : 8 ≤ e.bits + 6
  · rw [if_pos hfull, if_pos hfull]
    refine ⟨rfl, haccum, rfl, ?_, by simp only; omega⟩
    have hkept : ((d.acc <<< 6 ||| BitVec.ofNat 32 v).sshiftRight (e.bits + 6 - 8) &&& 0xff).toNat =
        (e.acc * 64 + v) / 2 ^ (e.bits + 6 - 8) % 256 := by
      rw [kept_byte _ (by omega), haccum, low_byte _ (by omega)]
    have hbyte : ∀ n : Nat, UInt8.ofNat (n % 256) = .ofNat n := fun n => UInt8.ofNat_mod_size
    rw [hkept, hbyte]
  · rw [if_neg hfull, if_neg hfull]
    exact ⟨rfl, haccum, rfl, rfl, by simp only; omega⟩

/-- The one evaluation of the alphabet; what else is said of it follows. -/
theorem alphabet_letters : BASE64_ALPHABET = (List.range 64).map letter := by decide +kernel

theorem length_alphabet : BASE64_ALPHABET.length = 64 := by
  rw [alphabet_letters, List.length_map, List.length_range]

theorem nodup_alphabet : BASE64_ALPHABET.Nodup := by
  rw [alphabet_letters]
  apply List.Nodup.map_on _ List.nodup_range
  intro i hi j hj heq
  have hfound := indexOf_letter i (List.mem_range.mp hi)
  rw [heq, indexOf_letter j (List.mem_range.mp hj), Option.some.injEq] at hfound
  exact hfound.symm

theorem getElem_alphabet {v : Nat} (hv : v < BASE64_ALPHABET.length) : BASE64_ALPHABET[v] = letter v := by
  rw [letter, List.getD_eq_getElem?_getD, List.getElem?_eq_getElem hv, Option.getD_some]

theorem idxOf_letter {v : Nat} (hv : v < 64) : BASE64_ALPHABET.idxOf (letter v) = v := by
  have hlt : v < BASE64_ALPHABET.length := by rwa [length_alphabet]
  rw [← getElem_alphabet hlt]
  exact nodup_alphabet.idxOf_getElem v hlt

theorem foldlM_follows (chars : List Text) (hne : ∀ c ∈ chars, c ≠ []) {d : Decoding} {e : ExactDecoding}
    (h : d.Follows e) :
    (chars.foldlM decodeCharacter d).map (·.out) = (chars.foldlM decodeExactly e).map (·.out) := by
  induction chars generalizing d e with
  | nil => exact congrArg Except.ok h.out
  | cons c chars ih =>
    rw [List.forall_mem_cons] at hne
    simp only [List.foldlM_cons, decodeCharacter, decodeExactly]
    cases hi : indexOf BASE64_ALPHABET c with
    | none => rfl
    | some v =>
      have hv := (indexOf_lt hi hne.1).1
      rw [length_alphabet] at hv
      exact ih hne.2 (follows_add h hv)

theorem characters_ne_nil (t : Text) : ∀ c ∈ characters t, c ≠ [] := by
  induction t using characters.induct with
  | case1 => simp [characters]
  | case2 u => simp [characters]
  | case3 u v t hpair ih =>
    rw [characters, if_pos hpair, List.forall_mem_cons]
    exact ⟨by simp, ih⟩
  | case4 u v t hpair ih =>
    rw [characters, if_neg hpair, List.forall_mem_cons]
    exact ⟨by simp, ih⟩

theorem fromBase64_exactly (text : Text) : fromBase64 text = fromBase64Exactly text := by
  unfold fromBase64 fromBase64Exactly
  by_cases hlen : (withoutPadding text).length % 4 = 1
  · simp [hlen]
  · simp only [if_neg hlen]
    exact foldlM_follows _ (characters_ne_nil _) ⟨rfl, rfl, rfl, rfl, by simp⟩

/-! ## What is accepted -/

def IsBase64 (letters : Text) : Prop := (∀ c ∈ letters, c ∈ BASE64_ALPHABET) ∧ letters.length % 4 ≠ 1

theorem flatten_characters (t : Text) : (characters t).flatten = t := by
  induction t using characters.induct with
  | case1 => rfl
  | case2 u => rfl
  | case3 u v t hpair ih => simp [characters, hpair, ih]
  | case4 u v t hpair ih => rw [characters, if_neg hpair, List.flatten_cons, ih]; rfl

theorem characters_shape (t : Text) :
    ∀ c ∈ characters t, (∃ u, c = [u]) ∨ ∃ u v, c = [u, v] ∧ isHigh u = true := by
  induction t using characters.induct with
  | case1 => simp [characters]
  | case2 u => simp [characters]
  | case3 u v t hpair ih =>
    rw [characters, if_pos hpair, List.forall_mem_cons]
    exact ⟨Or.inr ⟨u, v, rfl, (Bool.and_eq_true_iff.mp hpair).1⟩, ih⟩
  | case4 u v t hpair ih =>
    rw [characters, if_neg hpair, List.forall_mem_cons]
    exact ⟨Or.inl ⟨u, rfl⟩, ih⟩

theorem letter_of_index {t c : Text} (hc : c ∈ characters t) {v : Nat} (h : indexOf BASE64_ALPHABET c = some v) :
    v < 64 ∧ c = [letter v] := by
  obtain ⟨hlt, hpre⟩ := indexOf_lt h (characters_ne_nil t c hc)
  rw [List.drop_eq_getElem_cons hlt, getElem_alphabet] at hpre
  rw [length_alphabet] at hlt
  refine ⟨hlt, ?_⟩
  rcases characters_shape t c hc with ⟨u, rfl⟩ | ⟨u, w, rfl, hhigh⟩
  · rw [(List.cons_prefix_cons.mp hpre).1]
  · have hu := (List.cons_prefix_cons.mp hpre).1
    rw [hu, (letter_plain v hlt).2] at hhigh
    cases hhigh

theorem values_of_ok {chars : List Text} {t : Text} (hsub : ∀ c ∈ chars, c ∈ characters t) {d d' : Decoding}
    (h : chars.foldlM decodeCharacter d = .ok d') :
    ∃ values : List Nat, (∀ v ∈ values, v < 64) ∧ chars = values.map fun v => [letter v] := by
  induction chars generalizing d with
  | nil => exact ⟨[], by simp, rfl⟩
  | cons c chars ih =>
    rw [List.forall_mem_cons] at hsub
    rw [List.foldlM_cons, decodeCharacter] at h
    cases hi : indexOf BASE64_ALPHABET c with
    | none =>
      rw [hi] at h
      cases h
    | some v =>
      rw [hi] at h
      obtain ⟨hlt, hc⟩ := letter_of_index hsub.1 hi
      obtain ⟨values, hv, hchars⟩ := ih hsub.2 h
      exact ⟨v :: values, List.forall_mem_cons.mpr ⟨hlt, hv⟩, by rw [hc, hchars, List.map_cons]⟩

theorem mem_alphabet {c : UInt16} : c ∈ BASE64_ALPHABET ↔ ∃ v < 64, c = letter v := by
  rw [alphabet_letters, List.mem_map]
  simp only [List.mem_range, eq_comm]

theorem values_of_letters {letters : Text} (h : ∀ c ∈ letters, c ∈ BASE64_ALPHABET) :
    ∃ values : List Nat, (∀ v ∈ values, v < 64) ∧ letters = values.map letter := by
  induction letters with
  | nil => exact ⟨[], by simp, rfl⟩
  | cons c letters ih =>
    rw [List.forall_mem_cons] at h
    obtain ⟨v, hlt, rfl⟩ := mem_alphabet.mp h.1
    obtain ⟨values, hv, rfl⟩ := ih h.2
    exact ⟨v :: values, List.forall_mem_cons.mpr ⟨hlt, hv⟩, rfl⟩

theorem isBase64_of_ok {text : Text} {out : Bytes} (h : fromBase64 text = .ok out) :
    IsBase64 (withoutPadding text) := by
  unfold fromBase64 at h
  by_cases hlen : (withoutPadding text).length % 4 = 1
  · simp [hlen] at h
  · simp only [if_neg hlen] at h
    cases hd : (characters (withoutPadding text)).foldlM decodeCharacter
        ⟨0, 0, 0, .replicate ((withoutPadding text).length * 6 / 8) 0⟩ with
    | error e =>
      rw [hd] at h
      cases h
    | ok d =>
      obtain ⟨values, hv, hchars⟩ := values_of_ok (fun c hc => hc) hd
      have hclean := flatten_characters (withoutPadding text)
      rw [hchars, ← List.flatMap_def, ← List.map_eq_flatMap] at hclean
      refine ⟨?_, hlen⟩
      rw [← hclean]
      intro c hc
      obtain ⟨v, hmem, rfl⟩ := List.mem_map.mp hc
      exact mem_alphabet.mpr ⟨v, hv v hmem, rfl⟩

/-! ## What comes out -/

/-- The bytes write the number that the letters write, without the bits that are over. -/
def LeadingBytes (letters : Text) (out : Bytes) : Prop :=
  out.length = 6 * letters.length / 8 ∧
    Digits.value 256 (out.map UInt8.toNat) =
      Digits.value 64 (letters.map fun c => BASE64_ALPHABET.idxOf c) / 2 ^ (6 * letters.length % 8)

/-- Between two turns of the loop. -/
structure ExactDecoding.Read (values : List Nat) (d : ExactDecoding) : Prop where
  few : d.bits < 8
  counted : d.bits + 8 * d.index = 6 * values.length
  acc : d.acc = Digits.value 64 values
  written : Digits.value 256 ((d.out.take d.index).map UInt8.toNat) = Digits.value 64 values / 2 ^ d.bits

theorem take_set_succ {out : Bytes} {i : Nat} (h : i < out.length) (b : UInt8) :
    (out.set i b).take (i + 1) = out.take i ++ [b] := by
  rw [List.set_eq_take_append_cons_drop, if_pos h, List.take_append, List.length_take, Nat.min_eq_left h.le]
  simp [List.take_of_length_le]

theorem read_add {values : List Nat} {d : ExactDecoding} (h : d.Read values) {v : Nat} (hv : v < 64)
    (hroom : 6 * (values.length + 1) / 8 ≤ d.out.length) : (d.add v).Read (values ++ [v]) := by
  obtain ⟨hfew, hcount, hacc, hwritten⟩ := h
  have hvalue : Digits.value 64 (values ++ [v]) = Digits.value 64 values * 64 + v := Digits.value_concat values v
  unfold ExactDecoding.add
  simp only
  by_cases hfull : 8 ≤ d.bits + 6
  · rw [if_pos hfull]
    refine ⟨by simp only; omega, by simp only [List.length_append, List.length_singleton]; omega, ?_, ?_⟩
    · simp only [hacc, hvalue]
    · obtain ⟨s, hs⟩ : ∃ s, d.bits = s + 2 := ⟨d.bits - 2, by omega⟩
      have hbits : d.bits + 6 - 8 = s := by omega
      have hpow : 2 ^ d.bits * 64 = 2 ^ s * 256 := by
        rw [hs, Nat.pow_add]
        omega
      -- the bytes written before, in terms of the longer number
      have hbefore : Digits.value 64 values / 2 ^ d.bits = Digits.value 64 (values ++ [v]) / 2 ^ s / 256 := by
        have hdiv : Digits.value 64 values = Digits.value 64 (values ++ [v]) / 64 := by
          rw [hvalue]
          omega
        rw [hdiv, Nat.div_div_eq_div_mul, Nat.div_div_eq_div_mul, Nat.mul_comm 64, hpow]
      simp only [hbits, hacc, ← hvalue]
      rw [take_set_succ (by omega), List.map_append, List.map_singleton, Digits.value_concat, hwritten, hbefore,
        UInt8.toNat_ofNat']
      exact Nat.div_add_mod' _ 256
  · rw [if_neg hfull]
    refine ⟨by simp only; omega, by simp only [List.length_append, List.length_singleton]; omega, ?_, ?_⟩
    · simp only [hacc, hvalue]
    · simp only [hwritten, hvalue]
      rw [Nat.pow_add, Nat.mul_comm (2 ^ d.bits), ← Nat.div_div_eq_div_mul]
      congr 1
      omega

theorem length_add (d : ExactDecoding) (v : Nat) : (d.add v).out.length = d.out.length := by
  unfold ExactDecoding.add
  by_cases hfull : 8 ≤ d.bits + 6
  · simp [hfull]
  · simp [hfull]

theorem read_foldl (rest : List Nat) {values : List Nat} {d : ExactDecoding} (h : d.Read values)
    (hrest : ∀ v ∈ rest, v < 64) (hroom : 6 * (values.length + rest.length) / 8 ≤ d.out.length) :
    (rest.foldl ExactDecoding.add d).Read (values ++ rest) ∧
      (rest.foldl ExactDecoding.add d).out.length = d.out.length := by
  induction rest generalizing values d with
  | nil => simpa using h
  | cons v rest ih =>
    rw [List.forall_mem_cons] at hrest
    rw [List.length_cons] at hroom
    have hstep := read_add h hrest.1 (by omega)
    have hlen : (values ++ [v]).length = values.length + 1 := by simp
    have hmore := ih hstep hrest.2 (by rw [length_add, hlen]; omega)
    rw [List.append_assoc, List.singleton_append, length_add] at hmore
    exact hmore

theorem foldlM_exactly (values : List Nat) (hv : ∀ v ∈ values, v < 64) (d : ExactDecoding) :
    (values.map fun v => [letter v]).foldlM decodeExactly d = .ok (values.foldl ExactDecoding.add d) := by
  induction values generalizing d with
  | nil => rfl
  | cons v values ih =>
    rw [List.forall_mem_cons] at hv
    rw [List.map_cons, List.foldlM_cons, decodeExactly, indexOf_letter v hv.1, List.foldl_cons]
    exact ih hv.2 (d.add v)

theorem leading_of_letters {values : List Nat} (hv : ∀ v ∈ values, v < 64) {text : Text}
    (hclean : withoutPadding text = values.map letter) (hlen : values.length % 4 ≠ 1) :
    ∃ out, fromBase64 text = .ok out ∧ LeadingBytes (withoutPadding text) out := by
  have hvalues : (values.map letter).map (fun c => BASE64_ALPHABET.idxOf c) = values := by
    rw [List.map_map]
    conv_rhs => rw [← List.map_id values]
    exact List.map_congr_left fun v hmem => idxOf_letter (hv v hmem)
  have hstart : ExactDecoding.Read [] ⟨0, 0, 0, .replicate (values.length * 6 / 8) 0⟩ :=
    ⟨by simp, by simp, rfl, by simp⟩
  obtain ⟨hread, hlength⟩ := read_foldl values hstart hv
    (by simp only [List.length_nil, List.length_replicate]; omega)
  have hok : fromBase64 text =
      .ok (values.foldl ExactDecoding.add ⟨0, 0, 0, .replicate (values.length * 6 / 8) 0⟩).out := by
    rw [fromBase64_exactly]
    unfold fromBase64Exactly
    simp only [hclean, List.length_map, if_neg hlen, characters_letters values hv, foldlM_exactly values hv]
    rfl
  generalize values.foldl ExactDecoding.add ⟨0, 0, 0, .replicate (values.length * 6 / 8) 0⟩ = d at hread hlength hok
  obtain ⟨hfew, hcount, -, hwritten⟩ := hread
  rw [List.nil_append] at hwritten hcount
  rw [List.length_replicate] at hlength
  refine ⟨d.out, hok, ?_, ?_⟩
  · rw [hlength, hclean, List.length_map]
    omega
  · rw [List.take_of_length_le (by omega)] at hwritten
    rw [hclean, hvalues, List.length_map, hwritten]
    congr 2
    omega

theorem bytes_lt (bytes : Bytes) : ∀ d ∈ bytes.map UInt8.toNat, d < 256 := by
  intro d hd
  obtain ⟨b, -, rfl⟩ := List.mem_map.mp hd
  exact b.toNat_lt

theorem leading_unique {letters : Text} {out out' : Bytes} (h : LeadingBytes letters out)
    (h' : LeadingBytes letters out') : out = out' := by
  apply List.map_injective_iff.mpr (fun a b => UInt8.toNat.inj)
  refine Digits.value_inj ?_ (bytes_lt out) (bytes_lt out') ?_
  · rw [List.length_map, List.length_map, h.1, h'.1]
  · rw [h.2, h'.2]

/-- Encoded bytes come back; 32 bits lose nothing; and what is accepted is base64, of which the whole bytes are
read. -/
theorem base64_exact :
    (∀ bytes, fromBase64 (toBase64 bytes) = .ok bytes) ∧
    (∀ text, fromBase64 text = fromBase64Exactly text) ∧
    (∀ text, (∃ out, fromBase64 text = .ok out) ↔ IsBase64 (withoutPadding text)) ∧
    ∀ text out, fromBase64 text = .ok out ↔
      IsBase64 (withoutPadding text) ∧ LeadingBytes (withoutPadding text) out := by
  have hleading : ∀ text, IsBase64 (withoutPadding text) →
      ∃ out, fromBase64 text = .ok out ∧ LeadingBytes (withoutPadding text) out := by
    intro text h
    obtain ⟨values, hv, hclean⟩ := values_of_letters h.1
    refine leading_of_letters hv hclean ?_
    have hlen := h.2
    rwa [hclean, List.length_map] at hlen
  refine ⟨fromBase64_toBase64, fromBase64_exactly, fun text => ⟨?_, fun h => ?_⟩,
    fun text out => ⟨fun h => ?_, fun h => ?_⟩⟩
  · rintro ⟨out, h⟩
    exact isBase64_of_ok h
  · obtain ⟨out, hout, -⟩ := hleading text h
    exact ⟨out, hout⟩
  · have hbase := isBase64_of_ok h
    obtain ⟨out', hout', hlead⟩ := hleading text hbase
    rw [h] at hout'
    cases hout'
    exact ⟨hbase, hlead⟩
  · obtain ⟨out', hout', hlead⟩ := hleading text h.1
    rw [hout', leading_unique hlead h.2]

end Keyhole.Crypto
