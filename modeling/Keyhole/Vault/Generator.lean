import Keyhole.Lib.Digits
import Keyhole.Lib.Double
import Keyhole.Lib.Fallible
import Mathlib.Data.Int.CardIntervalMod
import Mathlib.Data.List.Perm.Basic
import Mathlib.Data.List.TakeDrop

/-!
# The password generator

The bytes a run draws stand on a tape, and a run that needs more than are left
on it stops there.
-/

namespace Keyhole.Vault
open Fallible

inductive Stop
  | thrown (message : String)
  | starved
  deriving DecidableEq, Repr

abbrev Drawing (α : Type) : Type := Fallible (List UInt8) Stop α

structure GeneratorOptions where
  length : Int
  lowercase : Bool
  uppercase : Bool
  digits : Bool
  symbols : Bool
  deriving DecidableEq, Repr

structure PartialOptions where
  length : Option Int
  lowercase : Option Bool
  uppercase : Option Bool
  digits : Option Bool
  symbols : Option Bool
  deriving DecidableEq, Repr

def DEFAULT_GENERATOR_OPTIONS : GeneratorOptions where
  length := 20
  lowercase := true
  uppercase := true
  digits := true
  symbols := true

namespace CLASSES

def lowercase : List Char := "abcdefghijklmnopqrstuvwxyz".toList

def uppercase : List Char := "ABCDEFGHIJKLMNOPQRSTUVWXYZ".toList

def digits : List Char := "0123456789".toList

def symbols : List Char := "!#$%&()*+,-.:;<=>?@[]^_\x7b|\x7d~".toList

end CLASSES

/-! ## Drawing an index -/

def draw (width : Nat) : Drawing (List UInt8) := fun tape =>
  if width ≤ tape.length then (.ok (tape.take width), tape.drop width) else (.error .starved, tape)

def widthFrom (limit : Nat) : (fuel width range : Nat) → Nat
  | 0, width, _ => width
  | fuel + 1, width, range =>
    if range < limit then widthFrom limit fuel (width + 1) (Double.mul range 256) else width

/-- No turn leaves the range as it was, and so there are fewer than `limit`. -/
def byteWidthFor (limit : Nat) : Nat := widthFrom limit limit 1 256

/-- The number that the bytes of one draw write. -/
def valueOf (bytes : List UInt8) : Nat :=
  bytes.foldl (fun value byte => Double.add (Double.mul value 256) byte.toNat) 0

def ceilingFor (limit : Nat) : Nat :=
  let range := Double.nat (256 ^ byteWidthFor limit)
  Double.mul (Double.floorDiv range limit) limit

/-- The loop of `randomIndex`. -/
def rejecting (limit : Nat) : (fuel : Nat) → Drawing Nat
  | 0 => fail .starved
  | fuel + 1 => do
    let bytes ← draw (byteWidthFor limit)
    if valueOf bytes < ceilingFor limit then pure (valueOf bytes % limit) else rejecting limit fuel

/-- A turn of the loop takes a byte at least: the tape has run out before the fuel does. -/
def randomIndex (limit : Int) : Drawing Nat :=
  if limit < 1 then fail (.thrown s!"limit must be at least 1, got {limit}")
  else do
    let fuel ← gets fun tape => tape.length + 1
    rejecting limit.toNat fuel

/-! ## Passwords -/

def charAt (text : List Char) (i : Nat) : List Char := (text.drop i).take 1

def pick (alphabet : List Char) : Drawing (List Char) := do
  let i ← randomIndex alphabet.length
  return charAt alphabet i

def GeneratorOptions.enabled (settings : GeneratorOptions) : List (List Char) :=
  (if settings.lowercase then [CLASSES.lowercase] else []) ++
    ((if settings.uppercase then [CLASSES.uppercase] else []) ++
      ((if settings.digits then [CLASSES.digits] else []) ++
        (if settings.symbols then [CLASSES.symbols] else [])))

def pickEach : List (List Char) → Drawing (List (List Char))
  | [] => pure []
  | alphabet :: rest => do
    let c ← pick alphabet
    let cs ← pickEach rest
    return c :: cs

/-- Each turn pushes one, and so `length` turns are enough. -/
def fill (union : List Char) (length : Int) : (turns : Nat) → List (List Char) → Drawing (List (List Char))
  | 0, characters => pure characters
  | turns + 1, characters =>
    if characters.length < length then do
      let c ← pick union
      fill union length turns (characters ++ [c])
    else pure characters

def swap (characters : List (List Char)) (i j : Nat) : List (List Char) :=
  let a := characters[i]?.getD []
  let b := characters[j]?.getD []
  (characters.set i b).set j a

/-- The Fisher-Yates loop from the index `i` down. -/
def shuffle : (i : Nat) → List (List Char) → Drawing (List (List Char))
  | 0, characters => pure characters
  | i + 1, characters => do
    let j ← randomIndex (i + 1 + 1 : Nat)
    shuffle i (swap characters (i + 1) j)

/-- `{ ...DEFAULT_GENERATOR_OPTIONS, ...options }`. -/
def PartialOptions.settings (options : PartialOptions) : GeneratorOptions where
  length := options.length.getD DEFAULT_GENERATOR_OPTIONS.length
  lowercase := options.lowercase.getD DEFAULT_GENERATOR_OPTIONS.lowercase
  uppercase := options.uppercase.getD DEFAULT_GENERATOR_OPTIONS.uppercase
  digits := options.digits.getD DEFAULT_GENERATOR_OPTIONS.digits
  symbols := options.symbols.getD DEFAULT_GENERATOR_OPTIONS.symbols

def generatePassword (options : PartialOptions) : Drawing (List Char) := do
  let settings := options.settings
  let enabled := settings.enabled
  if enabled.length = 0 then
    fail (.thrown "At least one character class must be enabled")
  else if settings.length < enabled.length then
    fail (.thrown s!"Length must be at least {enabled.length} to include every enabled class")
  else do
    let characters ← pickEach enabled
    let characters ← fill enabled.flatten settings.length settings.length.toNat characters
    let characters ← shuffle (characters.length - 1) characters
    return characters.flatten

/-! ## What a run returns -/

variable {limit : Nat}

theorem rejecting_lt (h : 0 < limit) (fuel : Nat) :
    Triple (fun _ => True) (rejecting limit fuel) fun i _ => i < limit := by
  induction fuel with
  | zero => exact Triple.fail
  | succ fuel ih =>
    refine Triple.bind (Q := fun _ _ => True) (fun _ _ _ _ _ => trivial) fun bytes => ?_
    by_cases hlt : valueOf bytes < ceilingFor limit
    · rw [if_pos hlt]
      exact Triple.pure fun _ _ => Nat.mod_lt _ h
    · rw [if_neg hlt]
      exact ih

theorem randomIndex_lt (limit : Int) :
    Triple (fun _ => True) (randomIndex limit) fun i _ => (i : Int) < limit := by
  unfold randomIndex
  by_cases h : limit < 1
  · rw [if_pos h]
    exact Triple.fail
  · rw [if_neg h]
    refine Triple.bind (Q := fun _ _ => True) (Triple.gets fun _ h => h) fun fuel => ?_
    have hpos : 0 < limit.toNat := by omega
    refine (rejecting_lt hpos fuel).conseq (fun _ h => h) ?_
    intro i _ hi
    omega

theorem pick_mem (alphabet : List Char) :
    Triple (fun _ => True) (pick alphabet) fun c _ => ∃ x ∈ alphabet, c = [x] := by
  refine Triple.bind (randomIndex_lt alphabet.length) fun i => Triple.pure fun _ hi => ?_
  have hlt : i < alphabet.length := by omega
  exact ⟨alphabet[i], List.getElem_mem hlt, List.take_one_drop_eq_of_lt_length hlt⟩

/-- Characters of a password are texts of one letter. -/
def single (x : Char) : List Char := [x]

theorem flatten_single (chars : List Char) : (chars.map single).flatten = chars := by
  induction chars with
  | nil => rfl
  | cons x chars ih => simp [single, ih]

/-- Every alphabet has a letter here, and every letter is of one of them. -/
structure Represent (chars : List Char) (alphabets : List (List Char)) : Prop where
  represented : ∀ alphabet ∈ alphabets, ∃ c ∈ chars, c ∈ alphabet
  only : ∀ c ∈ chars, ∃ alphabet ∈ alphabets, c ∈ alphabet

theorem Represent.cons {chars : List Char} {alphabets : List (List Char)} {x : Char} {alphabet : List Char}
    (h : Represent chars alphabets) (hx : x ∈ alphabet) : Represent (x :: chars) (alphabet :: alphabets) where
  represented := by
    rw [List.forall_mem_cons]
    refine ⟨⟨x, by simp, hx⟩, fun a ha => ?_⟩
    obtain ⟨c, hc, hmem⟩ := h.represented a ha
    exact ⟨c, List.mem_cons_of_mem x hc, hmem⟩
  only := by
    rw [List.forall_mem_cons]
    refine ⟨⟨alphabet, by simp, hx⟩, fun c hc => ?_⟩
    obtain ⟨a, ha, hmem⟩ := h.only c hc
    exact ⟨a, List.mem_cons_of_mem alphabet ha, hmem⟩

theorem pickEach_represent (alphabets : List (List Char)) :
    Triple (fun _ => True) (pickEach alphabets) fun cs _ =>
      ∃ chars, cs = chars.map single ∧ chars.length = alphabets.length ∧ Represent chars alphabets := by
  induction alphabets with
  | nil => exact Triple.pure fun _ _ => ⟨[], rfl, rfl, by simp, by simp⟩
  | cons alphabet rest ih =>
    refine Triple.bind (pick_mem alphabet) ?_
    rintro c tape ⟨x, hx, rfl⟩ cs tape' hrun
    obtain ⟨cs', tape'', hrest, hpure⟩ := run_bind_ok.mp hrun
    cases hpure
    obtain ⟨chars, rfl, hlen, hchars⟩ := ih tape trivial cs' _ hrest
    exact ⟨x :: chars, rfl, by simp [hlen], hchars.cons hx⟩

theorem fill_exact (union : List Char) (length : Int) (turns : Nat) (chars : List Char)
    (hle : chars.length ≤ length) (hturns : length ≤ chars.length + turns) :
    Triple (fun _ => True) (fill union length turns (chars.map single)) fun cs _ =>
      ∃ more, cs = (chars ++ more).map single ∧ (∀ x ∈ more, x ∈ union) ∧
        ((chars ++ more).length : Int) = length := by
  induction turns generalizing chars with
  | zero =>
    refine Triple.pure fun _ _ => ⟨[], by simp, by simp, ?_⟩
    rw [List.append_nil]
    omega
  | succ turns ih =>
    unfold fill
    by_cases hlt : ((chars.map single).length : Int) < length
    · rw [if_pos hlt]
      rw [List.length_map] at hlt
      refine Triple.bind (pick_mem union) ?_
      rintro c tape ⟨x, hx, rfl⟩ cs tape' hrun
      have hsingle : chars.map single ++ [[x]] = (chars ++ [x]).map single := by simp [single]
      rw [hsingle] at hrun
      have hlen : ((chars ++ [x]).length : Int) = chars.length + 1 := by simp
      obtain ⟨more, rfl, hmore, hlength⟩ := ih (chars ++ [x]) (by omega) (by omega) tape trivial cs tape' hrun
      refine ⟨x :: more, by simp, ?_, by simpa using hlength⟩
      rw [List.forall_mem_cons]
      exact ⟨hx, hmore⟩
    · rw [if_neg hlt]
      rw [List.length_map] at hlt
      refine Triple.pure fun _ _ => ⟨[], by simp, by simp, ?_⟩
      rw [List.append_nil]
      omega

theorem swap_perm {characters : List (List Char)} {i j : Nat} (hi : i < characters.length)
    (hj : j < characters.length) : (swap characters i j).Perm characters := by
  unfold swap
  rw [List.getElem?_eq_getElem hi, List.getElem?_eq_getElem hj]
  exact List.set_set_perm hi hj

theorem shuffle_perm (i : Nat) (characters : List (List Char)) (hi : i = 0 ∨ i < characters.length) :
    Triple (fun _ => True) (shuffle i characters) fun cs _ => cs.Perm characters := by
  induction i generalizing characters with
  | zero => exact Triple.pure fun _ _ => .refl _
  | succ i ih =>
    refine Triple.bind (randomIndex_lt _) ?_
    intro j tape hj cs tape' hrun
    have hperm : (swap characters (i + 1) j).Perm characters := swap_perm (by omega) (by omega)
    have hlen := hperm.length_eq
    exact (ih _ (by omega) tape trivial cs tape' hrun).trans hperm

theorem Represent.of_perm {chars chars' : List Char} {alphabets : List (List Char)} (h : Represent chars alphabets)
    (hperm : chars'.Perm chars) : Represent chars' alphabets where
  represented := by
    intro alphabet ha
    obtain ⟨c, hc, hmem⟩ := h.represented alphabet ha
    exact ⟨c, hperm.mem_iff.mpr hc, hmem⟩
  only := fun c hc => h.only c (hperm.mem_iff.mp hc)

theorem Represent.append {chars more : List Char} {alphabets : List (List Char)} (h : Represent chars alphabets)
    (hmore : ∀ c ∈ more, c ∈ alphabets.flatten) : Represent (chars ++ more) alphabets where
  represented := by
    intro alphabet ha
    obtain ⟨c, hc, hmem⟩ := h.represented alphabet ha
    exact ⟨c, List.mem_append_left more hc, hmem⟩
  only := by
    rw [List.forall_mem_append]
    exact ⟨h.only, fun c hc => List.mem_flatten.mp (hmore c hc)⟩

/-- What a password owes its settings. -/
structure Meets (settings : GeneratorOptions) (password : List Char) : Prop where
  length : (password.length : Int) = settings.length
  classes : Represent password settings.enabled

theorem generatePassword_meets (options : PartialOptions) :
    Triple (fun _ => True) (generatePassword options) fun password _ => Meets options.settings password := by
  unfold generatePassword
  by_cases hnone : options.settings.enabled.length = 0
  · rw [if_pos hnone]
    exact Triple.fail
  rw [if_neg hnone]
  by_cases hshort : options.settings.length < options.settings.enabled.length
  · rw [if_pos hshort]
    exact Triple.fail
  rw [if_neg hshort]
  refine Triple.bind (pickEach_represent options.settings.enabled) ?_
  rintro cs tape ⟨chars, rfl, hlen, hchars⟩ password tape' hrun
  obtain ⟨filled, tape₁, hfill, hrun⟩ := run_bind_ok.mp hrun
  obtain ⟨more, rfl, hmore, hlength⟩ :=
    fill_exact _ _ _ chars (by omega) (by omega) tape trivial filled tape₁ hfill
  obtain ⟨shuffled, tape₂, hshuffle, hpure⟩ := run_bind_ok.mp hrun
  cases hpure
  have hflat := (shuffle_perm _ _ (by omega) tape₁ trivial shuffled _ hshuffle).flatten
  rw [flatten_single] at hflat
  exact ⟨by rw [hflat.length_eq, hlength], (hchars.append hmore).of_perm hflat⟩

/-! ## How many draws give an index -/

/-- What the width of a draw is for: every index has bytes that stand for it. -/
theorem widthFrom_exact {limit fuel width : Nat} (hfuel : limit ≤ fuel + width)
    (hlow : width = 1 ∨ 256 ^ (width - 1) < limit) :
    ∃ w, widthFrom limit fuel width (256 ^ width) = w ∧ limit ≤ 256 ^ w ∧
      (w = 1 ∨ 256 ^ (w - 1) < limit) := by
  induction fuel generalizing width with
  | zero =>
    refine ⟨width, rfl, ?_, hlow⟩
    have hlt : width < 256 ^ width := Nat.lt_pow_self (by omega)
    omega
  | succ fuel ih =>
    unfold widthFrom
    by_cases hlt : 256 ^ width < limit
    · have hpow : Double.mul (256 ^ width) 256 = 256 ^ (width + 1) := by
        have hexact := Double.nat_two_pow (8 * (width + 1))
        rw [Nat.pow_mul] at hexact
        simpa [Double.mul, Double.nat, pow_succ] using hexact
      rw [if_pos hlt, hpow]
      exact ih (by omega) (.inr hlt)
    · rw [if_neg hlt]
      exact ⟨width, rfl, by omega, hlow⟩

theorem byteWidthFor_exact (limit : Nat) :
    limit ≤ 256 ^ byteWidthFor limit ∧ (byteWidthFor limit = 1 ∨ 256 ^ (byteWidthFor limit - 1) < limit) := by
  have hfuel : limit ≤ limit + 1 := Nat.le_succ limit
  obtain ⟨w, hw, hexact⟩ := widthFrom_exact hfuel (.inl rfl)
  rw [byteWidthFor, show widthFrom limit limit 1 256 = w from hw]
  exact hexact

theorem byteWidthFor_pos (limit : Nat) : 0 < byteWidthFor limit := by
  apply Nat.pos_of_ne_zero
  intro hzero
  have hexact := byteWidthFor_exact limit
  simp only [hzero] at hexact
  omega

theorem byteWidthFor_le {limit : Nat} (hmax : limit ≤ 2 ^ 48) : byteWidthFor limit ≤ 6 := by
  by_contra hwide
  rcases (byteWidthFor_exact limit).2 with hone | hlow
  · omega
  · have hpow : 256 ^ 6 ≤ 256 ^ (byteWidthFor limit - 1) := Nat.pow_le_pow_right (by omega) (by omega)
    omega

theorem valueOf_eq {bytes : List UInt8} (h : bytes.length ≤ 6) :
    valueOf bytes = Digits.value 256 (bytes.map UInt8.toNat) := by
  induction bytes using List.reverseRecOn with
  | nil => rfl
  | append_singleton bytes byte ih =>
    rw [List.length_append, List.length_singleton] at h
    have hdigits : ∀ d ∈ bytes.map UInt8.toNat, d < 256 := by
      intro d hd
      obtain ⟨b, -, rfl⟩ := List.mem_map.mp hd
      exact b.toNat_lt
    have hvalue := Digits.value_lt hdigits
    have hpow : 256 ^ (bytes.map UInt8.toNat).length ≤ 256 ^ 5 := Nat.pow_le_pow_right (by omega) (by simp; omega)
    have hbyte := byte.toNat_lt
    have hstep : valueOf (bytes ++ [byte]) = Double.add (Double.mul (valueOf bytes) 256) byte.toNat := by
      simp [valueOf]
    rw [hstep, ih (by omega), List.map_append, List.map_singleton, Digits.value_concat, Double.mul_of_lt (by omega),
      Double.add_of_lt (by omega)]

theorem ceilingFor_eq {limit : Nat} (h : 1 ≤ limit) (hmax : limit ≤ 2 ^ 48) :
    ceilingFor limit = 256 ^ byteWidthFor limit / limit * limit := by
  have hpow : 256 ^ byteWidthFor limit ≤ 256 ^ 6 := Nat.pow_le_pow_right (by omega) (byteWidthFor_le hmax)
  have hceiling := Nat.div_mul_le_self (256 ^ byteWidthFor limit) limit
  change Double.mul (Double.floorDiv (Double.nat (256 ^ byteWidthFor limit)) limit) limit = _
  rw [Double.nat_of_lt (by omega), Double.floorDiv_of_lt (by omega) h, Double.mul_of_lt (by omega)]

theorem rejecting_nil (limit fuel : Nat) : (rejecting limit fuel).run [] = (.error .starved, []) := by
  have hwide : ¬byteWidthFor limit ≤ 0 := Nat.not_le.mpr (byteWidthFor_pos limit)
  have hdraw : (draw (byteWidthFor limit)).run [] = (.error .starved, []) := if_neg hwide
  cases fuel with
  | zero => rfl
  | succ fuel => rw [rejecting, run_bind, hdraw]

/-- The bytes of one draw are accepted for `v`, whatever stands behind them on the tape. -/
def Accepts (limit v : Nat) (bytes : List UInt8) : Prop :=
  bytes.length = byteWidthFor limit ∧ ∀ more, (randomIndex limit).run (bytes ++ more) = (.ok v, more)

theorem run_randomIndex {limit : Nat} (h : 1 ≤ limit) {bytes : List UInt8}
    (hlen : bytes.length = byteWidthFor limit) (more : List UInt8) :
    (randomIndex limit).run (bytes ++ more) =
      if valueOf bytes < ceilingFor limit then (.ok (valueOf bytes % limit), more)
      else (rejecting limit (bytes ++ more).length).run more := by
  have hdraw : (draw (byteWidthFor limit)).run (bytes ++ more) = (.ok bytes, more) := by
    simp [Fallible.run, draw, ← hlen]
  have hloop : (randomIndex limit).run (bytes ++ more) =
      (rejecting limit ((bytes ++ more).length + 1)).run (bytes ++ more) := by
    unfold randomIndex
    rw [if_neg (by omega)]
    rfl
  rw [hloop, rejecting, run_bind, hdraw]
  by_cases hlt : valueOf bytes < ceilingFor limit
  · simp [hlt]
  · simp [hlt]

theorem accepts_iff {limit v : Nat} (h : 1 ≤ limit) {bytes : List UInt8} :
    Accepts limit v bytes ↔
      bytes.length = byteWidthFor limit ∧ valueOf bytes < ceilingFor limit ∧ valueOf bytes % limit = v := by
  apply and_congr_right
  intro hlen
  by_cases hlt : valueOf bytes < ceilingFor limit
  · simp [run_randomIndex h hlen, hlt]
  · simp only [hlt, false_and, iff_false]
    intro hrun
    have hnil := hrun []
    rw [run_randomIndex h hlen, if_neg hlt, rejecting_nil] at hnil
    cases hnil

theorem accepts_count {limit v : Nat} (h : 1 ≤ limit) (hmax : limit ≤ 2 ^ 48) (hv : v < limit) :
    Set.ncard {bytes | Accepts limit v bytes} = 256 ^ byteWidthFor limit / limit := by
  let numbers := (Finset.range (256 ^ byteWidthFor limit / limit * limit)).filter fun n => n ≡ v [MOD limit]
  have hset : {bytes | Accepts limit v bytes} =
      {bytes | bytes.length = byteWidthFor limit ∧ Digits.value 256 (bytes.map UInt8.toNat) ∈ numbers} := by
    ext bytes
    simp only [Set.mem_ofPred_eq]
    rw [accepts_iff h]
    apply and_congr_right
    intro hlen
    have hsix := byteWidthFor_le hmax
    rw [valueOf_eq (by omega), ceilingFor_eq h hmax, Finset.mem_filter, Finset.mem_range, Nat.ModEq,
      Nat.mod_eq_of_lt hv]
  have hbyte : ∀ i < 256, (UInt8.ofNat i).toNat = i := fun i hi => UInt8.toNat_ofNat_of_lt' hi
  rw [hset, Digits.ncard_words hbyte]
  · rw [← Nat.count_eq_card_filter_range, Nat.count_modEq_card _ h, Nat.mul_mod_left, if_neg (Nat.not_lt_zero _),
      Nat.mul_div_cancel _ h, Nat.add_zero]
  · exact fun b => ⟨b.toNat_lt, UInt8.ofNat_toNat⟩
  · intro n hn
    rw [Finset.mem_filter, Finset.mem_range] at hn
    have := Nat.div_mul_le_self (256 ^ byteWidthFor limit) limit
    omega
  · omega

/-- A password meets its settings, and no index is likelier in one draw than another. -/
theorem generator_exact :
    (∀ (options : PartialOptions) (tape rest : List UInt8) (password : List Char),
      (generatePassword options).run tape = (.ok password, rest) → Meets options.settings password) ∧
    ∀ limit : Nat, 1 ≤ limit → limit ≤ 2 ^ 48 →
      (∀ (tape rest : List UInt8) (i : Nat), (randomIndex limit).run tape = (.ok i, rest) → i < limit) ∧
      ∃ count > 0, ∀ v < limit, Set.ncard {bytes | Accepts limit v bytes} = count := by
  refine ⟨fun options tape rest password hrun => ?_, fun limit h hmax => ⟨fun tape rest i hrun => ?_, ?_⟩⟩
  · exact generatePassword_meets options tape trivial password rest hrun
  · have hlt := randomIndex_lt limit tape trivial i rest hrun
    omega
  · refine ⟨256 ^ byteWidthFor limit / limit, ?_, fun v hv => accepts_count h hmax hv⟩
    exact Nat.div_pos (byteWidthFor_exact limit).1 h

def short : PartialOptions := ⟨some 3, none, some false, none, some false⟩

/-- A letter, a digit after a byte that is rejected, one more of either, and two swaps. -/
theorem generator_exact_short :
    (generatePassword short).run [0, 255, 3, 35, 255, 0, 1, 9] = (.ok ['9', '3', 'a'], [9]) ∧
    Meets short.settings ['9', '3', 'a'] ∧
    (randomIndex 10).run [255, 3] = (.ok 3, []) ∧ 3 < 10 ∧
      ∃ count > 0, ∀ v < 10, Set.ncard {bytes | Accepts 10 v bytes} = count := by
  obtain ⟨hpassword, hindex⟩ := generator_exact
  obtain ⟨hlt, hcount⟩ := hindex 10 (by decide) (by decide)
  have hrun : (generatePassword short).run [0, 255, 3, 35, 255, 0, 1, 9] = (.ok ['9', '3', 'a'], [9]) := by
    decide +kernel
  have hdrawn : (randomIndex 10).run [255, 3] = (.ok 3, []) := by decide +kernel
  exact ⟨hrun, hpassword short _ _ _ hrun, hdrawn, hlt _ _ _ hdrawn, hcount⟩

end Keyhole.Vault
