import Keyhole.Vault.Keys
import Mathlib.Data.Bool.AllAny
import Mathlib.Data.List.Basic
import Mathlib.Logic.Relation

/-!
# A recovery code that has been written down

What a reader can do to a code without making it another one: the case of its
letters, its spaces and hyphens, and the letters that stand for its digits.
-/

namespace Keyhole.Vault

/-- One change to a code as it is copied. -/
inductive Edit : List Char → List Char → Prop
  | letterCase {c d : Char} (h : d = c.toUpper ∨ d = c.toLower) (s t : List Char) : Edit (s ++ c :: t) (s ++ d :: t)
  | inserted {d : Char} (h : d = ' ' ∨ d = '-') (s t : List Char) : Edit (s ++ t) (s ++ d :: t)
  | removed {d : Char} (h : d = ' ' ∨ d = '-') (s t : List Char) : Edit (s ++ d :: t) (s ++ t)
  | zero {d : Char} (h : d ∈ ['O', 'o']) (s t : List Char) : Edit (s ++ '0' :: t) (s ++ d :: t)
  | one {d : Char} (h : d ∈ ['I', 'i', 'L', 'l']) (s t : List Char) : Edit (s ++ '1' :: t) (s ++ d :: t)

def Transcribed (s t : String) : Prop := Relation.ReflTransGen Edit s.toList t.toList

def Ascii (cs : List Char) : Prop := ∀ c ∈ cs, c.toNat < 128

/-- `toUpperCase` of a text that is all ASCII. -/
def UpperAscii (toUpperCase : String → String) : Prop :=
  ∀ s : String, Ascii s.toList → (toUpperCase s).toList = s.toList.map Char.toUpper

/-! ## Letter by letter -/

def separates (c : Char) : Bool := isWhiteSpace c || c = '-'

def asRead (c : Char) : Char :=
  if c.toUpper = 'I' ∨ c.toUpper = 'L' then '1' else if c.toUpper = 'O' then '0' else c.toUpper

def readCode (cs : List Char) : List Char := (cs.filter fun c => !separates c).map asRead

theorem ascii_append {s t : List Char} : Ascii (s ++ t) ↔ Ascii s ∧ Ascii t := List.forall_mem_append

theorem ascii_cons {c : Char} {t : List Char} : Ascii (c :: t) ↔ c.toNat < 128 ∧ Ascii t := List.forall_mem_cons

theorem readCode_append (s t : List Char) : readCode (s ++ t) = readCode s ++ readCode t := by
  simp [readCode]

theorem readCode_cons (c : Char) (t : List Char) :
    readCode (c :: t) = (if separates c then [] else [asRead c]) ++ readCode t := by
  by_cases h : separates c = true
  · simp [readCode, h]
  · simp [readCode, h]

theorem forall_ascii {p : Char → Prop} (h : ∀ n < 128, p (Char.ofNat n)) {c : Char} (hc : c.toNat < 128) : p c := by
  rw [← Char.ofNat_toNat c]
  exact h c.toNat hc

theorem separates_upper {c : Char} (hc : c.toNat < 128) : separates c.toUpper = separates c :=
  forall_ascii (p := fun c => separates c.toUpper = separates c) (by decide +kernel) hc

theorem ascii_case {c : Char} (hc : c.toNat < 128) : c.toUpper.toNat < 128 ∧ c.toLower.toNat < 128 :=
  forall_ascii (p := fun c => c.toUpper.toNat < 128 ∧ c.toLower.toNat < 128) (by decide +kernel) hc

theorem read_case {c d : Char} (h : d = c.toUpper ∨ d = c.toLower) (hc : c.toNat < 128) :
    separates d = separates c ∧ asRead d = asRead c := by
  have hboth := forall_ascii (p := fun c => (separates c.toUpper = separates c ∧ asRead c.toUpper = asRead c) ∧
    (separates c.toLower = separates c ∧ asRead c.toLower = asRead c)) (by decide +kernel) hc
  rcases h with rfl | rfl
  · exact hboth.1
  · exact hboth.2

/-! ## Edits -/

theorem swap_same {c d : Char} {s t : List Char} (hs : Ascii (s ++ c :: t)) (hd : d.toNat < 128)
    (hsep : separates d = separates c) (hread : asRead d = asRead c) :
    Ascii (s ++ d :: t) ∧ readCode (s ++ d :: t) = readCode (s ++ c :: t) := by
  rw [ascii_append, ascii_cons] at hs
  rw [ascii_append, ascii_cons, readCode_append, readCode_append, readCode_cons, readCode_cons, hsep, hread]
  exact ⟨⟨hs.1, hd, hs.2.2⟩, rfl⟩

theorem edit_same {s t : List Char} (h : Edit s t) (hs : Ascii s) : Ascii t ∧ readCode t = readCode s := by
  cases h with
  | letterCase h s t =>
    have hc := (ascii_cons.mp (ascii_append.mp hs).2).1
    obtain ⟨hsep, hread⟩ := read_case h hc
    have hd := ascii_case hc
    refine swap_same hs ?_ hsep hread
    rcases h with rfl | rfl
    · exact hd.1
    · exact hd.2
  | inserted h s t =>
    rw [ascii_append] at hs
    rw [ascii_append, ascii_cons, readCode_append, readCode_append, readCode_cons]
    rcases h with rfl | rfl
    · exact ⟨⟨hs.1, by decide, hs.2⟩, rfl⟩
    · exact ⟨⟨hs.1, by decide, hs.2⟩, rfl⟩
  | removed h s t =>
    rw [ascii_append, ascii_cons] at hs
    rw [ascii_append, readCode_append, readCode_append, readCode_cons]
    rcases h with rfl | rfl
    · exact ⟨⟨hs.1, hs.2.2⟩, rfl⟩
    · exact ⟨⟨hs.1, hs.2.2⟩, rfl⟩
  | zero h s t =>
    have hletters : ∀ d ∈ ['O', 'o'], d.toNat < 128 ∧ separates d = separates '0' ∧ asRead d = asRead '0' :=
      List.all_iff_forall_prop.mp (by decide)
    obtain ⟨hd, hsep, hread⟩ := hletters _ h
    exact swap_same hs hd hsep hread
  | one h s t =>
    have hletters : ∀ d ∈ ['I', 'i', 'L', 'l'],
        d.toNat < 128 ∧ separates d = separates '1' ∧ asRead d = asRead '1' :=
      List.all_iff_forall_prop.mp (by decide)
    obtain ⟨hd, hsep, hread⟩ := hletters _ h
    exact swap_same hs hd hsep hread

theorem transcribed_same {s t : List Char} (h : Relation.ReflTransGen Edit s t) (hs : Ascii s) :
    Ascii t ∧ readCode t = readCode s := by
  induction h with
  | refl => exact ⟨hs, rfl⟩
  | tail _ h ih =>
    obtain ⟨ht, hread⟩ := edit_same h ih.1
    exact ⟨ht, hread.trans ih.2⟩

/-! ## The canonical code -/

section
variable {K : Type} {D : Kdf K}

theorem normalizeCrockford_eq (hupper : UpperAscii D.toUpperCase) {s : String} (hs : Ascii s.toList) :
    normalizeCrockford D s = readCode s.toList := by
  have hread : ∀ c : Char, asRead c = (fun c => if c = 'O' then '0' else c)
      ((fun c => if c = 'I' || c = 'L' then '1' else c) c.toUpper) := by
    intro c
    by_cases hone : c.toUpper = 'I' ∨ c.toUpper = 'L'
    · simp [asRead, hone]
    · simp [asRead, hone]
  have hfilter : ∀ cs : List Char, Ascii cs → (cs.map Char.toUpper).filter (fun c => !separates c) =
      (cs.filter fun c => !separates c).map Char.toUpper := by
    intro cs hcs
    induction cs with
    | nil => rfl
    | cons c cs ih =>
      rw [ascii_cons] at hcs
      rw [List.map_cons, List.filter_cons, List.filter_cons, separates_upper hcs.1, ih hcs.2]
      by_cases h : separates c = true
      · simp [h]
      · simp [h]
  change (((D.toUpperCase s).toList.filter fun c => !separates c).map _).map _ = _
  rw [hupper s hs, hfilter s.toList hs, List.map_map, List.map_map, readCode]
  exact List.map_congr_left fun c _ => (hread c).symm

/-! ## Groups -/

theorem flatMap_groups (text : List Char) (size k : Nat) :
    ((List.range k).flatMap fun i => (text.drop (i * size)).take size) = text.take (k * size) := by
  induction k with
  | zero => simp
  | succ k ih =>
    rw [List.range_succ, List.flatMap_append, ih, List.flatMap_singleton, Nat.succ_mul, List.take_add]

theorem readCode_intercalate (groups : List (List Char)) :
    readCode (['-'].intercalate groups) = groups.flatMap readCode := by
  induction groups with
  | nil => rfl
  | cons g groups ih =>
    cases groups with
    | nil => simp [List.intercalate_singleton]
    | cons g' groups =>
      have hyphen : readCode ['-'] = [] := by decide
      rw [List.intercalate_cons_cons, readCode_append, readCode_append, hyphen, List.append_nil, ih,
        ← List.flatMap_cons]

theorem toList_groupChars (text : List Char) (size : Nat) : (groupChars text size).toList =
    ['-'].intercalate
      ((List.range ((text.length + size - 1) / size)).map fun i => (text.drop (i * size)).take size) := by
  unfold groupChars
  rw [String.toList_intercalate, List.map_map]
  congr 1
  exact List.map_congr_left fun i _ => String.toList_ofList

theorem readCode_groupChars (text : List Char) {size : Nat} (hsize : 0 < size) :
    readCode (groupChars text size).toList = readCode text := by
  have hread : ∀ groups : List (List Char), groups.flatMap readCode = readCode groups.flatten := by
    intro groups
    induction groups with
    | nil => rfl
    | cons g groups ih => rw [List.flatMap_cons, List.flatten_cons, readCode_append, ih]
  have hall : text.length ≤ (text.length + size - 1) / size * size := by
    have h := Nat.div_add_mod (text.length + size - 1) size
    have hmod := Nat.mod_lt (text.length + size - 1) hsize
    rw [Nat.mul_comm] at h
    omega
  rw [toList_groupChars, readCode_intercalate, hread, ← List.flatMap_def, flatMap_groups,
    List.take_of_length_le hall]

theorem ascii_groupChars {text : List Char} (h : Ascii text) (size : Nat) :
    Ascii (groupChars text size).toList := by
  have hall : ∀ groups : List (List Char), (∀ g ∈ groups, Ascii g) → Ascii (['-'].intercalate groups) := by
    intro groups hgroups
    induction groups with
    | nil => exact fun c hc => absurd hc List.not_mem_nil
    | cons g groups ih =>
      rw [List.forall_mem_cons] at hgroups
      cases groups with
      | nil => simpa using hgroups.1
      | cons g' groups =>
        rw [List.intercalate_cons_cons, ascii_append, ascii_append]
        refine ⟨⟨hgroups.1, ?_⟩, ih hgroups.2⟩
        intro c hc
        rw [List.mem_singleton.mp hc]
        decide
  rw [toList_groupChars]
  apply hall
  intro g hg
  obtain ⟨i, -, rfl⟩ := List.mem_map.mp hg
  exact fun c hc => h c (List.mem_of_mem_drop (List.mem_of_mem_take hc))

/-! ## The alphabet -/

theorem alphabet_read : ∀ c ∈ crockfordAlphabet.toList, c.toNat < 128 ∧ separates c = false ∧ asRead c = c :=
  List.all_iff_forall_prop.mp (by decide +kernel)

theorem readCode_alphabet {cs : List Char} (h : ∀ c ∈ cs, c ∈ crockfordAlphabet.toList) : readCode cs = cs := by
  induction cs with
  | nil => rfl
  | cons c cs ih =>
    rw [List.forall_mem_cons] at h
    obtain ⟨-, hsep, hread⟩ := alphabet_read c h.1
    rw [readCode_cons, hsep, hread, ih h.2]
    rfl

theorem ascii_alphabet {cs : List Char} (h : ∀ c ∈ cs, c ∈ crockfordAlphabet.toList) : Ascii cs :=
  fun c hc => (alphabet_read c (h c hc)).1

theorem encodeCrockford_alphabet (bytes : List UInt8) :
    ∀ c ∈ encodeCrockford bytes, c ∈ crockfordAlphabet.toList := by
  intro c hc
  obtain ⟨byte, -, rfl⟩ := List.mem_map.mp hc
  have hlt : (byte &&& 0x1f).toNat < 32 := by
    rw [UInt8.toNat_and]
    exact Nat.lt_of_le_of_lt Nat.and_le_right (by decide)
  have hall : ∀ i < 32, crockfordAlphabet.toList.getD i '0' ∈ crockfordAlphabet.toList := by decide +kernel
  exact hall _ hlt

theorem normalize_eq (hupper : UpperAscii D.toUpperCase) {s : String} (hs : Ascii s.toList) {cs : List Char}
    (hread : readCode s.toList = cs) (hlen : cs.length = codeLength)
    (hall : ∀ c ∈ cs, c ∈ crockfordAlphabet.toList) :
    normalizeRecoveryCode D s = some (String.ofList cs) := by
  unfold normalizeRecoveryCode
  rw [normalizeCrockford_eq hupper hs, hread]
  simp only [hlen, ne_eq, not_true, if_false]
  rw [if_pos (by simpa using hall)]

theorem normalize_spec {input code : String} (h : normalizeRecoveryCode D input = some code) :
    code.toList.length = codeLength ∧ ∀ c ∈ code.toList, c ∈ crockfordAlphabet.toList := by
  unfold normalizeRecoveryCode at h
  simp only at h
  by_cases hlen : (normalizeCrockford D input).length = codeLength
  · rw [if_neg (not_not.mpr hlen)] at h
    by_cases hall : (normalizeCrockford D input).all (· ∈ crockfordAlphabet.toList) = true
    · rw [if_pos hall] at h
      cases h
      rw [String.toList_ofList]
      exact ⟨hlen, by simpa using hall⟩
    · rw [if_neg hall] at h
      cases h
  · rw [if_pos hlen] at h
    cases h

theorem normalize_grouped (hupper : UpperAscii D.toUpperCase) {cs : List Char} (hlen : cs.length = codeLength)
    (hall : ∀ c ∈ cs, c ∈ crockfordAlphabet.toList) {t : String}
    (ht : Transcribed (groupChars cs groupSize) t) : normalizeRecoveryCode D t = some (String.ofList cs) := by
  obtain ⟨hascii, hread⟩ := transcribed_same ht (ascii_groupChars (ascii_alphabet hall) groupSize)
  rw [readCode_groupChars cs (by decide), readCode_alphabet hall] at hread
  exact normalize_eq hupper hascii hread hlen hall

end

/-- A code is accepted however it was copied, and shown again it is the same code. -/
structure CodesSurvive {K : Type} (D : Kdf K) : Prop where
  transcribed : ∀ bytes t, bytes.length = codeLength → Transcribed (generateRecoveryCode bytes) t →
    (normalizeRecoveryCode D t).isSome = true ∧
      normalizeRecoveryCode D t = normalizeRecoveryCode D (generateRecoveryCode bytes)
  grouped : ∀ input code, normalizeRecoveryCode D input = some code →
    normalizeRecoveryCode D (groupChars code.toList groupSize) = some code
  distinct : ∀ bytes bytes', bytes.length = codeLength → bytes'.length = codeLength →
    generateRecoveryCode bytes ≠ generateRecoveryCode bytes' →
    normalizeRecoveryCode D (generateRecoveryCode bytes) ≠ normalizeRecoveryCode D (generateRecoveryCode bytes')

theorem codes_survive {K : Type} (D : Kdf K) (hupper : UpperAscii D.toUpperCase) : CodesSurvive D := by
  have hcode : ∀ bytes t, bytes.length = codeLength → Transcribed (generateRecoveryCode bytes) t →
      normalizeRecoveryCode D t = some (String.ofList (encodeCrockford bytes)) := by
    intro bytes t hlen ht
    exact normalize_grouped hupper (by rw [encodeCrockford, List.length_map, hlen])
      (encodeCrockford_alphabet bytes) ht
  refine ⟨fun bytes t hlen ht => ?_, fun input code h => ?_, fun bytes bytes' hlen hlen' hne h => ?_⟩
  · rw [hcode bytes t hlen ht, hcode bytes _ hlen .refl]
    exact ⟨rfl, rfl⟩
  · obtain ⟨hlen, hall⟩ := normalize_spec h
    have hsame := normalize_grouped hupper hlen hall .refl
    rwa [String.ofList_toList] at hsame
  · rw [hcode bytes _ hlen .refl, hcode bytes' _ hlen' .refl, Option.some.injEq, String.ofList_inj] at h
    apply hne
    unfold generateRecoveryCode
    rw [h]

def asciiKdf :
    Kdf (List Char) := { symbolicKdf with toUpperCase := fun s => String.ofList (s.toList.map Char.toUpper) }

theorem codes_survive_ascii : CodesSurvive asciiKdf := codes_survive asciiKdf fun _ _ => String.toList_ofList

end Keyhole.Vault
