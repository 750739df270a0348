import Mathlib.Data.List.Basic

/-!
# Encodings of Unicode text

A text is a list of scalar values. UTF-8 is read by the decoder of the
Encoding Standard, which answers an ill-formed sequence with an error for each
maximal part of it and goes on; UTF-16 by pairing surrogates.
-/

namespace Unicode

/-! ## UTF-8 -/

def utf8Char (c : Char) : List UInt8 :=
  let n := c.toNat
  if n < 0x80 then [.ofNat n]
  else if n < 0x800 then [.ofNat (0xC0 + n / 64), .ofNat (0x80 + n % 64)]
  else if n < 0x10000 then [.ofNat (0xE0 + n / 4096), .ofNat (0x80 + n / 64 % 64), .ofNat (0x80 + n % 64)]
  else [.ofNat (0xF0 + n / 262144), .ofNat (0x80 + n / 4096 % 64), .ofNat (0x80 + n / 64 % 64),
    .ofNat (0x80 + n % 64)]

def utf8 (cs : List Char) : List UInt8 := cs.flatMap utf8Char

/-- `needed` bytes of the character are still to come, the next of them between `lower` and `upper`. -/
structure Decoder where
  codePoint : Nat
  needed : Nat
  lower : Nat
  upper : Nat
  deriving DecidableEq, Repr

def Decoder.start : Decoder := ⟨0, 0, 0x80, 0xBF⟩

/-- The first byte of a character; `none` is an error. -/
def Decoder.lead (n : Nat) : Decoder × List (Option Char) :=
  if n < 0x80 then (start, [some (Char.ofNat n)])
  else if 0xC2 ≤ n ∧ n ≤ 0xDF then (⟨n - 0xC0, 1, 0x80, 0xBF⟩, [])
  else if 0xE0 ≤ n ∧ n ≤ 0xEF then
    (⟨n - 0xE0, 2, if n = 0xE0 then 0xA0 else 0x80, if n = 0xED then 0x9F else 0xBF⟩, [])
  else if 0xF0 ≤ n ∧ n ≤ 0xF4 then
    (⟨n - 0xF0, 3, if n = 0xF0 then 0x90 else 0x80, if n = 0xF4 then 0x8F else 0xBF⟩, [])
  else (start, [none])

/-- A byte that does not continue the character begins the next one. -/
def Decoder.step (d : Decoder) (b : UInt8) : Decoder × List (Option Char) :=
  let n := b.toNat
  if d.needed = 0 then lead n
  else if n < d.lower ∨ d.upper < n then ((lead n).1, none :: (lead n).2)
  else if d.needed = 1 then (start, [some (Char.ofNat (d.codePoint * 64 + n % 64))])
  else (⟨d.codePoint * 64 + n % 64, d.needed - 1, 0x80, 0xBF⟩, [])

def Decoder.run (d : Decoder) : List UInt8 → List (Option Char)
  | [] => if d.needed = 0 then [] else [none]
  | b :: bs => (d.step b).2 ++ (d.step b).1.run bs

def replacement : Char := '\uFFFD'

def byteOrderMark : Char := '\uFEFF'

def withoutBom : List Char → List Char
  | c :: cs => if c = byteOrderMark then cs else c :: cs
  | [] => []

/-- Every error is a replacement character. -/
def lossy (bs : List UInt8) : List Char := (Decoder.start.run bs).map (·.getD replacement)

/-- The first error ends the decoding. -/
def fatal (bs : List UInt8) : Option (List Char) := (Decoder.start.run bs).mapM id

/-! ## What is encoded is read back -/

theorem toNat_lt (c : Char) : c.toNat < 0xD800 ∨ 0xDFFF < c.toNat ∧ c.toNat < 0x110000 := by
  have h := c.valid
  rw [UInt32.isValidChar, Nat.isValidChar] at h
  change c.toNat < 0xD800 ∨ _ at h
  exact h

theorem run_lead {n : Nat} (h : n < 256) (bs : List UInt8) :
    Decoder.start.run (.ofNat n :: bs) = (Decoder.lead n).2 ++ (Decoder.lead n).1.run bs := by
  rw [Decoder.run, Decoder.step]
  simp [Decoder.start, UInt8.toNat_ofNat', Nat.mod_eq_of_lt h]

theorem run_continue {d : Decoder} {n : Nat} (hd : d.needed ≠ 0) (h : n < 256) (hl : d.lower ≤ n)
    (hu : n ≤ d.upper) (bs : List UInt8) : d.run (.ofNat n :: bs) =
      if d.needed = 1 then some (Char.ofNat (d.codePoint * 64 + n % 64)) :: Decoder.start.run bs
      else (Decoder.mk (d.codePoint * 64 + n % 64) (d.needed - 1) 0x80 0xBF).run bs := by
  have hin : ¬ (n < d.lower ∨ d.upper < n) := by omega
  rw [Decoder.run, Decoder.step]
  simp only [UInt8.toNat_ofNat', Nat.mod_eq_of_lt h, if_neg hd, if_neg hin]
  split <;> rfl

theorem run_utf8Char (c : Char) (bs : List UInt8) :
    Decoder.start.run (utf8Char c ++ bs) = some c :: Decoder.start.run bs := by
  have hc := toNat_lt c
  have hof : Char.ofNat c.toNat = c := Char.ofNat_toNat c
  unfold utf8Char
  generalize c.toNat = n at hc hof
  simp only
  by_cases h₁ : n < 0x80
  · rw [if_pos h₁, List.cons_append, List.nil_append, run_lead (by omega), Decoder.lead, if_pos h₁, hof]
    rfl
  rw [if_neg h₁]
  by_cases h₂ : n < 0x800
  · have hlead : Decoder.lead (0xC0 + n / 64) = (⟨n / 64, 1, 0x80, 0xBF⟩, []) := by
      rw [Decoder.lead, if_neg (by omega), if_pos (by omega), Nat.add_sub_cancel_left]
    rw [if_pos h₂, List.cons_append, run_lead (by omega), hlead, List.cons_append, List.nil_append, List.nil_append,
      run_continue (by simp) (by omega) (by simp) (by simp; omega), if_pos rfl]
    rw [show n / 64 * 64 + (0x80 + n % 64) % 64 = n by omega, hof]
  rw [if_neg h₂]
  by_cases h₃ : n < 0x10000
  · have hlead : Decoder.lead (0xE0 + n / 4096) = (⟨n / 4096, 2, if n / 4096 = 0 then 0xA0 else 0x80,
        if n / 4096 = 13 then 0x9F else 0xBF⟩, []) := by
      rw [Decoder.lead, if_neg (by omega), if_neg (by omega), if_pos (by omega), Nat.add_sub_cancel_left]
      simp only [show (0xE0 + n / 4096 = 0xE0) = (n / 4096 = 0) by simp,
        show (0xE0 + n / 4096 = 0xED) = (n / 4096 = 13) by simp; omega]
    rw [if_pos h₃, List.cons_append, run_lead (by omega), hlead, List.cons_append, List.cons_append,
      List.nil_append,
      List.nil_append, run_continue (by simp) (by omega) (by simp; split <;> omega) (by simp; split <;> omega)]
    simp only [show ¬ 2 = 1 by decide, if_false]
    rw [run_continue (by simp) (by omega) (by simp) (by simp; omega), if_pos rfl]
    rw [show (n / 4096 * 64 + (0x80 + n / 64 % 64) % 64) * 64 + (0x80 + n % 64) % 64 = n by omega, hof]
  · rw [if_neg h₃]
    have hlead : Decoder.lead (0xF0 + n / 262144) = (⟨n / 262144, 3, if n / 262144 = 0 then 0x90 else 0x80,
        if n / 262144 = 4 then 0x8F else 0xBF⟩, []) := by
      rw [Decoder.lead, if_neg (by omega), if_neg (by omega), if_neg (by omega), if_pos (by omega),
        Nat.add_sub_cancel_left]
      simp only [show (0xF0 + n / 262144 = 0xF0) = (n / 262144 = 0) by simp,
        show (0xF0 + n / 262144 = 0xF4) = (n / 262144 = 4) by simp; omega]
    rw [List.cons_append, run_lead (by omega), hlead, List.cons_append, List.cons_append, List.cons_append,
      List.nil_append, List.nil_append, run_continue
        (by simp) (by omega) (by simp; split <;> omega) (by simp; split <;> omega)]
    simp only [show ¬ 3 = 1 by decide, if_false]
    rw [run_continue (by simp) (by omega) (by simp) (by simp; omega)]
    simp only [show ¬ 3 - 1 = 1 by decide, if_false]
    rw [run_continue (by simp) (by omega) (by simp) (by simp; omega), if_pos rfl]
    rw [show ((n / 262144 * 64 + (0x80 + n / 4096 % 64) % 64) * 64 + (0x80 + n / 64 % 64) % 64) * 64 +
      (0x80 + n % 64) % 64 = n by omega, hof]

theorem run_utf8 (cs : List Char) (bs : List UInt8) :
    Decoder.start.run (utf8 cs ++ bs) = cs.map some ++ Decoder.start.run bs := by
  induction cs with
  | nil => rfl
  | cons c cs ih =>
    rw [utf8, List.flatMap_cons, List.append_assoc, run_utf8Char]
    exact congrArg (some c :: ·) ih

/-! ## What is read without an error is what was encoded -/

theorem toNat_ofNat {n : Nat} (h : n < 0xD800 ∨ 0xDFFF < n ∧ n < 0x110000) : (Char.ofNat n).toNat = n := by
  have hv : n.isValidChar := h
  rw [Char.ofNat, dif_pos hv]
  rfl

theorem byte_eq {b : UInt8} {n : Nat} (h : n = b.toNat) : UInt8.ofNat n = b := by
  rw [h]
  exact UInt8.ofNat_toNat

theorem run_inside {d : Decoder} {bs : List UInt8} (h : none ∉ d.run bs) (hd : d.needed ≠ 0) :
    ∃ b bs', bs = b :: bs' ∧ d.lower ≤ b.toNat ∧ b.toNat ≤ d.upper ∧
      (d.needed ≠ 1 → none ∉ (Decoder.mk (d.codePoint * 64 + b.toNat % 64) (d.needed - 1) 0x80 0xBF).run
        bs') := by
  cases bs with
  | nil =>
    rw [Decoder.run, if_neg hd] at h
    simp at h
  | cons b bs =>
    by_cases hout : b.toNat < d.lower ∨ d.upper < b.toNat
    · rw [Decoder.run, Decoder.step, if_neg hd, if_pos hout] at h
      simp at h
    · refine ⟨b, bs, rfl, by omega, by omega, fun h1 => ?_⟩
      rw [Decoder.run, Decoder.step, if_neg hd, if_neg hout, if_neg h1] at h
      exact h

theorem run_char {b : UInt8} {bs : List UInt8} (h : none ∉ Decoder.start.run (b :: bs)) :
    ∃ c rest, b :: bs = utf8Char c ++ rest := by
  have hb : b.toNat < 256 := b.toNat_lt
  have hrun : Decoder.start.run (b :: bs) = (Decoder.lead b.toNat).2 ++ (Decoder.lead b.toNat).1.run bs := rfl
  rw [hrun] at h
  unfold Decoder.lead at h
  generalize hn : b.toNat = n at hb h
  by_cases h₁ : n < 0x80
  · refine ⟨Char.ofNat n, bs, ?_⟩
    rw [utf8Char, toNat_ofNat (by omega), if_pos h₁, byte_eq hn.symm]
    rfl
  rw [if_neg h₁] at h
  by_cases h₂ : 0xC2 ≤ n ∧ n ≤ 0xDF
  · rw [if_pos h₂] at h
    obtain ⟨b₁, bs₁, rfl, hl₁, hu₁, -⟩ := run_inside h (by simp)
    simp only at hl₁ hu₁
    refine ⟨Char.ofNat ((n - 0xC0) * 64 + b₁.toNat % 64), bs₁, ?_⟩
    rw [utf8Char, toNat_ofNat (by omega), if_neg (by omega), if_pos (by omega), @byte_eq b _ (by omega),
      @byte_eq b₁ _ (by omega)]
    rfl
  rw [if_neg h₂] at h
  by_cases h₃ : 0xE0 ≤ n ∧ n ≤ 0xEF
  · rw [if_pos h₃] at h
    obtain ⟨b₁, bs₁, rfl, hl₁, hu₁, h⟩ := run_inside h (by simp)
    obtain ⟨b₂, bs₂, rfl, hl₂, hu₂, -⟩ := run_inside (h (by simp)) (by simp)
    simp only at hl₁ hu₁ hl₂ hu₂
    have hlow : n = 0xE0 → 0xA0 ≤ b₁.toNat := fun he => by simpa [he] using hl₁
    have hhigh : n = 0xED → b₁.toNat ≤ 0x9F := fun he => by simpa [he] using hu₁
    have hl : 0x80 ≤ b₁.toNat := by split at hl₁ <;> omega
    have hu : b₁.toNat ≤ 0xBF := by split at hu₁ <;> omega
    refine ⟨Char.ofNat (((n - 0xE0) * 64 + b₁.toNat % 64) * 64 + b₂.toNat % 64), bs₂, ?_⟩
    rw [utf8Char, toNat_ofNat (by omega), if_neg (by omega), if_neg (by omega), if_pos (by omega),
      @byte_eq b _ (by omega),
      @byte_eq b₁ _ (by omega), @byte_eq b₂ _ (by omega)]
    rfl
  rw [if_neg h₃] at h
  by_cases h₄ : 0xF0 ≤ n ∧ n ≤ 0xF4
  · rw [if_pos h₄] at h
    obtain ⟨b₁, bs₁, rfl, hl₁, hu₁, h⟩ := run_inside h (by simp)
    obtain ⟨b₂, bs₂, rfl, hl₂, hu₂, h⟩ := run_inside (h (by simp)) (by simp)
    obtain ⟨b₃, bs₃, rfl, hl₃, hu₃, -⟩ := run_inside (h (by simp)) (by simp)
    simp only at hl₁ hu₁ hl₂ hu₂ hl₃ hu₃
    have hlow : n = 0xF0 → 0x90 ≤ b₁.toNat := fun he => by simpa [he] using hl₁
    have hhigh : n = 0xF4 → b₁.toNat ≤ 0x8F := fun he => by simpa [he] using hu₁
    have hl : 0x80 ≤ b₁.toNat := by split at hl₁ <;> omega
    have hu : b₁.toNat ≤ 0xBF := by split at hu₁ <;> omega
    refine ⟨Char.ofNat ((((n - 0xF0) * 64 + b₁.toNat % 64) * 64 + b₂.toNat % 64) * 64 + b₃.toNat % 64),
      bs₃, ?_⟩
    rw [utf8Char, toNat_ofNat (by omega), if_neg (by omega), if_neg (by omega), if_neg (by omega),
      @byte_eq b _ (by omega),
      @byte_eq b₁ _ (by omega), @byte_eq b₂ _ (by omega), @byte_eq b₃ _ (by omega)]
    rfl
  · rw [if_neg h₄] at h
    simp at h

theorem utf8_of_run {bs : List UInt8} (h : none ∉ Decoder.start.run bs) : ∃ cs, bs = utf8 cs := by
  induction hn : bs.length using Nat.strongRecOn generalizing bs with
  | _ n ih =>
    cases bs with
    | nil => exact ⟨[], rfl⟩
    | cons b bs =>
      obtain ⟨c, rest, hbs⟩ := run_char h
      rw [hbs, run_utf8Char, List.mem_cons, not_or] at h
      have hlen : rest.length < n := by
        have hpos : 0 < (utf8Char c).length := by
          unfold utf8Char
          simp only
          split <;> [skip; split <;> [skip; split]] <;> simp
        have := congrArg List.length hbs
        rw [List.length_append] at this
        omega
      obtain ⟨cs, rfl⟩ := ih _ hlen h.2 rfl
      exact ⟨c :: cs, hbs⟩

theorem mapM_id_eq_some {α : Type} {os : List (Option α)} {as : List α} :
    os.mapM id = some as ↔ os = as.map some := by
  induction os generalizing as with
  | nil => cases as <;> simp
  | cons o os ih =>
    rw [List.mapM_cons]
    cases o with
    | none => cases as <;> simp
    | some a =>
      cases as with
      | nil => cases h : os.mapM id <;> simp
      | cons b as =>
        cases h : os.mapM id with
        | none =>
          have hne : os ≠ as.map some := fun he => by simp [ih.mpr he] at h
          simp [hne]
        | some cs =>
          have he : cs = as ↔ os = as.map some := by rw [← ih, h, Option.some.injEq]
          simp [he]

theorem run_utf8_nil (cs : List Char) : Decoder.start.run (utf8 cs) = cs.map some := by
  have h := run_utf8 cs []
  rwa [List.append_nil, show Decoder.start.run [] = [] from rfl, List.append_nil] at h

theorem fatal_iff {bs : List UInt8} {cs : List Char} : fatal bs = some cs ↔ bs = utf8 cs := by
  unfold fatal
  rw [mapM_id_eq_some]
  constructor
  · intro h
    obtain ⟨ds, rfl⟩ := @utf8_of_run bs (by simp [h])
    rw [run_utf8_nil] at h
    rw [List.map_injective_iff.mpr (fun _ _ => Option.some.inj) h]
  · rintro rfl
    exact run_utf8_nil cs

@[simp] theorem fatal_utf8 (cs : List Char) : fatal (utf8 cs) = some cs := fatal_iff.mpr rfl

@[simp] theorem lossy_utf8 (cs : List Char) : lossy (utf8 cs) = cs := by
  unfold lossy
  rw [run_utf8_nil, List.map_map]
  exact List.map_id cs

/-- What is not well formed leaves its mark. -/
theorem replacement_mem_lossy {bs : List UInt8} (h : ∀ cs, bs ≠ utf8 cs) : replacement ∈ lossy bs := by
  have hm : none ∈ Decoder.start.run bs := by
    by_contra hm
    obtain ⟨cs, hcs⟩ := utf8_of_run hm
    exact h cs hcs
  exact List.mem_map.mpr ⟨none, hm, rfl⟩

theorem mem_withoutBom {c : Char} {cs : List Char} (h : c ∈ cs) (hc : c ≠ byteOrderMark) : c ∈ withoutBom cs := by
  cases cs with
  | nil => cases h
  | cons d cs =>
    by_cases hd : d = byteOrderMark
    · rw [withoutBom, if_pos hd]
      exact List.mem_of_ne_of_mem (hd ▸ hc) h
    · rw [withoutBom, if_neg hd]
      exact h

/-! ## UTF-16 -/

def utf16Char (c : Char) : List UInt16 :=
  let n := c.toNat
  if n < 0x10000 then [.ofNat n]
    else [.ofNat (0xD800 + (n - 0x10000) / 1024), .ofNat (0xDC00 + (n - 0x10000) % 1024)]

def utf16 (cs : List Char) : List UInt16 := cs.flatMap utf16Char

def isHigh (u : UInt16) : Bool := 0xD800 ≤ u.toNat && u.toNat ≤ 0xDBFF

def isLow (u : UInt16) : Bool := 0xDC00 ≤ u.toNat && u.toNat ≤ 0xDFFF

def single (u : UInt16) : Char := if isHigh u || isLow u then replacement else Char.ofNat u.toNat

def pair (u v : UInt16) : Char := Char.ofNat (0x10000 + (u.toNat - 0xD800) * 1024 + (v.toNat - 0xDC00))

/-- A surrogate on its own is a replacement character. -/
def scalars : List UInt16 → List Char
  | [] => []
  | [u] => [single u]
  | u :: v :: t => if isHigh u && isLow v then pair u v :: scalars t else single u :: scalars (v :: t)

theorem scalars_utf16Char (c : Char) (t : List UInt16) : scalars (utf16Char c ++ t) = c :: scalars t := by
  have hc := toNat_lt c
  have hof : Char.ofNat c.toNat = c := Char.ofNat_toNat c
  unfold utf16Char
  generalize c.toNat = n at hc hof
  simp only
  by_cases h : n < 0x10000
  · have hu : (UInt16.ofNat n).toNat = n := by simp [UInt16.toNat_ofNat', Nat.mod_eq_of_lt h]
    have hhigh : isHigh (.ofNat n) = false := by simp [isHigh, hu]; omega
    have hlow : isLow (.ofNat n) = false := by simp [isLow, hu]; omega
    have hsingle : single (.ofNat n) = c := by
      rw [single, hhigh, hlow, hu, if_neg (by simp), hof]
    rw [if_pos h, List.cons_append, List.nil_append]
    cases t with
    | nil => simp [scalars, hsingle]
    | cons v t => simp [scalars, hhigh, hsingle]
  · have hu : (UInt16.ofNat (0xD800 + (n - 0x10000) / 1024)).toNat = 0xD800 + (n - 0x10000) / 1024 := by
      rw [UInt16.toNat_ofNat', Nat.mod_eq_of_lt (by omega)]
    have hv : (UInt16.ofNat (0xDC00 + (n - 0x10000) % 1024)).toNat = 0xDC00 + (n - 0x10000) % 1024 := by
      rw [UInt16.toNat_ofNat', Nat.mod_eq_of_lt (by omega)]
    have hhigh : isHigh (.ofNat (0xD800 + (n - 0x10000) / 1024)) = true := by
      simp only [isHigh, hu, Bool.and_eq_true, decide_eq_true_eq]
      omega
    have hlow : isLow (.ofNat (0xDC00 + (n - 0x10000) % 1024)) = true := by
      simp only [isLow, hv, Bool.and_eq_true, decide_eq_true_eq]
      omega
    rw [if_neg h, List.cons_append, List.cons_append, List.nil_append, scalars, hhigh, hlow, Bool.and_self,
      if_pos rfl, pair, hu, hv]
    rw [show 0x10000 + (0xD800 + (n - 0x10000) / 1024 - 0xD800) * 1024
      + (0xDC00 + (n - 0x10000) % 1024 - 0xDC00) = n by
      omega, hof]

@[simp] theorem scalars_utf16 (cs : List Char) : scalars (utf16 cs) = cs := by
  induction cs with
  | nil => rfl
  | cons c cs ih =>
    rw [utf16, List.flatMap_cons, scalars_utf16Char]
    exact congrArg (c :: ·) ih

theorem utf16_inj {cs ds : List Char} (h : utf16 cs = utf16 ds) : cs = ds := by
  rw [← scalars_utf16 cs, h, scalars_utf16]

/-! ### What is well formed -/

/-- No surrogate stands on its own. -/
def WellFormed (t : List UInt16) : Prop := ∃ cs, t = utf16 cs

theorem wellFormed_nil : WellFormed [] := ⟨[], rfl⟩

theorem WellFormed.append {s t : List UInt16} (hs : WellFormed s) (ht : WellFormed t) : WellFormed (s ++ t) := by
  obtain ⟨cs, rfl⟩ := hs
  obtain ⟨ds, rfl⟩ := ht
  exact ⟨cs ++ ds, List.flatMap_append.symm⟩

theorem toNat_lt_of_single {u : UInt16} (hh : isHigh u = false) (hl : isLow u = false) :
    u.toNat < 0xD800 ∨ 0xDFFF < u.toNat := by
  simp only [isHigh, isLow, Bool.and_eq_false_iff, decide_eq_false_iff_not] at hh hl
  omega

theorem utf16_single {u : UInt16} (hh : isHigh u = false) (hl : isLow u = false) : utf16 [single u] = [u] := by
  have hu := toNat_lt_of_single hh hl
  have hlt : u.toNat < 65536 := u.toNat_lt
  have hof : (Char.ofNat u.toNat).toNat = u.toNat := toNat_ofNat (by omega)
  rw [utf16, List.flatMap_cons, List.flatMap_nil, List.append_nil, single, hh, hl, if_neg (by simp), utf16Char]
  simp only [hof, if_pos hlt, UInt16.ofNat_toNat]

theorem utf16_pair {u v : UInt16} (hu : isHigh u = true) (hv : isLow v = true) : utf16 [pair u v] = [u, v] := by
  simp only [isHigh, isLow, Bool.and_eq_true, decide_eq_true_eq] at hu hv
  have hof := @toNat_ofNat (0x10000 + (u.toNat - 0xD800) * 1024 + (v.toNat - 0xDC00)) (by omega)
  rw [utf16, List.flatMap_cons, List.flatMap_nil, List.append_nil, pair, utf16Char]
  simp only [hof, if_neg (show ¬ 0x10000 + (u.toNat - 0xD800) * 1024 + (v.toNat - 0xDC00) < 0x10000 by omega)]
  rw [show 0xD800 + (0x10000 + (u.toNat - 0xD800) * 1024 + (v.toNat - 0xDC00) - 0x10000) / 1024 = u.toNat by omega,
    show 0xDC00 + (0x10000 + (u.toNat - 0xD800) * 1024 + (v.toNat - 0xDC00) - 0x10000) % 1024 = v.toNat by omega,
    UInt16.ofNat_toNat, UInt16.ofNat_toNat]

theorem wellFormed_single {u : UInt16} (hh : isHigh u = false) (hl : isLow u = false) : WellFormed [u] :=
  ⟨_, (utf16_single hh hl).symm⟩

theorem wellFormed_pair {u v : UInt16} (hu : isHigh u = true) (hv : isLow v = true) : WellFormed [u, v] :=
  ⟨_, (utf16_pair hu hv).symm⟩

theorem wellFormed_of_lt {t : List UInt16} (h : ∀ u ∈ t, u.toNat < 0xD800) : WellFormed t := by
  induction t with
  | nil => exact wellFormed_nil
  | cons u t ih =>
    rw [List.forall_mem_cons] at h
    have hh : isHigh u = false := by
      simp only [isHigh, Bool.and_eq_false_iff, decide_eq_false_iff_not]
      omega
    have hl : isLow u = false := by
      simp only [isLow, Bool.and_eq_false_iff, decide_eq_false_iff_not]
      omega
    exact (wellFormed_single hh hl).append (ih h.2)

end Unicode
