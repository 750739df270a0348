import Mathlib.Data.List.DropRight
import Mathlib.Data.List.Nodup

/-!
# What an update is checked against

Strings are lists of bytes. The signature scheme and the hash are parameters;
a path is one of Linux.
-/

namespace Keyhole.Update

abbrev Bytes : Type := List UInt8

/-- The constants of the source are all ASCII. -/
def ascii (s : String) : Bytes := s.toList.map fun c => .ofNat c.toNat

def LF : UInt8 := 0x0A

def CR : UInt8 := 0x0D

def slash : UInt8 := 0x2F

/-- `filepath.Base`. -/
def base (path : Bytes) : Bytes :=
  if path = [] then ascii "."
  else
    let last := (path.rdropWhile (· = slash)).rtakeWhile (· ≠ slash)
    if last = [] then [slash] else last

def isHexDigit (c : UInt8) : Bool := 0x30 ≤ c && c ≤ 0x39 || 0x61 ≤ c && c ≤ 0x66 || 0x41 ≤ c && c ≤ 0x46

/-- A byte that is not ASCII is part of a rune that is not, or is read as the replacement character. -/
def isHexDigits (s : Bytes) : Bool := s.all isHexDigit

/-- `strings.ToLower` of a text that is all ASCII. -/
def toLower (s : Bytes) : Bytes := s.map fun c => if 0x41 ≤ c && c ≤ 0x5A then c + 0x20 else c

def hexDigit (n : UInt8) : UInt8 := if n < 10 then 0x30 + n else 0x57 + n

/-- `hex.EncodeToString`. -/
def encodeToString (src : Bytes) : Bytes := src.flatMap fun b => [hexDigit (b / 16), hexDigit (b % 16)]

def constantTimeCompare (x y : Bytes) : Nat := if x = y then 1 else 0

/-! ## The list of checksums -/

/-- One turn of the loop of `checksumFor`. -/
def checksumIn (wanted raw : Bytes) : Option Bytes :=
  let line := raw.rdropWhile (· = CR)
  if line.length < 64 + 2 + 1 then none
  else
    let hexPart := line.take 64
    if !isHexDigits hexPart then none
    else
      let sep := (line.drop 64).take 2
      if sep ≠ ascii "  " ∧ sep ≠ ascii " *" then none
      else
        let name := line.drop 66
        if base name = wanted then some (toLower hexPart) else none

def checksumFor (checksums filename : Bytes) : Option Bytes :=
  (checksums.splitOn LF).findSome? (checksumIn (base filename))

structure Minisign (Key : Type) where
  unmarshalText : Bytes → Except Bytes Key
  verify : Key → (message signature : Bytes) → Bool

def verify {Key : Type} (minisign : Minisign Key) (sum256 : Bytes → Vector UInt8 32)
    (binary checksums signature publicKey filename : Bytes) : Except Bytes Unit :=
  match minisign.unmarshalText publicKey with
  | .error err => .error (ascii "parse public key: " ++ err)
  | .ok key =>
    if !minisign.verify key checksums signature then
      .error (ascii "the release signature is not valid for these checksums")
    else
      match checksumFor checksums filename with
      | none => .error (ascii "the signed checksum list has no entry for " ++ filename)
      | some want =>
        let got := encodeToString (sum256 binary).toList
        if constantTimeCompare got want ≠ 1 then .error (ascii "checksum mismatch for " ++ filename)
        else .ok ()

/-! ## What a line says -/

def hexValue (c : UInt8) : UInt8 := if c ≤ 0x39 then c - 0x30 else if c ≤ 0x46 then c - 0x37 else c - 0x57

/-- The bytes that digits of either case write. -/
def decode : Bytes → Bytes
  | a :: b :: rest => (hexValue a * 16 + hexValue b) :: decode rest
  | _ => []

structure Line where
  hex : Bytes
  binary : Bool
  name : Bytes
  hex_length : hex.length = 64
  hex_digits : isHexDigits hex = true
  name_ne : name ≠ []

def Line.marker (l : Line) : Bytes := if l.binary then ascii " *" else ascii "  "

def Line.text (l : Line) : Bytes := l.hex ++ (l.marker ++ l.name)

def Line.digest (l : Line) : Bytes := decode l.hex

/-- What stands between two line feeds is the line `l`, and carriage returns. -/
def Shows (raw : Bytes) (l : Line) : Prop := raw.rdropWhile (· = CR) = l.text

theorem Shows.length {raw : Bytes} {l : Line} (h : Shows raw l) : 67 ≤ raw.length := by
  have hname := List.length_pos_iff.mpr l.name_ne
  have hmarker : l.marker.length = 2 := by
    unfold Line.marker
    cases l.binary <;> rfl
  have htext := congrArg List.length h
  have hle := (List.rdropWhile_prefix (p := (· = CR)) raw).length_le
  simp only [Line.text, List.length_append, l.hex_length, hmarker] at htext
  omega

theorem forall_byte {p : UInt8 → Prop} (h : ∀ n < 256, p (.ofNat n)) (c : UInt8) : p c := by
  have hc := h c.toNat c.toNat_lt
  rwa [UInt8.ofNat_toNat] at hc

theorem hexDigit_value : ∀ c : UInt8, isHexDigit c = true →
    hexDigit (hexValue c) = (if 0x41 ≤ c && c ≤ 0x5A then c + 0x20 else c) ∧ hexValue c < 16 :=
  forall_byte (by decide +kernel)

theorem value_hexDigit : ∀ b : UInt8, hexValue (hexDigit (b / 16)) * 16 + hexValue (hexDigit (b % 16)) = b :=
  forall_byte (by decide +kernel)

theorem pair_split {a b : UInt8} (ha : a < 16) (hb : b < 16) : (a * 16 + b) / 16 = a ∧ (a * 16 + b) % 16 = b := by
  have ha' : a.toNat < 16 := ha
  have hb' : b.toNat < 16 := hb
  constructor
  · apply UInt8.toNat.inj
    simp
    omega
  · apply UInt8.toNat.inj
    simp
    omega

theorem encodeToString_cons (b : UInt8) (src : Bytes) :
    encodeToString (b :: src) = hexDigit (b / 16) :: hexDigit (b % 16) :: encodeToString src := rfl

theorem decode_encodeToString (src : Bytes) : decode (encodeToString src) = src := by
  induction src with
  | nil => rfl
  | cons b src ih => rw [encodeToString_cons, decode, ih, value_hexDigit]

theorem encodeToString_decode {s : Bytes} (heven : s.length % 2 = 0) (h : isHexDigits s = true) :
    encodeToString (decode s) = toLower s := by
  induction s using decode.induct with
  | case1 a b rest ih =>
    simp only [isHexDigits, List.all_cons, Bool.and_eq_true] at h
    obtain ⟨ha, hb, hrest⟩ := h
    obtain ⟨hlowa, hva⟩ := hexDigit_value a ha
    obtain ⟨hlowb, hvb⟩ := hexDigit_value b hb
    obtain ⟨hdiv, hmod⟩ := pair_split hva hvb
    have htail := ih (by simpa [Nat.add_assoc] using heven) hrest
    rw [decode, encodeToString_cons, hdiv, hmod, hlowa, hlowb, htail]
    rfl
  | case2 s hs =>
    cases s with
    | nil => rfl
    | cons a s =>
      cases s with
      | nil => simp at heven
      | cons b s => exact absurd rfl (hs a b s)

theorem Line.lower (l : Line) : toLower l.hex = encodeToString l.digest :=
  (encodeToString_decode (by rw [l.hex_length]) l.hex_digits).symm

theorem Line.length_marker (l : Line) : l.marker.length = 2 := by
  unfold marker
  cases l.binary <;> rfl

theorem checksumIn_of_shows {wanted raw : Bytes} {l : Line} (h : Shows raw l) :
    checksumIn wanted raw = if base l.name = wanted then some (encodeToString l.digest) else none := by
  have hm := l.length_marker
  have hx := l.hex_length
  have hlong : ¬l.text.length < 64 + 2 + 1 := by
    have hname := List.length_pos_iff.mpr l.name_ne
    rw [Line.text, List.length_append, List.length_append]
    omega
  have hhex : l.text.take 64 = l.hex := by rw [Line.text, List.take_left' hx]
  have hsep : (l.text.drop 64).take 2 = l.marker := by rw [Line.text, List.drop_left' hx, List.take_left' hm]
  have hname : l.text.drop 66 = l.name := by
    rw [Line.text, ← List.append_assoc, List.drop_left' (by rw [List.length_append]; omega)]
  have hmarker : ¬(l.marker ≠ ascii "  " ∧ l.marker ≠ ascii " *") := by
    unfold Line.marker
    cases l.binary <;> simp
  unfold checksumIn
  rw [show raw.rdropWhile (· = CR) = l.text from h]
  simp only [hhex, hsep, hname, hlong, hmarker, l.hex_digits, if_false, Bool.not_true, Bool.false_eq_true, l.lower]

/-- A line that passes the tests of the loop is one of `sha256sum`. -/
theorem exists_shows {raw : Bytes} (hlong : ¬(raw.rdropWhile (· = CR)).length < 64 + 2 + 1)
    (hhex : isHexDigits ((raw.rdropWhile (· = CR)).take 64) = true)
    (hsep : ((raw.rdropWhile (· = CR)).drop 64).take 2 = ascii "  " ∨
      ((raw.rdropWhile (· = CR)).drop 64).take 2 = ascii " *") : ∃ l, Shows raw l := by
  generalize hline : raw.rdropWhile (· = CR) = line at *
  have hname : line.drop 66 ≠ [] := by
    rw [← List.length_pos_iff, List.length_drop]
    omega
  have hsplit : line = line.take 64 ++ ((line.drop 64).take 2 ++ line.drop 66) := by
    rw [show line.drop 66 = (line.drop 64).drop 2 by rw [List.drop_drop], List.take_append_drop,
      List.take_append_drop]
  have hlen : (line.take 64).length = 64 := by
    rw [List.length_take]
    omega
  rcases hsep with hsep | hsep
  · refine ⟨⟨line.take 64, false, line.drop 66, hlen, hhex, hname⟩, ?_⟩
    rw [hsep] at hsplit
    exact hline.trans hsplit
  · refine ⟨⟨line.take 64, true, line.drop 66, hlen, hhex, hname⟩, ?_⟩
    rw [hsep] at hsplit
    exact hline.trans hsplit

theorem checksumIn_of_not_shows {wanted raw : Bytes} (h : ∀ l, ¬Shows raw l) : checksumIn wanted raw = none := by
  unfold checksumIn
  simp only
  by_cases hlong : (raw.rdropWhile (· = CR)).length < 64 + 2 + 1
  · rw [if_pos hlong]
  rw [if_neg hlong]
  by_cases hhex : isHexDigits ((raw.rdropWhile (· = CR)).take 64) = true
  · rw [if_neg (by simp [hhex])]
    by_cases hsep : ((raw.rdropWhile (· = CR)).drop 64).take 2 ≠ ascii "  " ∧
        ((raw.rdropWhile (· = CR)).drop 64).take 2 ≠ ascii " *"
    · rw [if_pos hsep]
    · rw [not_and_or, not_not, not_not] at hsep
      obtain ⟨l, hl⟩ := exists_shows hlong hhex hsep
      exact absurd hl (h l)
  · rw [if_pos (by simp [hhex])]

theorem checksumIn_eq_some {wanted raw sum : Bytes} :
    checksumIn wanted raw = some sum ↔
      ∃ l : Line, Shows raw l ∧ base l.name = wanted ∧ encodeToString l.digest = sum := by
  constructor
  · intro h
    by_cases hshows : ∃ l, Shows raw l
    · obtain ⟨l, hl⟩ := hshows
      rw [checksumIn_of_shows hl, Option.ite_none_right_eq_some, Option.some.injEq] at h
      exact ⟨l, hl, h⟩
    · rw [checksumIn_of_not_shows (not_exists.mp hshows)] at h
      cases h
  · rintro ⟨l, hl, hbase, hsum⟩
    rw [checksumIn_of_shows hl, if_pos hbase, hsum]

theorem checksumIn_eq_none {wanted raw : Bytes} :
    checksumIn wanted raw = none ↔ ∀ l : Line, Shows raw l → base l.name ≠ wanted := by
  rw [Option.eq_none_iff_forall_ne_some]
  constructor
  · intro h l hl hbase
    exact h _ (checksumIn_eq_some.mpr ⟨l, hl, hbase, rfl⟩)
  · intro h sum hsum
    obtain ⟨l, hl, hbase, -⟩ := checksumIn_eq_some.mp hsum
    exact h l hl hbase

/-! ## What is accepted -/

/-- `l` is what the first line of the list says that is about the file `wanted`. -/
def FirstLine (checksums wanted : Bytes) (l : Line) : Prop :=
  ∃ before raw after, checksums.splitOn LF = before ++ raw :: after ∧ Shows raw l ∧ base l.name = wanted ∧
    ∀ other ∈ before, ∀ m : Line, Shows other m → base m.name ≠ wanted

theorem checksumFor_eq_some {checksums filename sum : Bytes} :
    checksumFor checksums filename = some sum ↔
      ∃ l, FirstLine checksums (base filename) l ∧ encodeToString l.digest = sum := by
  unfold checksumFor FirstLine
  rw [List.findSome?_eq_some_iff]
  simp only [checksumIn_eq_some, checksumIn_eq_none]
  constructor
  · rintro ⟨before, raw, after, hsplit, ⟨l, hl, hbase, hsum⟩, hbefore⟩
    exact ⟨l, ⟨before, raw, after, hsplit, hl, hbase, hbefore⟩, hsum⟩
  · rintro ⟨l, ⟨before, raw, after, hsplit, hl, hbase, hbefore⟩, hsum⟩
    exact ⟨before, raw, after, hsplit, ⟨l, hl, hbase, hsum⟩, hbefore⟩

theorem verify_ok_iff {Key : Type} (minisign : Minisign Key) (sum256 : Bytes → Vector UInt8 32)
    (binary checksums signature publicKey filename : Bytes) :
    verify minisign sum256 binary checksums signature publicKey filename = .ok () ↔
      (∃ key, minisign.unmarshalText publicKey = .ok key ∧ minisign.verify key checksums signature = true) ∧
        ∃ l, FirstLine checksums (base filename) l ∧ l.digest = (sum256 binary).toList := by
  have hline : (∃ l, FirstLine checksums (base filename) l ∧ l.digest = (sum256 binary).toList) ↔
      checksumFor checksums filename = some (encodeToString (sum256 binary).toList) := by
    rw [checksumFor_eq_some]
    apply exists_congr
    intro l
    apply and_congr_right
    intro _
    constructor
    · intro h
      rw [h]
    · intro h
      rw [← decode_encodeToString l.digest, h, decode_encodeToString]
  rw [hline]
  unfold verify
  cases hkey : minisign.unmarshalText publicKey with
  | error err => simp
  | ok key =>
    by_cases hsig : minisign.verify key checksums signature = true
    · cases hsum : checksumFor checksums filename with
      | none => simp [hsig]
      | some want =>
        by_cases hwant : want = encodeToString (sum256 binary).toList
        · simp [hsig, hwant, constantTimeCompare]
        · simp [hsig, hwant, Ne.symm hwant, constantTimeCompare]
    · simp [hsig]

/-! ## Lists as they are written -/

/-- A file of a list: `sha256sum` names it with the directories before it. -/
structure File extends Line where
  dir : Bytes
  own : Bytes
  name_eq : name = dir ++ own
  dir_ends : dir = [] ∨ dir.getLast? = some slash
  own_ne : own ≠ []
  own_flat : slash ∉ own
  clean : LF ∉ name ∧ CR ∉ name

theorem rtakeWhile_append {α : Type} {p : α → Bool} {s t : List α} (ht : ∀ x ∈ t, p x = true)
    (hs : s = [] ∨ ∃ x, s.getLast? = some x ∧ p x = false) : (s ++ t).rtakeWhile p = t := by
  unfold List.rtakeWhile
  have hrev : s.reverse.takeWhile p = [] := by
    rcases hs with rfl | ⟨x, hx, hpx⟩
    · rfl
    · rw [List.getLast?_eq_head?_reverse] at hx
      obtain ⟨rest, hrest⟩ := List.head?_eq_some_iff.mp hx
      rw [hrest, List.takeWhile_cons, hpx]
      rfl
  rw [List.reverse_append, List.takeWhile_append_of_pos (by simpa using ht), hrev, List.append_nil,
    List.reverse_reverse]

theorem File.base_name (f : File) : base f.name = f.own := by
  have hlast : ∀ h : f.dir ++ f.own ≠ [], (f.dir ++ f.own).getLast h ≠ slash := by
    intro h heq
    apply f.own_flat
    rw [List.getLast_append_of_ne_nil _ f.own_ne] at heq
    rw [← heq]
    exact List.getLast_mem _
  have hkeep : (f.dir ++ f.own).rdropWhile (· = slash) = f.dir ++ f.own := by
    rw [List.rdropWhile_eq_self_iff]
    simpa using hlast
  have htake : (f.dir ++ f.own).rtakeWhile (· ≠ slash) = f.own := by
    apply rtakeWhile_append
    · intro x hx
      have hne : x ≠ slash := by
        rintro rfl
        exact f.own_flat hx
      simpa using hne
    · exact f.dir_ends.imp_right fun h => ⟨slash, h, by simp⟩
  unfold base
  simp only
  rw [f.name_eq, hkeep, htake, if_neg (by simp [f.own_ne]), if_neg f.own_ne]

/-- A line of a list: of a file, or of no shape that names one. -/
inductive Row
  | file (f : File)
  | malformed (text : Bytes) (hline : LF ∉ text) (hshape : ∀ l, ¬Shows text l)

inductive Ending
  | lf
  | crlf
  deriving DecidableEq, Repr

def Ending.text : Ending → Bytes
  | lf => []
  | crlf => [CR]

def Row.text : Row → Bytes
  | file f => f.text
  | malformed text _ _ => text

def Row.file? : Row → Option File
  | file f => some f
  | malformed _ _ _ => none

/-- A list over files of different names. Its last line may be left without an ending. -/
structure Listing where
  rows : List (Row × Ending)
  last : Option Row
  distinct : (((rows.map (·.1)) ++ last.toList).filterMap Row.file?).Pairwise fun f g => f.own ≠ g.own

def Listing.all (L : Listing) : List Row := L.rows.map (·.1) ++ L.last.toList

def Listing.files (L : Listing) : List File := L.all.filterMap Row.file?

def written (rows : List (Row × Ending)) (last : Option Row) : Bytes :=
  rows.flatMap (fun r => r.1.text ++ (r.2.text ++ [LF])) ++ (last.elim [] Row.text)

def Listing.text (L : Listing) : Bytes := written L.rows L.last

theorem isHexDigit_ne : ∀ c : UInt8, isHexDigit c = true → c ≠ LF ∧ c ≠ CR := forall_byte (by decide +kernel)

theorem File.text_clean (f : File) : LF ∉ f.text ∧ CR ∉ f.text := by
  have hhex : ∀ c ∈ f.hex, c ≠ LF ∧ c ≠ CR :=
    fun c hc => isHexDigit_ne c (List.all_eq_true.mp f.hex_digits c hc)
  have hmarker : LF ∉ f.marker ∧ CR ∉ f.marker := by
    unfold Line.marker
    cases f.binary <;> decide
  unfold Line.text
  simp only [List.mem_append, not_or]
  exact ⟨⟨fun h => (hhex LF h).1 rfl, hmarker.1, f.clean.1⟩, fun h => (hhex CR h).2 rfl, hmarker.2, f.clean.2⟩

theorem File.shows (f : File) (e : Ending) : Shows (f.text ++ e.text) f.toLine := by
  have hkeep : f.text.rdropWhile (· = CR) = f.text := by
    rw [List.rdropWhile_eq_self_iff]
    intro h heq
    rw [decide_eq_true_eq] at heq
    exact f.text_clean.2 (heq ▸ List.getLast_mem h)
  unfold Shows
  cases e with
  | lf => rw [Ending.text, List.append_nil, hkeep]
  | crlf => rw [Ending.text, List.rdropWhile_concat_pos _ _ _ (by simp), hkeep]

theorem Row.line_free (r : Row) (e : Ending) : LF ∉ r.text ++ e.text := by
  have he : LF ∉ e.text := by cases e <;> decide
  cases r with
  | file f => simp [Row.text, f.text_clean.1, he]
  | malformed text hline hshape => simp [Row.text, hline, he]

/-- What the list says about the file `wanted`, if `f` is that file. -/
def File.checksum (wanted : Bytes) (f : File) : Option Bytes :=
  if f.own = wanted then some (encodeToString f.digest) else none

theorem checksumIn_row (wanted : Bytes) (r : Row) (e : Ending) :
    checksumIn wanted (r.text ++ e.text) = r.file?.bind (File.checksum wanted) := by
  cases r with
  | file f =>
    rw [Row.text, checksumIn_of_shows (f.shows e), f.base_name]
    rfl
  | malformed text hline hshape =>
    apply checksumIn_of_not_shows
    intro l hl
    apply hshape l
    cases e with
    | lf => simpa [Row.text, Ending.text] using hl
    | crlf =>
      unfold Shows at hl
      rwa [Row.text, Ending.text, List.rdropWhile_concat_pos _ _ _ (by simp)] at hl

theorem splitOn_written (rows : List (Row × Ending)) (last : Option Row) :
    (written rows last).splitOn LF = rows.map (fun r => r.1.text ++ r.2.text) ++ [last.elim [] Row.text] := by
  induction rows with
  | nil =>
    apply List.splitOn_eq_singleton
    cases last with
    | none => simp [written]
    | some r => simpa [written, Ending.text] using r.line_free .lf
  | cons r rows ih =>
    have hwritten : written (r :: rows) last = (r.1.text ++ r.2.text) ++ LF :: written rows last := by
      simp [written]
    rw [hwritten, List.splitOn_append_cons_self_of_not_mem (r.1.line_free r.2), ih]
    rfl

theorem findSome?_filterMap {α β γ : Type} (f : α → Option β) (g : β → Option γ) (l : List α) :
    (l.filterMap f).findSome? g = l.findSome? fun x => (f x).bind g := by
  rw [← List.head?_filterMap, ← List.head?_filterMap, List.filterMap_filterMap]

theorem Listing.checksumFor_text (L : Listing) (filename : Bytes) :
    checksumFor L.text filename = L.files.findSome? (File.checksum (base filename)) := by
  have hrows : (L.rows.map fun r => r.1.text ++ r.2.text).findSome? (checksumIn (base filename)) =
      (L.rows.map (·.1)).findSome? fun r => r.file?.bind (File.checksum (base filename)) := by
    rw [List.findSome?_map, List.findSome?_map]
    congr 1
    funext r
    exact checksumIn_row (base filename) r.1 r.2
  have hlast : [L.last.elim [] Row.text].findSome? (checksumIn (base filename)) =
      L.last.toList.findSome? fun r => r.file?.bind (File.checksum (base filename)) := by
    cases L.last with
    | none => rfl
    | some r =>
      have hrow := checksumIn_row (base filename) r .lf
      rw [Ending.text, List.append_nil] at hrow
      simp [hrow]
  unfold checksumFor text files all
  rw [splitOn_written, List.findSome?_append, hrows, hlast, findSome?_filterMap, List.findSome?_append]

theorem Listing.checksumFor_file (L : Listing) {f : File} (hf : f ∈ L.files) {filename : Bytes}
    (hown : f.own = base filename) : checksumFor L.text filename = some (encodeToString f.digest) := by
  obtain ⟨before, after, hsplit⟩ := List.append_of_mem hf
  have hdistinct : L.files.Pairwise fun f g => f.own ≠ g.own := L.distinct
  rw [hsplit, List.pairwise_append] at hdistinct
  rw [L.checksumFor_text, hsplit, List.findSome?_eq_some_iff]
  refine ⟨before, f, after, rfl, if_pos hown, fun g hg => if_neg ?_⟩
  rw [← hown]
  exact hdistinct.2.2 g hg f List.mem_cons_self

theorem Listing.checksumFor_other (L : Listing) {filename : Bytes} (h : ∀ f ∈ L.files, f.own ≠ base filename) :
    checksumFor L.text filename = none := by
  rw [L.checksumFor_text, List.findSome?_eq_none_iff]
  exact fun f hf => if_neg (h f hf)

/-- A release is what was signed, and a list says of each file what it was written with. -/
theorem release_exact :
    (∀ {Key : Type} (minisign : Minisign Key) (sum256 : Bytes → Vector UInt8 32)
      (binary checksums signature publicKey filename : Bytes),
      verify minisign sum256 binary checksums signature publicKey filename = .ok () ↔
        (∃ key, minisign.unmarshalText publicKey = .ok key ∧ minisign.verify key checksums signature = true) ∧
          ∃ l, FirstLine checksums (base filename) l ∧ l.digest = (sum256 binary).toList) ∧
    ∀ (L : Listing) (filename : Bytes),
      (∀ f ∈ L.files, f.own = base filename → checksumFor L.text filename = some (encodeToString f.digest)) ∧
      ((∀ f ∈ L.files, f.own ≠ base filename) → checksumFor L.text filename = none) := by
  refine ⟨verify_ok_iff, fun L filename => ⟨fun f hf hown => ?_, fun h => ?_⟩⟩
  · exact L.checksumFor_file hf hown
  · exact L.checksumFor_other h

def linux : File where
  hex := List.replicate 64 0x41
  binary := true
  name := ascii "dist/keyhole-linux"
  hex_length := by decide
  hex_digits := by decide
  name_ne := by decide
  dir := ascii "dist/"
  own := ascii "keyhole-linux"
  name_eq := by decide
  dir_ends := by decide
  own_ne := by decide
  own_flat := by decide
  clean := by decide

def darwin : File where
  hex := List.replicate 64 0x62
  binary := false
  name := ascii "keyhole-darwin"
  hex_length := by decide
  hex_digits := by decide
  name_ne := by decide
  dir := []
  own := ascii "keyhole-darwin"
  name_eq := by decide
  dir_ends := by decide
  own_ne := by decide
  own_flat := by decide
  clean := by decide

def heading : Row := .malformed (ascii "# 1.2.0") (by decide) fun l h => absurd h.length (by decide)

/-- A line that names no file, one that ends in CRLF and one without an ending. -/
def listing : Listing where
  rows := [(heading, .lf), (.file linux, .crlf)]
  last := some (.file darwin)
  distinct := List.pairwise_pair.mpr (by decide)

/-- A scheme in which a text is its own signature. -/
def plain : Minisign Unit where
  unmarshalText key := if key = ascii "key" then .ok () else .error (ascii "no key")
  verify _ message signature := message = signature

theorem release_exact_listing :
    checksumFor listing.text (ascii "keyhole-linux") = some (encodeToString (List.replicate 32 0xAA)) ∧
    checksumFor listing.text (ascii "/tmp/keyhole-darwin") = some (encodeToString (List.replicate 32 0xBB)) ∧
    checksumFor listing.text (ascii "keyhole-windows") = none ∧
    ∃ l, FirstLine listing.text (ascii "keyhole-linux") l ∧ l.digest = List.replicate 32 0xAA := by
  obtain ⟨hverify, hlisting⟩ := release_exact
  have hrun : verify plain (fun _ => Vector.replicate 32 0xAA) [] listing.text listing.text (ascii "key")
      (ascii "keyhole-linux") = .ok () := by decide +kernel
  refine ⟨?_, ?_, ?_, ((hverify _ _ _ _ _ _ _).mp hrun).2⟩
  · exact (hlisting listing _).1 linux
      (by simp [listing, Listing.files, Listing.all, Row.file?, heading]) (by decide)
  · exact (hlisting listing _).1 darwin
      (by simp [listing, Listing.files, Listing.all, Row.file?, heading]) (by decide)
  · refine (hlisting listing _).2 ?_
    simp only [listing, Listing.files, Listing.all, Row.file?, heading, List.map_cons, List.map_nil,
      Option.toList_some,
      List.cons_append, List.nil_append, List.filterMap_cons, List.filterMap_nil, List.forall_mem_cons]
    decide

end Keyhole.Update
