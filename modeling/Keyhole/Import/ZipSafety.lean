import Keyhole.Import.Zip

/-!
# A hostile archive

Every offset and length is compared before it is used, so no access leaves the
file, and what is read has the length and the checksum of its entry. An entry
of the directory ends inside it, but for the extra field and the comment of
the last one, which nothing looks at.
-/

namespace Keyhole.Import
open Unicode

/-! ## Accesses inside the file -/

def InBounds {α : Type} (r : Reading α) : Prop := r ≠ .error .outOfRange

theorem inBounds_ok {α : Type} (a : α) : InBounds (.ok a : Reading α) := nofun

theorem inBounds_pure {α : Type} (a : α) : InBounds (pure a : Reading α) := nofun

theorem inBounds_problem {α : Type} (message : Text) : InBounds (problem message : Reading α) := nofun

theorem inBounds_bind {α β : Type} {r : Reading α} {f : α → Reading β} (hr : InBounds r)
    (hf : ∀ a, r = .ok a → InBounds (f a)) : InBounds (r >>= f) := by
  cases r with
  | error e => exact fun h => hr (by cases h; rfl)
  | ok a => exact hf a rfl

def uint16 (bytes : Bytes) (offset : Nat) : Nat := (Fields.read bytes 2 offset).getD 0

def uint32 (bytes : Bytes) (offset : Nat) : Nat := (Fields.read bytes 4 offset).getD 0

def between (bytes : Bytes) (start stop : Nat) : Bytes := (bytes.drop start).take (stop - start)

section
variable {bytes : Bytes}

theorem getUint16_eq {offset : Nat} (h : offset + 2 ≤ bytes.length) :
    getUint16 bytes offset = .ok (uint16 bytes offset) := by
  obtain ⟨n, hn⟩ := Option.isSome_iff_exists.mp (Fields.read_isSome.mpr h)
  rw [getUint16, uint16, hn]
  rfl

theorem getUint32_eq {offset : Nat} (h : offset + 4 ≤ bytes.length) :
    getUint32 bytes offset = .ok (uint32 bytes offset) := by
  obtain ⟨n, hn⟩ := Option.isSome_iff_exists.mp (Fields.read_isSome.mpr h)
  rw [getUint32, uint32, hn]
  rfl

theorem subarray_eq {start stop : Nat} (h : start ≤ stop) (hstop : stop ≤ bytes.length) :
    subarray bytes start stop = .ok (between bytes start stop) := by
  rw [subarray, Fields.slice, if_pos ⟨h, hstop⟩]
  rfl

/-! ## The end record -/

theorem isEndRecord_eq {position : Nat} (h : position + END_RECORD_LENGTH ≤ bytes.length) :
    isEndRecord bytes position = .ok (uint32 bytes position = END_OF_CENTRAL_DIRECTORY ∧
      uint16 bytes (position + 20) = bytes.length - position - END_RECORD_LENGTH) := by
  simp only [END_RECORD_LENGTH] at h
  rw [isEndRecord, getUint32_eq (by omega), getUint16_eq (by omega)]
  by_cases hsignature : uint32 bytes position = END_OF_CENTRAL_DIRECTORY
  · simp [hsignature, bind, Except.bind, pure, Except.pure]
  · simp [hsignature, bind, Except.bind, pure, Except.pure]

theorem endRecordFrom_spec (steps : Nat) {position : Nat} (h : position + END_RECORD_LENGTH ≤ bytes.length) :
    ∃ found, endRecordFrom bytes steps position = .ok found ∧
      ∀ offset ∈ found, offset + END_RECORD_LENGTH ≤ bytes.length := by
  induction steps generalizing position with
  | zero => exact ⟨none, rfl, by simp⟩
  | succ steps ih =>
    rw [endRecordFrom, isEndRecord_eq h]
    obtain ⟨found, hfound, hinside⟩ := @ih (position - 1) (by omega)
    by_cases hhere : uint32 bytes position = END_OF_CENTRAL_DIRECTORY ∧
        uint16 bytes (position + 20) = bytes.length - position - END_RECORD_LENGTH
    · exact ⟨some position, by simp [hhere, bind, Except.bind, pure, Except.pure], by simpa using h⟩
    · exact ⟨found, by simp only [hhere, decide_false, bind, Except.bind, Bool.false_eq_true, if_false, hfound],
        hinside⟩

theorem endRecord_inBounds (bytes : Bytes) : InBounds (endRecord bytes) := by
  unfold endRecord
  split
  · exact inBounds_problem _
  · next hlen =>
    obtain ⟨found, hfound, hinside⟩ := @endRecordFrom_spec bytes
      (bytes.length - END_RECORD_LENGTH - (bytes.length - END_RECORD_LENGTH - MAX_COMMENT_LENGTH) + 1)
      (bytes.length - END_RECORD_LENGTH) (by omega)
    have hat : endRecordAt bytes = .ok found := hfound
    rw [hat]
    cases found with
    | none => exact inBounds_problem _
    | some position =>
      have hposition := hinside position rfl
      simp only [END_RECORD_LENGTH] at hposition
      change InBounds (do
        let count ← getUint16 bytes (position + 10)
        let directorySize ← getUint32 bytes (position + 12)
        let directoryOffset ← getUint32 bytes (position + 16)
        pure (⟨count, directorySize, directoryOffset⟩ : EndRecord))
      rw [getUint16_eq (by omega), getUint32_eq (by omega), getUint32_eq (by omega)]
      exact inBounds_ok _

/-! ## The directory -/

/-- Where the entry at `position` ends, by the three lengths in its header. -/
def entryEnd (bytes : Bytes) (position : Nat) : Nat :=
  position + CENTRAL_ENTRY_LENGTH + uint16 bytes (position + 28) + uint16 bytes (position + 30) +
    uint16 bytes (position + 32)

def entryStart (bytes : Bytes) (start : Nat) : (i : Nat) → Nat
  | 0 => start
  | i + 1 => entryEnd bytes (entryStart bytes start i)

def entryAt (bytes : Bytes) (position : Nat) : DirectoryEntry where
  name := utf16 (Unicode.withoutBom (lossy (between bytes (position + CENTRAL_ENTRY_LENGTH)
    (position + CENTRAL_ENTRY_LENGTH + uint16 bytes (position + 28)))))
  flags := uint16 bytes (position + 8)
  method := uint16 bytes (position + 10)
  checksum := uint32 bytes (position + 16)
  compressedSize := uint32 bytes (position + 20)
  uncompressedSize := uint32 bytes (position + 24)
  localHeaderOffset := uint32 bytes (position + 42)

def EntryFits (bytes : Bytes) (stop position : Nat) : Prop :=
  position + CENTRAL_ENTRY_LENGTH ≤ stop ∧ uint32 bytes position = CENTRAL_HEADER ∧
    position + CENTRAL_ENTRY_LENGTH + uint16 bytes (position + 28) ≤ stop

instance (bytes : Bytes) (stop position : Nat) : Decidable (EntryFits bytes stop position) :=
  inferInstanceAs (Decidable (_ ∧ _ ∧ _))

theorem readEntry_eq {stop : Nat} (hstop : stop ≤ bytes.length) (position : Nat) :
    readEntry bytes stop position =
      if EntryFits bytes stop position then .ok (entryAt bytes position, entryEnd bytes position)
      else problem DAMAGED_DIRECTORY := by
  unfold readEntry
  by_cases hheader : position + CENTRAL_ENTRY_LENGTH > stop
  · rw [if_pos hheader, if_neg fun h => absurd h.1 (by omega)]
  have hlen : position + 46 ≤ bytes.length := by
    simp only [CENTRAL_ENTRY_LENGTH] at hheader
    omega
  rw [if_neg hheader, getUint32_eq (by omega)]
  by_cases hsignature : uint32 bytes position = CENTRAL_HEADER
  · simp only [bind, Except.bind, hsignature, ne_eq, not_true, if_false]
    rw [getUint16_eq (by omega), getUint16_eq (by omega), getUint16_eq (by omega)]
    by_cases hname : position + CENTRAL_ENTRY_LENGTH + uint16 bytes (position + 28) > stop
    · simp only [hname, if_true]
      rw [if_neg fun h => absurd h.2.2 (by omega)]
    · simp only [hname, if_false]
      rw [subarray_eq (by omega) (by omega), getUint16_eq (by omega), getUint16_eq (by omega),
        getUint32_eq (by omega),
        getUint32_eq (by omega), getUint32_eq (by omega), getUint32_eq (by omega),
        if_pos (show EntryFits bytes stop position from ⟨by omega, hsignature, by omega⟩)]
      rfl
  · simp only [bind, Except.bind, ne_eq, hsignature, not_false_eq_true, if_true]
    rw [if_neg fun h => hsignature h.2.1]

theorem readDirectory_eq {stop : Nat} (hstop : stop ≤ bytes.length) (count position : Nat) :
    readDirectory bytes stop count position =
      if ∀ i < count, EntryFits bytes stop (entryStart bytes position i) then
        .ok ((List.range count).map fun i => entryAt bytes (entryStart bytes position i))
      else problem DAMAGED_DIRECTORY := by
  induction count generalizing position with
  | zero => simp [readDirectory]; rfl
  | succ count ih =>
    have hshift : ∀ i, entryStart bytes position (i + 1) = entryStart bytes (entryEnd bytes position) i := by
      intro i
      induction i with
      | zero => rfl
      | succ i hi => rw [entryStart, hi, entryStart]
    have hall : (∀ i < count + 1, EntryFits bytes stop (entryStart bytes position i)) ↔
        EntryFits bytes stop position ∧ ∀ i < count,
          EntryFits bytes stop (entryStart bytes (entryEnd bytes position) i) := by
      rw [Nat.forall_lt_succ_left]
      simp only [hshift]
      rfl
    rw [readDirectory, readEntry_eq hstop]
    by_cases hfirst : EntryFits bytes stop position
    · simp only [if_pos hfirst, bind, Except.bind]
      rw [ih]
      by_cases hrest : ∀ i < count, EntryFits bytes stop (entryStart bytes (entryEnd bytes position) i)
      · rw [if_pos hrest, if_pos (hall.mpr ⟨hfirst, hrest⟩), List.range_succ_eq_map, List.map_cons, List.map_map]
        simp only [Function.comp_def, Nat.succ_eq_add_one, hshift]
        rfl
      · rw [if_neg hrest, if_neg fun h => hrest (hall.mp h).2]
        rfl
    · rw [if_neg hfirst, if_neg fun h => hfirst (hall.mp h).1]
      rfl

/-- What an opened archive is: the entries in their places, each one's header and name inside the directory. -/
theorem openZip_ok {archive : ZipArchive} (h : openZip bytes = .ok archive) :
    ∃ record, endRecord bytes = .ok record ∧
    record.directoryOffset + record.directorySize ≤ bytes.length ∧ archive.bytes = bytes ∧
    (∀ i < record.count, EntryFits bytes (record.directoryOffset + record.directorySize)
      (entryStart bytes record.directoryOffset i)) ∧
    archive.entries = (List.range record.count).map fun i =>
      entryAt bytes (entryStart bytes record.directoryOffset i) := by
  unfold openZip at h
  cases hrecord : endRecord bytes with
  | error e =>
    rw [hrecord] at h
    cases h
  | ok record =>
    simp only [hrecord, bind, Except.bind] at h
    by_cases hout : record.directoryOffset + record.directorySize > bytes.length
    · rw [if_pos hout] at h
      cases h
    · rw [if_neg hout, readDirectory_eq (by omega)] at h
      by_cases hfits : ∀ i < record.count, EntryFits bytes (record.directoryOffset + record.directorySize)
          (entryStart bytes record.directoryOffset i)
      · rw [if_pos hfits] at h
        cases h
        exact ⟨record, rfl, by omega, rfl, hfits, rfl⟩
      · rw [if_neg hfits] at h
        cases h

theorem openZip_inBounds (bytes : Bytes) : InBounds (openZip bytes) := by
  unfold openZip
  refine inBounds_bind (endRecord_inBounds bytes) fun record _ => ?_
  simp only
  split
  · exact inBounds_problem _
  · rw [readDirectory_eq (by omega)]
    split
    · exact inBounds_ok _
    · exact inBounds_problem _

/-! ## A member -/

theorem compressedBytes_inBounds (entry : DirectoryEntry) : InBounds (compressedBytes bytes entry) := by
  unfold compressedBytes
  simp only
  split
  · exact inBounds_problem _
  · next hheader =>
    simp only [LOCAL_HEADER_LENGTH] at hheader
    rw [getUint32_eq (by omega)]
    refine inBounds_bind (inBounds_ok _) fun signature _ => ?_
    split
    · exact inBounds_problem _
    · rw [getUint16_eq (by omega), getUint16_eq (by omega)]
      refine inBounds_bind (inBounds_ok _) fun nameLength _ => inBounds_bind (inBounds_ok _) fun extraLength _ => ?_
      split
      · exact inBounds_problem _
      · rw [subarray_eq (by omega) (by omega)]
        exact inBounds_ok _

end

namespace ZipArchive
variable {archive : ZipArchive} {inflateRaw : Bytes → Option Bytes} {name : Text}

theorem contents_inBounds (method : Nat) (stored : Bytes) : InBounds (contents inflateRaw name method stored) := by
  unfold contents
  split
  · exact inBounds_pure _
  · split
    · exact inBounds_pure _
    · exact inBounds_problem _

theorem read_inBounds (archive : ZipArchive) (inflateRaw : Bytes → Option Bytes) (name : Text) :
    InBounds (archive.read inflateRaw name) := by
  unfold read
  split
  · exact inBounds_problem _
  · split
    · exact inBounds_problem _
    · split
      · exact inBounds_problem _
      · split
        · exact inBounds_problem _
        · refine inBounds_bind (compressedBytes_inBounds _) fun stored _ =>
            inBounds_bind (contents_inBounds _ stored) fun contents _ => ?_
          split
          · exact inBounds_problem _
          · exact inBounds_pure _

theorem readText_inBounds (archive : ZipArchive) (inflateRaw : Bytes → Option Bytes) (name : Text) :
    InBounds (archive.readText inflateRaw name) := by
  refine inBounds_bind (read_inBounds archive inflateRaw name) fun contents _ => ?_
  split
  · exact inBounds_pure _
  · exact inBounds_problem _

theorem read_checked {contents : Bytes} (h : archive.read inflateRaw name = .ok contents) : ∃ entry,
    archive.byName name = some entry ∧ contents.length = entry.uncompressedSize ∧
      crc32 contents = entry.checksum := by
  unfold read at h
  cases hentry : archive.byName name with
  | none =>
    rw [hentry] at h
    cases h
  | some entry =>
    simp only [hentry] at h
    split at h
    · cases h
    split at h
    · cases h
    split at h
    · cases h
    simp only [bind, Except.bind] at h
    split at h
    · cases h
    split at h
    · cases h
    split at h
    · cases h
    · next hchecked =>
      cases h
      simp only [ne_eq, Bool.or_eq_true, decide_eq_true_eq, not_or, not_not] at hchecked
      exact ⟨entry, rfl, hchecked.2, hchecked.1⟩

end ZipArchive

/-! ## All of it -/

structure SoundReader (inflateRaw : Bytes → Option Bytes) (bytes : Bytes) : Prop where
  opens : InBounds (openZip bytes)
  reads : ∀ archive, openZip bytes = .ok archive → ∀ name,
    InBounds (archive.read inflateRaw name) ∧ InBounds (archive.readText inflateRaw name)
  checked : ∀ archive, openZip bytes = .ok archive →
    ∀ name contents, archive.read inflateRaw name = .ok contents →
    ∃ entry ∈ archive.entries, archive.byName name = some entry ∧ contents.length = entry.uncompressedSize ∧
      crc32 contents = entry.checksum
  listed : ∀ archive record, openZip bytes = .ok archive → endRecord bytes = .ok record →
    archive.entries = (List.range record.count).map fun i =>
      entryAt bytes (entryStart bytes record.directoryOffset i)
  inside : ∀ archive record, openZip bytes = .ok archive → endRecord bytes = .ok record → ∀ i < record.count,
    record.directoryOffset ≤ entryStart bytes record.directoryOffset i ∧
    entryEnd bytes (entryStart bytes record.directoryOffset i) ≤ record.directoryOffset + record.directorySize

theorem entryStart_mono (bytes : Bytes) (start : Nat) {i j : Nat} (h : i ≤ j) :
    entryStart bytes start i ≤ entryStart bytes start j := by
  induction h with
  | refl => exact Nat.le_refl _
  | step _ ih =>
    rw [entryStart, entryEnd]
    omega

/-- The lengths in the headers of the directory add up to no more than the end record says of its size. -/
def DirectoryFits (bytes : Bytes) : Prop :=
  ∀ record, endRecord bytes = .ok record → (openZip bytes).isOk = true →
    entryStart bytes record.directoryOffset record.count ≤ record.directoryOffset + record.directorySize

theorem openZip_sound_iff (inflateRaw : Bytes → Option Bytes) (bytes : Bytes) :
    SoundReader inflateRaw bytes ↔ DirectoryFits bytes := by
  constructor
  · intro hsound record hrecord hopens
    obtain ⟨archive, harchive⟩ : ∃ archive, openZip bytes = .ok archive := by
      cases h : openZip bytes with
      | error e =>
        rw [h] at hopens
        cases hopens
      | ok archive => exact ⟨archive, rfl⟩
    cases hcount : record.count with
    | zero => exact Nat.le_add_right _ _
    | succ count => exact (hsound.inside archive record harchive hrecord count (by omega)).2
  · intro hfits
    have hopened : ∀ {archive record}, openZip bytes = .ok archive → endRecord bytes = .ok record →
        archive.entries = (List.range record.count).map fun i =>
          entryAt bytes (entryStart bytes record.directoryOffset i) := by
      intro archive record harchive hrecord
      obtain ⟨record', hrecord', -, -, -, hentries⟩ := openZip_ok harchive
      rw [hrecord] at hrecord'
      cases hrecord'
      exact hentries
    refine ⟨openZip_inBounds bytes, ?reads, ?checked, fun _ _ => hopened, ?inside⟩
    case reads =>
      exact fun archive _ name =>
        ⟨ZipArchive.read_inBounds archive inflateRaw name, ZipArchive.readText_inBounds archive inflateRaw name⟩
    case checked =>
      intro archive _ name contents hread
      obtain ⟨entry, hentry, hchecked⟩ := ZipArchive.read_checked hread
      exact ⟨entry, List.mem_of_find?_eq_some hentry, hentry, hchecked⟩
    case inside =>
      intro archive record harchive hrecord i hi
      have hlast := hfits record hrecord (by rw [harchive]; rfl)
      exact ⟨entryStart_mono bytes _ (Nat.zero_le i),
        Nat.le_trans (entryStart_mono bytes record.directoryOffset hi) hlast⟩

/-- A directory of one entry with no name, whose comment would begin where the directory ends. -/
def overrunArchive : Bytes :=
  Fields.record [(4, CENTRAL_HEADER), (2, 20), (2, 20), (2, 0), (2, STORED), (4, 0), (4, 0), (4, 0), (4, 0),
      (2, 0), (2, 0), (2, 1), (2, 0), (2, 0), (4, 0), (4, 0)] ++
    Fields.record [(4, END_OF_CENTRAL_DIRECTORY), (2, 0), (2, 0), (2, 1), (2, 1), (4, 46), (4, 0), (2, 0)]

theorem overrun_listed : ¬ SoundReader some overrunArchive := by
  intro h
  have hopens : openZip overrunArchive =
    .ok ⟨overrunArchive, [⟨[], 0, STORED, 0, 0, 0, 0⟩]⟩ := by decide +kernel
  have hrecord : endRecord overrunArchive = .ok ⟨1, 46, 0⟩ := by decide +kernel
  have hinside := (h.inside _ _ hopens hrecord 0 (by decide)).2
  exact absurd hinside (by decide +kernel)

end Keyhole.Import
