import Keyhole.Import.ZipSafety

/-!
# An archive as it is written

Members with a local header each, the directory behind them, the end record and
the archive comment. What the reader does not look at is free: the other fields
of the headers, the extra fields of both, the comments, and what stands between
the members. The end record is found unless another begins behind it.
-/

namespace Keyhole.Import
open Unicode

/-! ## The layout -/

/-- `data` is the contents as the archive holds them. A local header has 22 bytes of its own, among them
sizes that a writer may leave to a descriptor behind the data. -/
structure Member where
  name : List Char
  contents : Bytes
  deflated : Bool
  data : Bytes
  flags : Nat
  versions : Nat
  stamp : Nat
  attributes : Nat
  localFields : Nat
  localExtra : Bytes
  centralExtra : Bytes
  comment : Bytes
  trailing : Bytes

structure Archive where
  preamble : Bytes
  members : List Member
  disks : Nat
  comment : Bytes

namespace Member
variable (m : Member)

def method : Nat := if m.deflated then DEFLATED else STORED

def localHeader : List (Nat × Nat) :=
  [(4, LOCAL_HEADER), (22, m.localFields), (2, (utf8 m.name).length), (2, m.localExtra.length)]

def bytes : Bytes := Fields.record m.localHeader ++ (utf8 m.name ++ (m.localExtra ++ (m.data ++ m.trailing)))

def centralHeader (offset : Nat) : List (Nat × Nat) :=
  [(4, CENTRAL_HEADER), (4, m.versions), (2, m.flags), (2, m.method), (4, m.stamp), (4, crc32 m.contents),
    (4, m.data.length), (4, m.contents.length), (2, (utf8 m.name).length), (2, m.centralExtra.length),
    (2, m.comment.length), (8, m.attributes), (4, offset)]

/-- The member in the directory, with the offset of its local header. -/
def central (offset : Nat) : Bytes :=
  Fields.record (m.centralHeader offset) ++ (utf8 m.name ++ (m.centralExtra ++ m.comment))

/-- Each number has room in its field; `0xffffffff` is no size but the mark of Zip64. -/
structure Representable : Prop where
  name : (utf8 m.name).length < 2 ^ 16
  unmarked : m.name.head? ≠ some byteOrderMark
  flags : m.flags < 2 ^ 16
  plain : m.flags % 2 = 0
  localExtra : m.localExtra.length < 2 ^ 16
  centralExtra : m.centralExtra.length < 2 ^ 16
  comment : m.comment.length < 2 ^ 16
  contents : m.contents.length < ZIP64_MARKER

/-- The data are the contents, stored or deflated. -/
def Holds (inflateRaw : Bytes → Option Bytes) : Prop :=
  if m.deflated then inflateRaw m.data = some m.contents else m.data = m.contents

end Member

def directory : (offset : Nat) → List Member → Bytes
  | _, [] => []
  | offset, m :: members => m.central offset ++ directory (offset + m.bytes.length) members

namespace Archive
variable (a : Archive)

def locals : Bytes := a.preamble ++ a.members.flatMap Member.bytes

def central : Bytes := directory a.preamble.length a.members

def endFields : List (Nat × Nat) :=
  [(4, END_OF_CENTRAL_DIRECTORY), (4, a.disks), (2, a.members.length), (2, a.members.length), (4, a.central.length),
    (4, a.locals.length), (2, a.comment.length)]

def write : Bytes := a.locals ++ (a.central ++ (Fields.record a.endFields ++ a.comment))

def recordStart : Nat := a.locals.length + a.central.length

structure WellFormed (inflateRaw : Bytes → Option Bytes) : Prop where
  count : a.members.length < 2 ^ 16
  size : a.write.length < 2 ^ 32
  comment : a.comment.length < 2 ^ 16
  members : ∀ m ∈ a.members, m.Representable ∧ m.Holds inflateRaw

end Archive

/-- An end record whose comment is what follows it. -/
def SelfConsistent (bytes : Bytes) (position : Nat) : Prop :=
  uint32 bytes position = END_OF_CENTRAL_DIRECTORY ∧
    uint16 bytes (position + 20) = bytes.length - position - END_RECORD_LENGTH

instance (bytes : Bytes) (position : Nat) : Decidable (SelfConsistent bytes position) :=
  inferInstanceAs (Decidable (_ ∧ _))

/-- From `start` on there is no room for a self-consistent end record, or there is none. -/
def NoRecordFrom (bytes : Bytes) (start : Nat) : Prop :=
  ∀ position, start ≤ position → position + END_RECORD_LENGTH ≤ bytes.length →
    ¬ SelfConsistent bytes position

/-- What was written is read: the names in order, and of each name the contents of its first member. -/
def ReadsBack (inflateRaw : Bytes → Option Bytes) (a : Archive) : Prop :=
  ∃ opened, openZip a.write = .ok opened ∧ opened.names = a.members.map (utf16 ·.name) ∧
    ∀ name m, a.members.find? (utf16 ·.name = name) = some m → opened.read inflateRaw name = .ok m.contents

/-! ## Fields of what is written -/

section
variable {fields : List (Nat × Nat)} {k n : Nat}

theorem uint16_record (hk : fields[k]? = some (2, n)) (h : n < 2 ^ 16) (before after : Bytes) :
    uint16 (before ++ (Fields.record fields ++ after)) (before.length + Fields.width (fields.take k)) = n := by
  rw [uint16, Fields.read_record hk h, Option.getD_some]

theorem uint32_record (hk : fields[k]? = some (4, n)) (h : n < 2 ^ 32) (before after : Bytes) :
    uint32 (before ++ (Fields.record fields ++ after)) (before.length + Fields.width (fields.take k)) = n := by
  rw [uint32, Fields.read_record hk h, Option.getD_some]

end

theorem between_append (before bytes after : Bytes) :
    between (before ++ (bytes ++ after)) before.length (before.length + bytes.length) = bytes := by
  unfold between
  rw [List.drop_left, Nat.add_sub_cancel_left, List.take_left]

/-! ## The end record -/

theorem endRecordFrom_finds {bytes : Bytes} {position : Nat} (hhere : SelfConsistent bytes position) (steps : Nat)
    {latest : Nat} (hlatest : latest + END_RECORD_LENGTH ≤ bytes.length) (hle : position ≤ latest)
    (hsteps : latest < position + steps)
    (hnone : ∀ later, position < later → later ≤ latest → ¬ SelfConsistent bytes later) :
    endRecordFrom bytes steps latest = .ok (some position) := by
  induction steps generalizing latest with
  | zero => omega
  | succ steps ih =>
    have hcheck : isEndRecord bytes latest = .ok (decide (SelfConsistent bytes latest)) := isEndRecord_eq hlatest
    rw [endRecordFrom, hcheck]
    by_cases heq : latest = position
    · subst heq
      simp [hhere, bind, Except.bind, pure, Except.pure]
    · have hlater := hnone latest (by omega) (Nat.le_refl _)
      simp only [hlater, decide_false, bind, Except.bind, Bool.false_eq_true, if_false]
      exact @ih (latest - 1) (by omega) (by omega) (by omega) fun later h1 h2 => hnone later h1 (by omega)

namespace Archive
variable {a : Archive}

theorem length_write (a : Archive) :
    a.write.length = a.recordStart + END_RECORD_LENGTH + a.comment.length := by
  have hrecord : (Fields.record a.endFields).length = END_RECORD_LENGTH := by
    rw [Fields.length_record]
    rfl
  unfold write recordStart
  simp only [List.length_append, hrecord]
  omega

theorem recordStart_eq (a : Archive) : a.recordStart = (a.locals ++ a.central).length := by
  rw [List.length_append, recordStart]

theorem write_eq (a : Archive) : a.write = (a.locals ++ a.central) ++ (Fields.record a.endFields ++ a.comment) := by
  unfold write
  simp only [List.append_assoc]

theorem endFields_uint16 {k n : Nat} (hk : a.endFields[k]? = some (2, n)) (hn : n < 2 ^ 16) :
    uint16 a.write (a.recordStart + Fields.width (a.endFields.take k)) = n := by
  have hread := uint16_record hk hn (a.locals ++ a.central) a.comment
  rwa [← write_eq, ← recordStart_eq] at hread

theorem endFields_uint32 {k n : Nat} (hk : a.endFields[k]? = some (4, n)) (hn : n < 2 ^ 32) :
    uint32 a.write (a.recordStart + Fields.width (a.endFields.take k)) = n := by
  have hread := uint32_record hk hn (a.locals ++ a.central) a.comment
  rwa [← write_eq, ← recordStart_eq] at hread

section
variable {inflateRaw : Bytes → Option Bytes} (h : a.WellFormed inflateRaw)
include h

theorem WellFormed.selfConsistent : SelfConsistent a.write a.recordStart := by
  refine ⟨endFields_uint32 (k := 0) rfl (by decide), ?_⟩
  have hcomment := endFields_uint16 (k := 6) rfl h.comment
  change uint16 a.write (a.recordStart + 20) = _ at hcomment
  rw [hcomment, length_write]
  omega

theorem WellFormed.endRecord (hlast : NoRecordFrom a.write (a.recordStart + 1)) :
    endRecord a.write = .ok ⟨a.members.length, a.central.length, a.locals.length⟩ := by
  have hlen := a.length_write
  have hsize := h.size
  have hcomment := h.comment
  have hfound : endRecordAt a.write = .ok (some a.recordStart) := by
    unfold endRecordAt
    simp only
    apply endRecordFrom_finds h.selfConsistent
    · simp only [END_RECORD_LENGTH] at hlen ⊢
      omega
    · omega
    · simp only [MAX_COMMENT_LENGTH] at hlen ⊢
      omega
    · intro later hlater hle
      apply hlast later hlater
      simp only [END_RECORD_LENGTH] at hlen hle ⊢
      omega
  have hcount := endFields_uint16 (k := 3) rfl h.count
  have hcentral := endFields_uint32 (k := 4) rfl (show a.central.length < 2 ^ 32 by
    unfold recordStart at hlen
    omega)
  have hlocals := endFields_uint32 (k := 5) rfl (show a.locals.length < 2 ^ 32 by
    unfold recordStart at hlen
    omega)
  change uint16 a.write (a.recordStart + 10) = _ at hcount
  change uint32 a.write (a.recordStart + 12) = _ at hcentral
  change uint32 a.write (a.recordStart + 16) = _ at hlocals
  simp only [END_RECORD_LENGTH] at hlen
  unfold Keyhole.Import.endRecord
  rw [if_neg (by simp only [END_RECORD_LENGTH]; omega), hfound]
  simp only [bind, Except.bind]
  rw [getUint16_eq (by omega), getUint32_eq (by omega), getUint32_eq (by omega), hcount, hcentral, hlocals]
  rfl

end

end Archive

/-! ## The directory -/

theorem decoded_name {cs : List Char} (h : cs.head? ≠ some byteOrderMark) :
    utf16 (Unicode.withoutBom (lossy (utf8 cs))) = utf16 cs := by
  rw [lossy_utf8]
  cases cs with
  | nil => rfl
  | cons c cs =>
    rw [Unicode.withoutBom, if_neg]
    simpa using h

theorem crc32_lt (bytes : Bytes) : crc32 bytes < 2 ^ 32 :=
  (bytes.foldl crcByte 0xffffffff ^^^ (0xffffffff : UInt32)).toNat_lt

namespace Member
variable {m : Member}

def directoryEntry (m : Member) (offset : Nat) : DirectoryEntry :=
  ⟨utf16 m.name, m.flags, m.method, crc32 m.contents, m.data.length, m.contents.length, offset⟩

theorem length_central (m : Member) (offset : Nat) : (m.central offset).length =
    CENTRAL_ENTRY_LENGTH + (utf8 m.name).length + m.centralExtra.length + m.comment.length := by
  have hheader : Fields.width (m.centralHeader offset) = CENTRAL_ENTRY_LENGTH := rfl
  unfold central
  simp only [List.length_append, Fields.length_record, hheader]
  omega

theorem length_bytes (m : Member) : m.bytes.length =
    LOCAL_HEADER_LENGTH + (utf8 m.name).length + m.localExtra.length + m.data.length + m.trailing.length := by
  have hheader : Fields.width m.localHeader = LOCAL_HEADER_LENGTH := rfl
  unfold bytes
  simp only [List.length_append, Fields.length_record, hheader]
  omega

theorem method_lt (m : Member) : m.method < 2 ^ 16 := by
  unfold method
  split <;> decide

theorem readEntry_central (hm : m.Representable) (hdata : m.data.length < 2 ^ 32) {offset : Nat}
    (hoffset : offset < 2 ^ 32)
    {file before after : Bytes} (hfile : file = before ++ (m.central offset ++ after)) {stop : Nat}
    (hstop : before.length + (m.central offset).length ≤ stop) (hinside : stop ≤ file.length) :
    readEntry file stop before.length =
      .ok (m.directoryEntry offset, before.length + (m.central offset).length) := by
  have hsplit : file = before ++ (Fields.record (m.centralHeader offset) ++
      ((utf8 m.name ++ (m.centralExtra ++ m.comment)) ++ after)) := by
    rw [hfile, central, List.append_assoc]
  have h16 : ∀ {k n : Nat}, (m.centralHeader offset)[k]? = some (2, n) → n < 2 ^ 16 →
      uint16 file (before.length + Fields.width ((m.centralHeader offset).take k)) = n := by
    intro k n hk hn
    rw [hsplit]
    exact uint16_record hk hn before _
  have h32 : ∀ {k n : Nat}, (m.centralHeader offset)[k]? = some (4, n) → n < 2 ^ 32 →
      uint32 file (before.length + Fields.width ((m.centralHeader offset).take k)) = n := by
    intro k n hk hn
    rw [hsplit]
    exact uint32_record hk hn before _
  have hsignature : uint32 file before.length = CENTRAL_HEADER := h32 (k := 0) rfl (by decide)
  have hflags : uint16 file (before.length + 8) = m.flags := h16 (k := 2) rfl hm.flags
  have hmethod : uint16 file (before.length + 10) = m.method := h16 (k := 3) rfl m.method_lt
  have hchecksum : uint32 file (before.length + 16) = crc32 m.contents := h32 (k := 5) rfl (crc32_lt _)
  have hcompressed : uint32 file (before.length + 20) = m.data.length := h32 (k := 6) rfl hdata
  have huncompressed : uint32 file (before.length + 24) = m.contents.length :=
    h32 (k := 7) rfl (Nat.lt_trans hm.contents (by decide))
  have hname : uint16 file (before.length + 28) = (utf8 m.name).length := h16 (k := 8) rfl hm.name
  have hextra : uint16 file (before.length + 30) = m.centralExtra.length := h16 (k := 9) rfl hm.centralExtra
  have hcomment : uint16 file (before.length + 32) = m.comment.length := h16 (k := 10) rfl hm.comment
  have hlocal : uint32 file (before.length + 42) = offset := h32 (k := 12) rfl hoffset
  have hbetween : between file (before.length + CENTRAL_ENTRY_LENGTH)
      (before.length + CENTRAL_ENTRY_LENGTH + (utf8 m.name).length) = utf8 m.name := by
    have hlen : (before ++ Fields.record (m.centralHeader offset)).length =
      before.length + CENTRAL_ENTRY_LENGTH := by
      rw [List.length_append, Fields.length_record]
      rfl
    have hread := between_append (before ++ Fields.record (m.centralHeader offset)) (utf8 m.name)
      (m.centralExtra ++ (m.comment ++ after))
    rw [hlen] at hread
    rw [hsplit]
    simpa only [List.append_assoc] using hread
  have hlength := m.length_central offset
  have hfits : EntryFits file stop before.length :=
    ⟨by omega, hsignature, by rw [hname]; omega⟩
  rw [readEntry_eq hinside, if_pos hfits]
  unfold entryAt entryEnd directoryEntry
  rw [hname, hbetween, decoded_name hm.unmarked, hflags, hmethod, hchecksum, hcompressed, huncompressed,
    hlocal, hextra,
    hcomment, hlength]
  simp only [Nat.add_assoc]

end Member

def directoryEntries : (offset : Nat) → List Member → List DirectoryEntry
  | _, [] => []
  | offset, m :: members => m.directoryEntry offset :: directoryEntries (offset + m.bytes.length) members

theorem directoryEntries_names (offset : Nat) (members : List Member) :
    (directoryEntries offset members).map (·.name) = members.map (utf16 ·.name) := by
  induction members generalizing offset with
  | nil => rfl
  | cons m members ih => rw [directoryEntries, List.map_cons, ih, List.map_cons]; rfl

theorem readDirectory_directory {file : Bytes} {stop : Nat} (hinside : stop ≤ file.length) (members : List Member)
    {offset : Nat} {before after : Bytes} (hfile : file = before ++ (directory offset members ++ after))
    (hmembers : ∀ m ∈ members, m.Representable) (hsize : offset + (members.flatMap Member.bytes).length < 2 ^ 32)
    (hstop : before.length + (directory offset members).length ≤ stop) :
    readDirectory file stop members.length before.length = .ok (directoryEntries offset members) := by
  induction members generalizing offset before with
  | nil => rfl
  | cons m members ih =>
    rw [List.forall_mem_cons] at hmembers
    rw [List.flatMap_cons, List.length_append] at hsize
    rw [directory, List.length_append] at hstop
    rw [directory, List.append_assoc] at hfile
    have hlen := m.length_bytes
    have hentry := Member.readEntry_central hmembers.1 (by omega) (by omega) hfile (by omega) hinside
    have hrest := @ih (offset + m.bytes.length) (before ++ m.central offset)
      (by rw [hfile, List.append_assoc]) hmembers.2
      (by omega) (by rw [List.length_append]; omega)
    rw [List.length_append] at hrest
    rw [List.length_cons, readDirectory, hentry]
    simp only [bind, Except.bind, hrest]
    rfl

/-! ## A member -/

namespace Member
variable {m : Member}

theorem compressedBytes_bytes (hm : m.Representable) {file before after : Bytes}
    (hfile : file = before ++ (m.bytes ++ after)) :
    compressedBytes file (m.directoryEntry before.length) = .ok m.data := by
  have hsplit : file = before ++ (Fields.record m.localHeader ++
      ((utf8 m.name ++ (m.localExtra ++ (m.data ++ m.trailing))) ++ after)) := by
    rw [hfile, bytes, List.append_assoc]
  have hsignature : uint32 file before.length = LOCAL_HEADER := by
    rw [hsplit]
    exact uint32_record (k := 0) rfl (by decide) before _
  have hname : uint16 file (before.length + 26) = (utf8 m.name).length := by
    rw [hsplit]
    exact @uint16_record m.localHeader 2 _ rfl hm.name before _
  have hextra : uint16 file (before.length + 28) = m.localExtra.length := by
    rw [hsplit]
    exact @uint16_record m.localHeader 3 _ rfl hm.localExtra before _
  have hbetween : between file (before.length + LOCAL_HEADER_LENGTH + (utf8 m.name).length + m.localExtra.length)
      (before.length + LOCAL_HEADER_LENGTH + (utf8 m.name).length + m.localExtra.length + m.data.length) =
        m.data := by
    have hlen : (before ++ Fields.record m.localHeader ++ utf8 m.name ++ m.localExtra).length =
        before.length + LOCAL_HEADER_LENGTH + (utf8 m.name).length + m.localExtra.length := by
      simp only [List.length_append, Fields.length_record]
      rfl
    have hread := between_append (before ++ Fields.record m.localHeader ++ utf8 m.name ++ m.localExtra) m.data
      (m.trailing ++ after)
    rw [hlen] at hread
    rw [hsplit]
    simpa only [List.append_assoc] using hread
  have hlength : file.length = before.length + m.bytes.length + after.length := by
    rw [hfile, List.length_append, List.length_append]
    omega
  have hbytes := m.length_bytes
  have hheader : LOCAL_HEADER_LENGTH = 30 := rfl
  unfold compressedBytes directoryEntry
  simp only
  rw [if_neg (by omega), getUint32_eq (by omega), hsignature]
  simp only [bind, Except.bind, ne_eq, not_true, if_false]
  rw [getUint16_eq (by omega), getUint16_eq (by omega), hname, hextra]
  simp only
  rw [if_neg (by omega), subarray_eq (by omega) (by omega), hbetween]

theorem find_directoryEntries {members : List Member} {name : Text}
    (h : members.find? (utf16 ·.name = name) = some m) (offset : Nat) :
    ∃ before after, members.flatMap Member.bytes = before ++ (m.bytes ++ after) ∧
      (directoryEntries offset members).find? (·.name = name) =
        some (m.directoryEntry (offset + before.length)) := by
  induction members generalizing offset with
  | nil => cases h
  | cons first members ih =>
    by_cases hname : utf16 first.name = name
    · rw [List.find?_cons_of_pos (by simpa using hname)] at h
      cases h
      refine ⟨[], members.flatMap Member.bytes, by rw [List.flatMap_cons]; rfl, ?_⟩
      rw [directoryEntries, List.find?_cons_of_pos]
      · rfl
      · exact decide_eq_true hname
    · rw [List.find?_cons_of_neg (by simpa using hname)] at h
      obtain ⟨before, after, hbytes, hfind⟩ := ih h (offset + first.bytes.length)
      refine ⟨first.bytes ++ before, after, by rw [List.flatMap_cons, hbytes, List.append_assoc], ?_⟩
      rw [directoryEntries, List.find?_cons_of_neg]
      · rw [hfind, List.length_append, Nat.add_assoc]
      · exact fun h => hname (of_decide_eq_true h)

end Member

theorem read_member {inflateRaw : Bytes → Option Bytes} {m : Member} (hm : m.Representable)
    (hholds : m.Holds inflateRaw) {opened : ZipArchive} {name : Text} {before after : Bytes}
    (hbytes : opened.bytes = before ++ (m.bytes ++ after))
    (hentry : opened.byName name = some (m.directoryEntry before.length)) (hdata : m.data.length < ZIP64_MARKER) :
    opened.read inflateRaw name = .ok m.contents := by
  have hplain : ¬ (m.flags &&& ENCRYPTED ≠ 0) := by
    rw [ENCRYPTED, Nat.and_one_is_mod, hm.plain]
    simp
  have hcontents : ZipArchive.contents inflateRaw name m.method m.data = .ok m.contents := by
    unfold Member.Holds at hholds
    unfold ZipArchive.contents Member.method
    cases hdeflated : m.deflated with
    | true =>
      simp only [hdeflated, if_true] at hholds
      simp [hholds, DEFLATED, STORED, pure, Except.pure]
    | false =>
      simp only [hdeflated, Bool.false_eq_true, if_false] at hholds
      simp [hholds, pure, Except.pure]
  have hmethod : (m.method ≠ STORED && m.method ≠ DEFLATED) = false := by
    unfold Member.method
    split <;> rfl
  unfold ZipArchive.read
  simp only [hentry]
  have hsizes : ¬ (m.data.length = ZIP64_MARKER || m.contents.length = ZIP64_MARKER) = true := by
    simp only [Bool.or_eq_true, decide_eq_true_eq]
    have := hm.contents
    omega
  have hcompressed := Member.compressedBytes_bytes hm hbytes
  unfold Member.directoryEntry at hcompressed ⊢
  simp only [if_neg hplain, if_neg hsizes, hmethod, hcompressed, hcontents, bind, Except.bind, Bool.false_eq_true,
    if_false]
  simp [pure, Except.pure]

theorem write_readsBack {inflateRaw : Bytes → Option Bytes} {a : Archive} (h : a.WellFormed inflateRaw)
    (hlast : NoRecordFrom a.write (a.recordStart + 1)) : ReadsBack inflateRaw a := by
  have hlen := a.length_write
  have hsize := h.size
  have hlocals : a.locals.length = a.preamble.length + (a.members.flatMap Member.bytes).length := List.length_append
  unfold Archive.recordStart at hlen
  have hfile : a.write =
      a.locals ++ (directory a.preamble.length a.members ++ (Fields.record a.endFields ++ a.comment)) := rfl
  have hentries : readDirectory a.write (a.locals.length + a.central.length) a.members.length a.locals.length =
      .ok (directoryEntries a.preamble.length a.members) :=
    readDirectory_directory (by omega) a.members hfile (fun m hm => (h.members m hm).1) (by omega) (Nat.le_refl _)
  refine ⟨⟨a.write, directoryEntries a.preamble.length a.members⟩, ?_, directoryEntries_names _ _,
    fun name m hfind => ?_⟩
  · unfold openZip
    rw [h.endRecord hlast]
    simp only [bind, Except.bind]
    rw [if_neg (by omega), hentries]
    rfl
  · have hm := h.members m (List.mem_of_find?_eq_some hfind)
    obtain ⟨before, after, hbytes, hentry⟩ := Member.find_directoryEntries hfind a.preamble.length
    have hmlen := m.length_bytes
    have hin : m.bytes.length ≤ (a.members.flatMap Member.bytes).length := by
      rw [hbytes, List.length_append, List.length_append]
      omega
    have hheader : LOCAL_HEADER_LENGTH = 30 := rfl
    have hwrite : a.write = (a.preamble ++ before) ++
        (m.bytes ++ (after ++ (a.central ++ (Fields.record a.endFields ++ a.comment)))) := by
      unfold Archive.write Archive.locals
      rw [hbytes]
      simp only [List.append_assoc]
    refine read_member hm.1 hm.2 hwrite ?_ ?_
    · rw [List.length_append]
      exact hentry
    · simp only [ZIP64_MARKER]
      omega

/-- Of deflated data, one block that is stored. -/
def inflateBlock : Bytes → Option Bytes
  | final :: l₀ :: l₁ :: n₀ :: n₁ :: rest =>
    if final = 1 ∧ n₀ = ~~~l₀ ∧ n₁ = ~~~l₁ ∧ l₀.toNat + 256 * l₁.toNat = rest.length then
      some rest
    else none
  | _ => none

def emptyMember : Member where
  name := ['a']
  contents := []
  deflated := false
  data := []
  flags := 0
  versions := 0x140014
  stamp := 0
  attributes := 0
  localFields := 0x14
  localExtra := []
  centralExtra := []
  comment := []
  trailing := []

/-- Two members of one name, the first of them deflated, and a comment that begins as an end record does. -/
def namesakes : Archive where
  preamble := []
  members := [{ emptyMember with
      contents := [0x68, 0x69]
      deflated := true
      data := [1, 2, 0, 0xFD, 0xFF, 0x68, 0x69]
      localExtra := [1]
      centralExtra := [2, 3]
      trailing := [4] }, emptyMember]
  disks := 0
  comment := Fields.encode 4 END_OF_CENTRAL_DIRECTORY

theorem write_readsBack_namesakes : ReadsBack inflateBlock namesakes := by
  have hlength : namesakes.write.length = 193 := by decide +kernel
  have hstart : namesakes.recordStart = 167 := by decide +kernel
  have hnone : ∀ position ∈ [168, 169, 170, 171], ¬ SelfConsistent namesakes.write position := by decide +kernel
  apply write_readsBack
  · refine ⟨by decide, by omega, by decide, ?_⟩
    simp only [namesakes, List.forall_mem_cons, List.not_mem_nil, IsEmpty.forall_iff, implies_true, and_true]
    refine ⟨⟨?_, rfl⟩, ?_, rfl⟩
    · exact ⟨by decide, by decide, by decide, by decide, by decide, by decide, by decide, by decide⟩
    · exact ⟨by decide, by decide, by decide, by decide, by decide, by decide, by decide, by decide⟩
  · intro position hposition hinside
    rw [hstart] at hposition
    rw [hlength, END_RECORD_LENGTH] at hinside
    apply hnone
    simp only [List.mem_cons, List.not_mem_nil, or_false]
    omega

/-! ## An end record across the end record -/

theorem length_directory_replicate (m : Member) (n offset : Nat) : (directory offset (List.replicate n m)).length =
    n * (CENTRAL_ENTRY_LENGTH + (utf8 m.name).length + m.centralExtra.length + m.comment.length) := by
  induction n generalizing offset with
  | zero => simp [directory]
  | succ n ih =>
    rw [List.replicate_succ, directory, List.length_append, Member.length_central, ih, Nat.succ_mul]
    omega

theorem length_bytes_replicate (m : Member) (n : Nat) :
    ((List.replicate n m).flatMap Member.bytes).length = n * m.bytes.length := by
  induction n with
  | zero => simp
  | succ n ih =>
    rw [List.replicate_succ, List.flatMap_cons, List.length_append, ih, Nat.succ_mul]
    omega

/-- The last place for an end record has one, and its directory is outside the file. -/
theorem openZip_outside {bytes : Bytes} {position : Nat} (hlength : bytes.length = position + END_RECORD_LENGTH)
    (hhere : SelfConsistent bytes position)
    (houtside : bytes.length < uint32 bytes (position + 16) + uint32 bytes (position + 12)) :
    ∃ message, openZip bytes = problem message := by
  have hrecord : endRecord bytes =
      .ok ⟨uint16 bytes (position + 10), uint32 bytes (position + 12), uint32 bytes (position + 16)⟩ := by
    have hfound : endRecordAt bytes = .ok (some position) := by
      unfold endRecordAt
      simp only
      apply endRecordFrom_finds hhere
      · omega
      · omega
      · omega
      · intro later h1 h2
        omega
    simp only [END_RECORD_LENGTH] at hlength
    unfold endRecord
    rw [if_neg (by simp only [END_RECORD_LENGTH]; omega), hfound]
    simp only [bind, Except.bind]
    rw [getUint16_eq (by omega), getUint32_eq (by omega), getUint32_eq (by omega)]
    rfl
  unfold openZip
  rw [hrecord]
  simp only [bind, Except.bind]
  rw [if_pos houtside]
  exact ⟨_, rfl⟩

/-- The end of an archive of 19280 members in a directory of 919045 bytes: their number and the size of it are
the signature of an end record, and the rest of that record is the comment. -/
structure Straddled (a : Archive) : Prop where
  locals : a.locals.length = 597680
  central : a.central.length = 919045
  members : a.members.length = 19280
  disks : a.disks = 0
  comment : a.comment = [0xFF, 0xFF, 0xFF, 0xFF, 0xFF, 0xFF, 0xFF, 0xFF, 0, 0]

def straddledEnd : Bytes :=
  Fields.record [(4, END_OF_CENTRAL_DIRECTORY), (4, 0), (2, 19280), (2, 19280), (4, 919045),
    (4, 597680), (2, 10)] ++
    [0xFF, 0xFF, 0xFF, 0xFF, 0xFF, 0xFF, 0xFF, 0xFF, 0, 0]

section
variable {a : Archive} (h : Straddled a)
include h

theorem Straddled.write : a.write = (a.locals ++ a.central) ++ straddledEnd := by
  have hten : a.comment.length = 10 := by
    rw [h.comment]
    rfl
  rw [Archive.write_eq, Archive.endFields, h.members, h.central, h.locals, h.disks, hten, h.comment, straddledEnd]

theorem Straddled.uint16_eq (offset : Nat) :
    uint16 a.write (a.recordStart + offset) = uint16 straddledEnd offset := by
  rw [uint16, h.write, Archive.recordStart_eq, Fields.read_after, uint16]

theorem Straddled.uint32_eq (offset : Nat) :
    uint32 a.write (a.recordStart + offset) = uint32 straddledEnd offset := by
  rw [uint32, h.write, Archive.recordStart_eq, Fields.read_after, uint32]

theorem Straddled.length : a.write.length = a.recordStart + 32 := by
  rw [Archive.length_write, h.comment, END_RECORD_LENGTH]
  rfl

/-- The comment is too short for an end record, and the archive is not read. -/
theorem Straddled.unread (inflateRaw : Bytes → Option Bytes) :
    NoRecordFrom a.write (a.recordStart + END_RECORD_LENGTH) ∧ ¬ ReadsBack inflateRaw a := by
  have hlength := h.length
  have hstart : a.recordStart = 1516725 := by rw [Archive.recordStart, h.locals, h.central]
  refine ⟨fun position hposition hinside => ?_, fun ⟨opened, hopened, _⟩ => ?_⟩
  · simp only [END_RECORD_LENGTH] at hposition hinside
    omega
  · have hhere : SelfConsistent a.write (a.recordStart + 10) := by
      have hzero : uint16 straddledEnd (10 + 20) = 0 := by decide +kernel
      refine ⟨by rw [h.uint32_eq]; decide +kernel, ?_⟩
      rw [Nat.add_assoc, h.uint16_eq, hzero, hlength, END_RECORD_LENGTH]
      omega
    have houtside : a.write.length <
        uint32 a.write (a.recordStart + 10 + 16) + uint32 a.write (a.recordStart + 10 + 12) := by
      rw [Nat.add_assoc, Nat.add_assoc, h.uint32_eq, h.uint32_eq, hlength, hstart]
      decide +kernel
    obtain ⟨message, hproblem⟩ := openZip_outside (by rw [hlength, END_RECORD_LENGTH]) hhere houtside
    rw [hproblem] at hopened
    cases hopened

end

def stuffedMember : Member := { emptyMember with comment := List.replicate 12885 0 }

theorem stuffedMember_comment : stuffedMember.comment.length = 12885 := by
  unfold stuffedMember
  exact List.length_replicate

def straddling : Archive where
  preamble := []
  members := stuffedMember :: List.replicate 19279 emptyMember
  disks := 0
  comment := [0xFF, 0xFF, 0xFF, 0xFF, 0xFF, 0xFF, 0xFF, 0xFF, 0, 0]

theorem straddling_locals : straddling.locals.length = 597680 := by
  have hempty : emptyMember.bytes.length = 31 := by decide
  have hstuffed : stuffedMember.bytes.length = 31 := by
    rw [Member.length_bytes]
    decide
  unfold Archive.locals straddling
  rw [List.nil_append, List.flatMap_cons, List.length_append, length_bytes_replicate, hempty, hstuffed]

theorem straddling_central : straddling.central.length = 919045 := by
  have hempty : CENTRAL_ENTRY_LENGTH + (utf8 emptyMember.name).length + emptyMember.centralExtra.length +
      emptyMember.comment.length = 47 := by decide
  have hstuffed : CENTRAL_ENTRY_LENGTH + (utf8 stuffedMember.name).length +
    stuffedMember.centralExtra.length = 47 :=
    by decide
  unfold Archive.central straddling
  rw [directory, List.length_append, length_directory_replicate, Member.length_central, hempty, hstuffed,
    stuffedMember_comment]

theorem straddling_members : straddling.members.length = 19280 := by
  unfold straddling
  rw [List.length_cons, List.length_replicate]

theorem straddling_straddled : Straddled straddling :=
  ⟨straddling_locals, straddling_central, straddling_members, rfl, rfl⟩

theorem straddling_wellFormed : straddling.WellFormed inflateBlock := by
  have hcount : straddling.members.length < 2 ^ 16 := by
    rw [straddling_members]
    decide
  have hsize : straddling.write.length < 2 ^ 32 := by
    rw [Archive.length_write, Archive.recordStart, straddling_locals, straddling_central]
    decide
  refine ⟨hcount, hsize, by decide, fun m hm => ?_⟩
  have hempty : emptyMember.Representable :=
    ⟨by decide, by decide, by decide, by decide, by decide, by decide, by decide, by decide⟩
  cases List.mem_cons.mp hm with
  | inl hfirst =>
    rw [hfirst]
    have hcomment : stuffedMember.comment.length < 2 ^ 16 := by
      rw [stuffedMember_comment]
      decide
    exact ⟨⟨hempty.name, hempty.unmarked, hempty.flags, hempty.plain, hempty.localExtra,
      hempty.centralExtra, hcomment,
      hempty.contents⟩, rfl⟩
  | inr hrest =>
    rw [List.eq_of_mem_replicate hrest]
    exact ⟨hempty, rfl⟩

theorem straddling_unread : straddling.WellFormed inflateBlock ∧
    NoRecordFrom straddling.write (straddling.recordStart + END_RECORD_LENGTH) ∧
      ¬ ReadsBack inflateBlock straddling :=
  ⟨straddling_wellFormed, straddling_straddled.unread inflateBlock⟩

end Keyhole.Import
