import Keyhole.Import.Types
import Keyhole.Lib.Fields
import Keyhole.Lib.Unicode

/-!
# The ZIP container

Where the bytes of a member are: the end record behind the archive comment,
the central directory it points at, and the local header each entry of that
points at. The expansion of a deflated member is the platform's.
-/

namespace Keyhole.Import
open Unicode

abbrev Bytes : Type := List UInt8

/-- A refusal with a sentence for the user, or an access outside the file, which the language answers with
an exception or by cutting it short. -/
inductive ZipFailure
  | problem (message : Text)
  | outOfRange
  deriving DecidableEq, Repr

abbrev Reading (α : Type) : Type := Except ZipFailure α

def problem {α : Type} (message : Text) : Reading α := .error (.problem message)

def inRange {α : Type} : Option α → Reading α
  | some a => .ok a
  | none => .error .outOfRange

def getUint16 (view : Bytes) (offset : Nat) : Reading Nat := inRange (Fields.read view 2 offset)

def getUint32 (view : Bytes) (offset : Nat) : Reading Nat := inRange (Fields.read view 4 offset)

def subarray (bytes : Bytes) (start stop : Nat) : Reading Bytes := inRange (Fields.slice bytes start stop)

def LOCAL_HEADER : Nat := 0x04034b50

def CENTRAL_HEADER : Nat := 0x02014b50

def END_OF_CENTRAL_DIRECTORY : Nat := 0x06054b50

def STORED : Nat := 0

def DEFLATED : Nat := 8

def ENCRYPTED : Nat := 0x0001

def ZIP64_MARKER : Nat := 0xffffffff

def END_RECORD_LENGTH : Nat := 22

def LOCAL_HEADER_LENGTH : Nat := 30

def CENTRAL_ENTRY_LENGTH : Nat := 46

def MAX_COMMENT_LENGTH : Nat := 0xffff

def NOT_AN_ARCHIVE : Text :=
  ascii ("This file does not end with a ZIP end-of-central-directory record, so it is " ++
    "not a ZIP archive or the download did not finish")

structure DirectoryEntry where
  name : Text
  flags : Nat
  method : Nat
  checksum : Nat
  compressedSize : Nat
  uncompressedSize : Nat
  localHeaderOffset : Nat
  deriving DecidableEq, Repr

/-! ## CRC-32 -/

def crcBit (value : UInt32) : UInt32 :=
  if value &&& 1 ≠ 0 then (0xedb88320 : UInt32) ^^^ (value >>> 1) else value >>> 1

def crcTable : List UInt32 := (List.range 256).map fun n =>
    (List.range 8).foldl (fun value _ => crcBit value) (.ofNat n)

def crcByte (value : UInt32) (byte : UInt8) : UInt32 :=
  crcTable.getD ((value ^^^ byte.toUInt32) &&& 0xff).toNat 0 ^^^ (value >>> 8)

def crc32 (bytes : Bytes) : Nat := (bytes.foldl crcByte 0xffffffff ^^^ (0xffffffff : UInt32)).toNat

/-! ## The container -/

/-- The end record begins here: its signature, and a comment as long as what follows. -/
def isEndRecord (view : Bytes) (position : Nat) : Reading Bool := do
  if (← getUint32 view position) ≠ END_OF_CENTRAL_DIRECTORY then pure false
  else pure ((← getUint16 view (position + 20)) = view.length - position - END_RECORD_LENGTH)

/-- Backwards from `position`, which is looked at too. -/
def endRecordFrom (view : Bytes) : (steps position : Nat) → Reading (Option Nat)
  | 0, _ => pure none
  | steps + 1, position => do
    if ← isEndRecord view position then pure (some position) else endRecordFrom view steps (position - 1)

def endRecordAt (view : Bytes) : Reading (Option Nat) :=
  let latest := view.length - END_RECORD_LENGTH
  let earliest := latest - MAX_COMMENT_LENGTH
  endRecordFrom view (latest - earliest + 1) latest

def DAMAGED_DIRECTORY : Text :=
  ascii "This archive's central directory is damaged, so its contents could not be listed"

/-- One turn of the loop over the directory: an entry, and where the next one begins. -/
def readEntry (bytes : Bytes) (stop position : Nat) : Reading (DirectoryEntry × Nat) := do
  if position + CENTRAL_ENTRY_LENGTH > stop then problem DAMAGED_DIRECTORY
  else if (← getUint32 bytes position) ≠ CENTRAL_HEADER then problem DAMAGED_DIRECTORY
  else
    let nameLength ← getUint16 bytes (position + 28)
    let extraLength ← getUint16 bytes (position + 30)
    let commentLength ← getUint16 bytes (position + 32)
    let nameEnd := position + CENTRAL_ENTRY_LENGTH + nameLength
    if nameEnd > stop then problem DAMAGED_DIRECTORY
    else
      let name ← subarray bytes (position + CENTRAL_ENTRY_LENGTH) nameEnd
      let flags ← getUint16 bytes (position + 8)
      let method ← getUint16 bytes (position + 10)
      let checksum ← getUint32 bytes (position + 16)
      let compressedSize ← getUint32 bytes (position + 20)
      let uncompressedSize ← getUint32 bytes (position + 24)
      let localHeaderOffset ← getUint32 bytes (position + 42)
      -- a name is decoded without complaint, whatever its bytes
      pure (⟨utf16 (Unicode.withoutBom (lossy name)), flags, method, checksum, compressedSize, uncompressedSize,
        localHeaderOffset⟩,
        nameEnd + extraLength + commentLength)

def readDirectory (bytes : Bytes) (stop : Nat) : (count position : Nat) → Reading (List DirectoryEntry)
  | 0, _ => pure []
  | count + 1, position => do
    let (entry, next) ← readEntry bytes stop position
    let entries ← readDirectory bytes stop count next
    pure (entry :: entries)

def quoted (name : Text) : Text := ascii "\"" ++ name ++ ascii "\""

/-- The stored bytes. The lengths of the name and the extra field are the local header's own. -/
def compressedBytes (bytes : Bytes) (entry : DirectoryEntry) : Reading Bytes := do
  let header := entry.localHeaderOffset
  let misplaced := ascii "This archive's record of where " ++ quoted entry.name ++
    ascii " begins does not point at a file header, so the archive is damaged"
  if header + LOCAL_HEADER_LENGTH > bytes.length then problem misplaced
  else if (← getUint32 bytes header) ≠ LOCAL_HEADER then problem misplaced
  else
    let nameLength ← getUint16 bytes (header + 26)
    let extraLength ← getUint16 bytes (header + 28)
    let start := header + LOCAL_HEADER_LENGTH + nameLength + extraLength
    let stop := start + entry.compressedSize
    if stop > bytes.length then
      problem (ascii "This archive says " ++ quoted entry.name ++ ascii " is " ++ decimal entry.compressedSize ++
        ascii " bytes but the file ends before them, so the download did not finish")
    else subarray bytes start stop

structure ZipArchive where
  bytes : Bytes
  entries : List DirectoryEntry
  deriving DecidableEq, Repr

structure EndRecord where
  count : Nat
  directorySize : Nat
  directoryOffset : Nat
  deriving DecidableEq, Repr

def endRecord (bytes : Bytes) : Reading EndRecord := do
  if bytes.length < END_RECORD_LENGTH then problem NOT_AN_ARCHIVE
  else match ← endRecordAt bytes with
    | none => problem NOT_AN_ARCHIVE
    | some position =>
      let count ← getUint16 bytes (position + 10)
      let directorySize ← getUint32 bytes (position + 12)
      let directoryOffset ← getUint32 bytes (position + 16)
      pure ⟨count, directorySize, directoryOffset⟩

def openZip (bytes : Bytes) : Reading ZipArchive := do
  let record ← endRecord bytes
  let stop := record.directoryOffset + record.directorySize
  if stop > bytes.length then
    problem (ascii "This archive's central directory is recorded outside the file, so the archive is damaged")
  else
    let entries ← readDirectory bytes stop record.count record.directoryOffset
    pure ⟨bytes, entries⟩

namespace ZipArchive
variable (archive : ZipArchive)

def names : List Text := archive.entries.map (·.name)

/-- Of a repeated name the first. -/
def byName (name : Text) : Option DirectoryEntry := archive.entries.find? (·.name = name)

section
-- `none` where the stream is not valid
variable (inflateRaw : Bytes → Option Bytes)

def contents (name : Text) (method : Nat) (stored : Bytes) : Reading Bytes :=
  if method = STORED then pure stored
  else match inflateRaw stored with
    | some contents => pure contents
    | none => problem (ascii "The compressed contents of " ++ quoted name ++
        ascii " could not be expanded, so the file is damaged")

def read (name : Text) : Reading Bytes := do
  match archive.byName name with
  | none =>
    let held := if archive.entries = [] then ascii "nothing" else join (ascii ", ") archive.names
    problem (ascii "This archive has no " ++ quoted name ++ ascii " in it; it holds " ++ held)
  | some entry =>
    if entry.flags &&& ENCRYPTED ≠ 0 then
      problem (ascii "This archive encrypted " ++ quoted name ++
        ascii " with a password, so its contents cannot be read")
    else if entry.compressedSize = ZIP64_MARKER || entry.uncompressedSize = ZIP64_MARKER then
      problem (ascii "This archive records " ++ quoted name ++
        ascii " in the Zip64 format, which Keyhole cannot read")
    else if entry.method ≠ STORED && entry.method ≠ DEFLATED then
      problem (ascii "This archive compressed " ++ quoted name ++ ascii " with method " ++ decimal entry.method ++
        ascii ", which Keyhole cannot read; only stored and deflated entries are supported")
    else
      let stored ← compressedBytes archive.bytes entry
      let contents ← contents inflateRaw name entry.method stored
      if crc32 contents ≠ entry.checksum || contents.length ≠ entry.uncompressedSize then
        problem (ascii "The contents of " ++ quoted name ++
          ascii " do not match the checksum this archive recorded for them, so the file is damaged")
      else pure contents

/-- A byte that cannot be decoded is an error and not a replacement. -/
def readText (name : Text) : Reading Text := do
  let contents ← archive.read inflateRaw name
  match fatal contents with
  | some cs => pure (utf16 (Unicode.withoutBom cs))
  | none => problem (ascii "The contents of " ++ quoted name ++
      ascii " are not valid UTF-8 text, so they could not be read")

end

end ZipArchive

end Keyhole.Import
