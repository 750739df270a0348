import Keyhole.Import.Types
import Keyhole.Lib.Csv

/-!
# The CSV reader

One pass over the text, one code unit at a time with a look at the next. What
has been read of the current record is in the state; a record that is damaged
is reported once and read on.
-/

namespace Keyhole.Import

def QUOTE : CodeUnit := 0x22
def DELIMITER : CodeUnit := 0x2C
def BOM : CodeUnit := 0xFEFF
def CR : CodeUnit := 0x0D
def LF : CodeUnit := 0x0A

structure RawRecord where
  line : Nat
  fields : List Text
  blank : Bool
  deriving DecidableEq, Repr

structure ScanResult where
  records : List RawRecord
  errors : List ImportRowError
  deriving DecidableEq, Repr

structure Scan where
  records : List RawRecord
  errors : List ImportRowError
  fields : List Text
  field : Text
  inQuotes : Bool
  fieldWasQuoted : Bool
  recordHadQuote : Bool
  recordReported : Bool
  line : Nat
  recordLine : Nat
  quoteOpenedLine : Nat
  deriving DecidableEq, Repr

def Scan.start : Scan where
  records := []
  errors := []
  fields := []
  field := []
  inQuotes := false
  fieldWasQuoted := false
  recordHadQuote := false
  recordReported := false
  line := 1
  recordLine := 1
  quoteOpenedLine := 1

def Scan.endField (st : Scan) : Scan :=
  { st with fields := st.fields ++ [st.field], field := [], fieldWasQuoted := false }

def Scan.endRecord (st : Scan) : Scan :=
  let st := st.endField
  { st with
    records := st.records ++
      [⟨st.recordLine, st.fields, !st.recordHadQuote && st.fields.length == 1 && st.fields.head? == some []⟩]
    fields := []
    recordHadQuote := false
    recordReported := false }

def undoubled : Text := ascii "This row has a quote inside a quoted field that is not doubled"

def endsField (next : Option CodeUnit) : Bool :=
  next == none || next == some DELIMITER || next == some CR || next == some LF

def Scan.close (st : Scan) (next : Option CodeUnit) : Scan :=
  if !endsField next && !st.recordReported then
    { st with inQuotes := false, recordReported := true, errors := st.errors ++ [⟨st.recordLine, undoubled⟩] }
  else { st with inQuotes := false }

def Scan.open (st : Scan) : Scan :=
  { st with inQuotes := true, fieldWasQuoted := true, recordHadQuote := true, quoteOpenedLine := st.line }

def Scan.push (st : Scan) (ch : CodeUnit) : Scan := { st with field := st.field ++ [ch] }

/-- Inside quotes everything is data, and a line feed is a line of the file. -/
def Scan.quotedData (st : Scan) (ch : CodeUnit) : Scan :=
  { st with line := if ch = LF then st.line + 1 else st.line, field := st.field ++ [ch] }

def Scan.terminate (st : Scan) : Scan :=
  { st.endRecord with line := st.line + 1, recordLine := st.line + 1 }

/-- The state after `ch`, and whether `next` has been consumed with it. -/
def Scan.step (st : Scan) (ch : CodeUnit) (next : Option CodeUnit) : Scan × Bool :=
  if st.inQuotes then
    if ch = QUOTE then
      if next = some QUOTE then (st.push QUOTE, true)
      else (st.close next, false)
    else (st.quotedData ch, false)
  else if ch = QUOTE && st.field == [] && !st.fieldWasQuoted then (st.open, false)
  else if ch = DELIMITER then (st.endField, false)
  else if ch = CR || ch = LF then (st.terminate, ch = CR && next = some LF)
  else (st.push ch, false)

def Scan.run (st : Scan) : Text → Scan
  | [] => st
  | [ch] => (st.step ch none).1
  | ch :: next :: text =>
    match st.step ch (some next) with
    | (st, true) => st.run text
    | (st, false) => st.run (next :: text)

/-- How much of the file one unclosed quote has swallowed is part of the message. -/
def unclosed (swallowed : Nat) : Text :=
  if swallowed = 0 then ascii "This row opens a quoted field that is never closed"
  else ascii "This row opens a quoted field that is never closed; the remaining " ++ decimal swallowed ++
    ascii (if swallowed = 1 then " line" else " lines") ++ ascii " of the file " ++
    ascii (if swallowed = 1 then "was" else "were") ++ ascii " read as part of it"

def Scan.pending (st : Scan) : Bool :=
  st.field != [] || !st.fields.isEmpty || st.fieldWasQuoted || st.inQuotes

def Scan.reportUnclosed (st : Scan) : Scan :=
  { st with errors := st.errors ++ [⟨st.recordLine, unclosed (st.line - st.quoteOpenedLine)⟩] }

def Scan.finish (st : Scan) : Scan :=
  let st := if st.inQuotes then st.reportUnclosed else st
  if st.pending then st.endRecord else st

def Scan.result (st : Scan) : ScanResult := ⟨st.records, st.errors⟩

def scan (text : Text) : ScanResult := (Scan.start.run text).finish.result

/-! ## What the reader returns -/

structure CsvRecord where
  line : Nat
  values : List Text
  deriving DecidableEq, Repr

structure CsvRecords where
  rows : List CsvRecord
  errors : List ImportRowError
  deriving DecidableEq, Repr

/-- `extra` are the values past the end of the header. -/
structure CsvRow where
  line : Nat
  values : List Text
  extra : List Text
  deriving DecidableEq, Repr

structure CsvTable where
  header : List Text
  rows : List CsvRow
  errors : List ImportRowError
  deriving DecidableEq, Repr

def buildRow (record : RawRecord) (width : Nat) : CsvRow := ⟨record.line, record.fields, record.fields.drop width⟩

def withoutBom (text : Text) : Text := if text.head? = some BOM then text.tail else text

def parseCsvRecords (text : Text) : CsvRecords :=
  let ⟨records, errors⟩ := scan (withoutBom text)
  ⟨(records.filter (!·.blank)).map fun record => ⟨record.line, record.fields⟩, errors⟩

def parseCsv (text : Text) : CsvTable :=
  let ⟨records, errors⟩ := scan (withoutBom text)
  match records.filter (!·.blank) with
  | [] => ⟨[], [], errors⟩
  | headerRecord :: meaningful =>
    ⟨headerRecord.fields, meaningful.map (buildRow · headerRecord.fields.length), errors⟩

end Keyhole.Import
