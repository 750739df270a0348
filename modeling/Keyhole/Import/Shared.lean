import Keyhole.Import.Csv

/-!
# What the parsers share

A header is addressed by name, a row becomes an item or the reason it is not
one, and a row the reader has found damaged is not looked at.
-/

namespace Keyhole.Import

abbrev RowOutcome : Type := Except ImportRowError ImportItem

/-- `keys` are the names of the header, trimmed and lowercased. -/
structure Columns where
  header : List Text
  keys : List Text

def indexColumns (p : Platform) (header : List Text) : Columns :=
  ⟨header, header.map fun cell => p.toLowerCase (trim cell)⟩

/-- The first occurrence wins. -/
def Columns.position (columns : Columns) (column : Text) : Option Nat := columns.keys.findIdx? (· = column)

def Columns.has (columns : Columns) (column : Text) : Bool := (columns.position column).isSome

/-- `none` for a column the layout or the file does not have, and for a row that ends before it. -/
def Columns.value (columns : Columns) (row : CsvRow) (column : Option Text) : Option Text :=
  column.bind fun column => (columns.position column).bind (row.values[·]?)

def Columns.sourceName (columns : Columns) (column : Text) : Text :=
  match (columns.position column).bind (columns.header[·]?) with
  | none => column
  | some cell => trim cell

def surplusFieldsError (row : CsvRow) (width : Nat) : Option ImportRowError :=
  if row.extra = [] then none
  else some ⟨row.line, ascii "This row has " ++ decimal row.values.length ++
    ascii " fields where the header has " ++
    decimal width ++ if row.extra.all (· = []) then
      ascii ", though every surplus field is empty, so a trailing comma is the likely cause"
    else ascii ", so a value has been split across columns"⟩

def refuseSurplus (row : CsvRow) (width : Nat) : Except ImportRowError Unit :=
  match surplusFieldsError row width with
  | some e => .error e
  | none => .ok ()

def requiredPassword (line : Nat) : Option Text → Except ImportRowError Text
  | none => .error ⟨line, ascii "This row ends before its password column"⟩
  | some value =>
    if value = [] then .error ⟨line, ascii "This row has an empty password, so it was not imported"⟩ else .ok value

def carry (item : ImportItem) (name : Text) (value : Option Text) (kind : ImportFieldKind) : ImportItem :=
  match value with
  | none => item
  | some value => if value = [] then item else { item with extra := item.extra ++ [⟨name, value, kind⟩] }

def collect {ρ : Type} (line : ρ → Nat) (damaged : List Nat) (toItem : ρ → RowOutcome) (result : ImportResult)
    (row : ρ) : ImportResult :=
  if line row ∈ damaged then result
  else match toItem row with
    | .error e => { result with errors := result.errors ++ [e] }
    | .ok item => { result with items := result.items ++ [item] }

/-- The errors of the reader and of the rows, in the order of the file. -/
def mapCsvRows {ρ : Type} (line : ρ → Nat) (rows : List ρ) (errors : List ImportRowError)
    (toItem : ρ → RowOutcome) :
    ImportResult :=
  let result := rows.foldl (collect line (errors.map (·.row)) toItem) ⟨[], errors⟩
  { result with errors := result.errors.mergeSort fun left right => left.row ≤ right.row }

/-- A parser of a CSV with a header: `layout` is how it reads the rows, if the header is one it knows. -/
def parseTable (p : Platform) (refusal : Text) (layout : Columns → (width : Nat) → Option (CsvRow → RowOutcome))
    (text : Text) : ImportResult :=
  let table := parseCsv text
  match layout (indexColumns p table.header) table.header.length with
  | none => ⟨[], ⟨1, refusal⟩ :: table.errors⟩
  | some toItem => mapCsvRows (·.line) table.rows table.errors toItem

end Keyhole.Import
