import Keyhole.Import.Shared

/-!
# The generic CSV, and what Keyhole stores

The user says which column holds what; `suggestMapping` is where the mapping
screen starts and `normalizeMapping` is where it ends. What Keyhole has no
field for goes into the notes.
-/

namespace Keyhole.Import

/-! ## The intermediate shape to Keyhole -/

def IMPORTED_HEADING : Text := ascii "--- Imported details ---"

def TOTP_LABEL : Text := ascii "One-time password (TOTP) secret"

def PATH_SEPARATOR : Text := ascii " / "

inductive ItemPlaintext
  | login (name username password : Text) (urls : List Text) (notes : Text) (favorite : Bool)
    (folderId : Option Text)
      (passwordHistory : List Text)
  | note (name notes : Text) (favorite : Bool) (folderId : Option Text)
  deriving DecidableEq, Repr

def extraLine (field : ImportField) : Text :=
  match field.kind with
  | .totp => TOTP_LABEL ++ ascii ", exported as \"" ++ field.name ++ ascii "\": " ++ field.value
  | .metadata => field.name ++ ascii " (recorded by the exporter, not by you): " ++ field.value
  | .custom => field.name ++ ascii ": " ++ field.value

def composeNotes (item : ImportItem) (carried : List Text) : Text :=
  let lines := (if item.folderPath = [] then [] else [ascii "Folder: " ++ join PATH_SEPARATOR item.folderPath]) ++
    carried ++ item.extra.map extraLine
  if lines = [] then item.notes
  else
    let block := join [LF] (IMPORTED_HEADING :: lines)
    if item.notes = [] then block else item.notes ++ [LF, LF] ++ block

/-- The password decides, not the declared type. -/
def toItemPlaintext (item : ImportItem) (folderId : Option Text) : ItemPlaintext :=
  if item.type = .login || item.password ≠ [] then
    .login item.name item.username item.password item.urls (composeNotes item []) item.favorite folderId []
  else
    let carried := (if item.username = [] then [] else [ascii "Username: " ++ item.username]) ++
      item.urls.map (ascii "Web address: " ++ ·)
    .note item.name (composeNotes item carried) item.favorite folderId

/-! ## The column map -/

inductive MappedField
  | name
  | username
  | password
  | url
  | notes
  | folder
  | totp
  deriving DecidableEq, Repr

/-- `column` is `none` for a field the file has no column for. -/
structure CsvColumnMapping where
  column : MappedField → Option Text
  folderSeparator : Text
  custom : List Text

def mappedFields : List MappedField := [.name, .username, .password, .url, .notes, .folder, .totp]

def candidates : MappedField → List Text
  | .name => ["name", "title", "account", "item name", "entry", "display name"].map ascii
  | .username => ["username", "user name", "login name", "login", "user", "email", "login_username"].map ascii
  | .password => ["password", "login_password", "pass"].map ascii
  | .url => ["url", "uri", "website", "web site", "web address", "login_uri", "site", "link"].map ascii
  | .notes => ["notes", "note", "comments", "comment", "extra", "description"].map ascii
  | .folder => ["folder", "group", "grouping", "category", "path"].map ascii
  | .totp => ["totp", "otpauth", "otp", "otpsecret", "otp secret", "login_totp"].map ascii

section
variable (p : Platform)

def key (column : Text) : Text := p.toLowerCase (trim column)

def addByLower (seen : List (Text × Text)) (cell : Text) : List (Text × Text) :=
  if key p cell ∈ seen.map (·.1) then seen else seen ++ [(key p cell, trim cell)]

/-- The columns of the header by name, the first of a repeated one. -/
def byLower (header : List Text) : List (Text × Text) := header.foldl (addByLower p) []

def pick (columns : List (Text × Text)) (field : MappedField) : Option Text :=
  (candidates field).findSome? fun candidate => columns.lookup candidate

def suggestMapping (header : List Text) : CsvColumnMapping where
  column := pick (byLower p header)
  folderSeparator := ascii "/"
  custom := ((byLower p header).map (·.2)).filter fun column =>
    some column ∉ mappedFields.map (pick (byLower p header))

def read (columns : Columns) (row : CsvRow) (column : Option Text) : Option Text :=
  columns.value row (column.map (key p))

def genericItem (mapping : CsvColumnMapping) (columns : Columns) (row : CsvRow) (checked : Text) : ImportItem :=
  let url := (read p columns row (mapping.column .url)).getD []
  let name := (read p columns row (mapping.column .name)).getD []
  let item := { blankImportItem row.line with
    name := if name = [] then url else name
    username := (read p columns row (mapping.column .username)).getD []
    password := checked
    urls := if url = [] then [] else [url]
    notes := (read p columns row (mapping.column .notes)).getD []
    folderPath := folderSegments ((read p columns row (mapping.column .folder)).getD []) mapping.folderSeparator }
  let item := carry item ((mapping.column .totp).getD []) (read p columns row (mapping.column .totp)) .totp
  mapping.custom.foldl (fun item column => carry item column (read p columns row (some column)) .custom) item

def genericRow (mapping : CsvColumnMapping) (columns : Columns) (width : Nat) (row : CsvRow) : RowOutcome := do
  refuseSurplus row width
  let checked ← requiredPassword row.line (read p columns row (mapping.column .password))
  pure (genericItem p mapping columns row checked)

def noPassword : Text :=
  ascii "No column has been chosen as the password, so no row could be imported; choose one on the mapping screen"

/-- Without a mapping, the suggested one. -/
def genericLayout (mapping : Option CsvColumnMapping) (columns : Columns) (width : Nat) :
    Option (CsvRow → RowOutcome) :=
  let chosen := mapping.getD (suggestMapping p columns.header)
  if chosen.column .password = none then none else some (genericRow p chosen columns width)

def parseGenericCsv (mapping : Option CsvColumnMapping) : Text → ImportResult :=
  parseTable p noPassword (genericLayout p mapping)

/-! ## The import panel -/

def HEADER_PROBE_LIMIT : Nat := 8192

/-- The header the panel sees. -/
def probedHeader (text : Text) : List Text := (parseCsv (text.take HEADER_PROBE_LIMIT)).header

/-- A column is skipped if it has no name, holds a field, or repeats a name. -/
def normalizeCustom (placed : List Text) : (seen header : List Text) → List Text
  | _, [] => []
  | seen, cell :: header =>
    if trim cell = [] || key p cell ∈ placed || key p cell ∈ seen then normalizeCustom placed seen header
    else trim cell :: normalizeCustom placed (seen ++ [key p cell]) header

def normalizeMapping (mapping : CsvColumnMapping) (header : List Text) : CsvColumnMapping :=
  let placed := (mappedFields.filterMap mapping.column).map (key p)
  { mapping with custom := normalizeCustom p placed [] header }

/-- What the mapping screen lets the user do to a mapping: choose a column of the header or
none for a field, and type a separator. -/
inductive Edited (header : List Text) (mapping : CsvColumnMapping) : CsvColumnMapping → Prop
  | unchanged : Edited header mapping mapping
  | column {mapping' : CsvColumnMapping} (h : Edited header mapping mapping') (field : MappedField)
    (choice : Option Text)
      (hc : ∀ cell ∈ choice, cell ∈ header ∧ cell ≠ []) : Edited header mapping
        { mapping' with column := fun field' => if field' = field then choice else mapping'.column field' }
  | separator {mapping' : CsvColumnMapping} (h : Edited header mapping mapping') (folderSeparator : Text) :
      Edited header mapping { mapping' with folderSeparator }

end

end Keyhole.Import
