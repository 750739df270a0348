import Keyhole.Import.Shared

/-!
# The CSV exports of the password managers

One parser a vendor. Each recognises its header by the names of some columns
and reads a row by name.
-/

namespace Keyhole.Import

/-- The cell, empty where there is none. -/
def Columns.text (columns : Columns) (row : CsvRow) (column : Option Text) : Text :=
  (columns.value row column).getD []

def Columns.hasAll (columns : Columns) (names : List Text) : Bool := names.all columns.has

def word (p : Platform) (s : Text) : Text := p.toLowerCase (trim s)

/-- A folder that does not nest. -/
def folderOf (value : Option Text) : List Text :=
  match value with
  | none => []
  | some value => if value = [] then [] else [value]

def oneUrl (url : Text) : List Text := if url = [] then [] else [url]

def isFavorite (p : Platform) (value : Option Text) : Bool :=
  match value with
  | none => false
  | some value => word p value = ascii "1" || word p value = ascii "true"

/-! ## Browsers -/

structure BrowserLayout where
  fingerprint : List Text
  name : Option Text
  url : Text
  username : Text
  password : Text
  notes : Option Text
  carry : List (Text × ImportFieldKind)

def firefox : BrowserLayout where
  fingerprint :=
    [ascii "url", ascii "username", ascii "password", ascii "httprealm", ascii "formactionorigin", ascii "guid"]
  name := none
  url := ascii "url"
  username := ascii "username"
  password := ascii "password"
  notes := none
  carry := [(ascii "httprealm", .metadata)]

def safari : BrowserLayout where
  fingerprint := [ascii "title", ascii "url", ascii "username", ascii "password"]
  name := some (ascii "title")
  url := ascii "url"
  username := ascii "username"
  password := ascii "password"
  notes := some (ascii "notes")
  carry := [(ascii "otpauth", .totp)]

def chromium : BrowserLayout where
  fingerprint := [ascii "name", ascii "url", ascii "username", ascii "password"]
  name := some (ascii "name")
  url := ascii "url"
  username := ascii "username"
  password := ascii "password"
  notes := some (ascii "note")
  carry := []

def browserLayouts : List BrowserLayout := [firefox, safari, chromium]

def hostOf (p : Platform) (url : Text) : Text :=
  if url = [] then []
  else match p.host url with
    | none => url
    | some host => if host = [] then url else host

def displayName (p : Platform) (exported : Option Text) (url : Text) : Text :=
  match exported with
  | none => hostOf p url
  | some exported => if exported = [] then hostOf p url else exported

def browserItem (p : Platform) (layout : BrowserLayout) (columns : Columns) (width : Nat) (row : CsvRow) :
    RowOutcome := do
  refuseSurplus row width
  let password ← requiredPassword row.line (columns.value row (some layout.password))
  let url := columns.text row (some layout.url)
  let item := { blankImportItem row.line with
    name := displayName p (columns.value row layout.name) url
    username := columns.text row (some layout.username)
    password
    urls := oneUrl url
    notes := columns.text row layout.notes }
  pure (layout.carry.foldl
    (fun item (column, kind) => carry item (columns.sourceName column) (columns.value row (some column)) kind) item)

def browserLayout (p : Platform) (columns : Columns) (width : Nat) : Option (CsvRow → RowOutcome) :=
  (browserLayouts.find? fun candidate => columns.hasAll candidate.fingerprint).map fun layout =>
    browserItem p layout columns width

def parseBrowserCsv (p : Platform) : Text → ImportResult :=
  parseTable p (ascii "This file has no url, username and password columns, so no browser export layout fits it")
    (browserLayout p)

/-! ## LastPass -/

def SECURE_NOTE_URL : Text := ascii "http://sn"

def lastPassItem (p : Platform) (columns : Columns) (width : Nat) (row : CsvRow) : RowOutcome := do
  refuseSurplus row width
  let url := columns.text row (some (ascii "url"))
  let note := word p url = SECURE_NOTE_URL
  let item := { blankImportItem row.line with
    type := if note then .note else .login
    name := columns.text row (some (ascii "name"))
    notes := columns.text row (some (ascii "extra"))
    favorite := isFavorite p (columns.value row (some (ascii "fav")))
    folderPath := folderSegments (columns.text row (some (ascii "grouping"))) (ascii "\\") }
  if note then pure item
  else do
    let password ← requiredPassword row.line (columns.value row (some (ascii "password")))
    let item := { item with
      username := columns.text row (some (ascii "username"))
      password
      urls := oneUrl url }
    pure (carry item (columns.sourceName (ascii "totp")) (columns.value row (some (ascii "totp"))) .totp)

def lastPassLayout (p : Platform) (columns : Columns) (width : Nat) : Option (CsvRow → RowOutcome) :=
  if columns.hasAll [ascii "password", ascii "grouping"] then some (lastPassItem p columns width) else none

def parseLastPassCsv (p : Platform) : Text → ImportResult :=
  parseTable p (ascii "This file has no password and grouping columns, so it is not a LastPass CSV export")
    (lastPassLayout p)

/-! ## KeePass and KeePassXC -/

structure KeePassLayout where
  fingerprint : List Text
  folder : Option Text
  name : Text
  username : Text
  password : Text
  url : Text
  notes : Text
  totp : Option Text

def keePassXc : KeePassLayout where
  fingerprint := [ascii "group", ascii "title", ascii "username", ascii "password", ascii "url", ascii "notes"]
  folder := some (ascii "group")
  name := ascii "title"
  username := ascii "username"
  password := ascii "password"
  url := ascii "url"
  notes := ascii "notes"
  totp := some (ascii "totp")

def keePass1x : KeePassLayout where
  fingerprint := [ascii "account", ascii "login name", ascii "password", ascii "web site", ascii "comments"]
  folder := none
  name := ascii "account"
  username := ascii "login name"
  password := ascii "password"
  url := ascii "web site"
  notes := ascii "comments"
  totp := none

def keePassLayouts : List KeePassLayout := [keePassXc, keePass1x]

def keePassItem (layout : KeePassLayout) (columns : Columns) (width : Nat) (row : CsvRow) : RowOutcome := do
  refuseSurplus row width
  let password ← requiredPassword row.line (columns.value row (some layout.password))
  let item := { blankImportItem row.line with
    name := columns.text row (some layout.name)
    username := columns.text row (some layout.username)
    password
    urls := oneUrl (columns.text row (some layout.url))
    notes := columns.text row (some layout.notes)
    folderPath := folderSegments (columns.text row layout.folder) (ascii "/") }
  match layout.totp with
  | none => pure item
  | some totp => pure (carry item (columns.sourceName totp) (columns.value row (some totp)) .totp)

def keePassLayout (columns : Columns) (width : Nat) : Option (CsvRow → RowOutcome) :=
  (keePassLayouts.find? fun candidate => columns.hasAll candidate.fingerprint).map fun layout =>
    keePassItem layout columns width

def parseKeePassCsv (p : Platform) : Text → ImportResult :=
  parseTable p (ascii ("This file matches neither the KeePass 1.x nor the KeePassXC column names, " ++
    "so it is not a KeePass CSV export")) keePassLayout

/-! ## NordPass -/

def nordPassKinds : List (Text × ImportItemType) := [(ascii "password", .login), (ascii "note", .note)]

def nordPassUnsupported : List (Text × Text) :=
  [(ascii "credit_card", ascii "credit card"), (ascii "identity", ascii "identity")]

/-- The main URL, then each line of the others. -/
def nordPassUrls (main : Text) (additional : Option Text) : List Text :=
  oneUrl main ++ ((split (additional.getD []) [LF]).map trim).filter (· ≠ [])

/-- A note has no login. -/
def nordPassLogin (columns : Columns) (row : CsvRow) (item : ImportItem) : RowOutcome :=
  match item.type with
  | .note => pure item
  | .login => do
    let password ← requiredPassword row.line (columns.value row (some (ascii "password")))
    pure { item with
      username := columns.text row (some (ascii "username"))
      password
      urls := nordPassUrls (columns.text row (some (ascii "url")))
        (columns.value row (some (ascii "additional_urls"))) }

def nordPassItem (p : Platform) (columns : Columns) (width : Nat) (row : CsvRow) : RowOutcome := do
  refuseSurplus row width
  let type := word p (columns.text row (some (ascii "type")))
  match if type = [] then some .login else nordPassKinds.lookup type with
  | none =>
    .error ⟨row.line, ascii "This row is a NordPass " ++ (nordPassUnsupported.lookup type).getD type ++
      ascii ", which Keyhole cannot import yet, so it was not imported"⟩
  | some kind =>
    let item := { blankImportItem row.line with
      type := kind
      name := columns.text row (some (ascii "name"))
      notes := columns.text row (some (ascii "note"))
      folderPath := folderOf (columns.value row (some (ascii "folder"))) }
    let item ← nordPassLogin columns row item
    pure (carry item (columns.sourceName (ascii "custom_fields")) (columns.value row (some (ascii "custom_fields")))
      .custom)

def nordPassLayout (p : Platform) (columns : Columns) (width : Nat) : Option (CsvRow → RowOutcome) :=
  if columns.hasAll [ascii "password", ascii "cardholdername"] then some (nordPassItem p columns width) else none

def parseNordPassCsv (p : Platform) : Text → ImportResult :=
  parseTable p (ascii "This file has no password and cardholdername columns, so it is not a NordPass CSV export")
    (nordPassLayout p)

/-! ## Dashlane -/

def dashlaneItem (columns : Columns) (width : Nat) (row : CsvRow) : RowOutcome := do
  refuseSurplus row width
  let password ← requiredPassword row.line (columns.value row (some (ascii "password")))
  let item := { blankImportItem row.line with
    name := columns.text row (some (ascii "title"))
    username := columns.text row (some (ascii "username"))
    password
    urls := oneUrl (columns.text row (some (ascii "url")))
    notes := columns.text row (some (ascii "note"))
    folderPath := folderOf (columns.value row (some (ascii "category"))) }
  let item := [ascii "username2", ascii "username3"].foldl
    (fun item column => carry item (columns.sourceName column) (columns.value row (some column)) .custom) item
  pure (carry item (columns.sourceName (ascii "otpsecret")) (columns.value row (some (ascii "otpsecret"))) .totp)

def dashlaneLayout (columns : Columns) (width : Nat) : Option (CsvRow → RowOutcome) :=
  if columns.hasAll [ascii "title", ascii "password"] then some (dashlaneItem columns width) else none

def parseDashlaneCsv (p : Platform) : Text → ImportResult :=
  parseTable p (ascii "This file has no title and password columns, so it is not a Dashlane credentials CSV")
    dashlaneLayout

/-! ## Bitwarden -/

def bitwardenKinds : List (Text × ImportItemType) :=
  [(ascii "login", .login), (ascii "note", .note), (ascii "securenote", .note), (ascii "secure note", .note)]

def splitUris (value : Text) : List Text := ((split value [DELIMITER]).map trim).filter (· ≠ [])

def repromptText (value : Option Text) : Text :=
  let text := value.getD []
  if text = [] || text = ascii "0" || text = ascii "false" then [] else text

def bitwardenLogin (columns : Columns) (row : CsvRow) (item : ImportItem) : RowOutcome :=
  match item.type with
  | .note => pure item
  | .login => do
    let password ← requiredPassword row.line (columns.value row (some (ascii "login_password")))
    let item := { item with
      username := columns.text row (some (ascii "login_username"))
      password
      urls := splitUris (columns.text row (some (ascii "login_uri"))) }
    pure (carry item (ascii "totp") (some (columns.text row (some (ascii "login_totp")))) .totp)

def bitwardenItem (p : Platform) (columns : Columns) (width : Nat) (row : CsvRow) : RowOutcome := do
  refuseSurplus row width
  let type := word p (columns.text row (some (ascii "type")))
  match if type = [] then some .login else bitwardenKinds.lookup type with
  | none =>
    .error ⟨row.line, ascii "This row is a Bitwarden " ++ type ++
      ascii ", which Keyhole cannot import yet, so it was not imported"⟩
  | some kind =>
    let item := { blankImportItem row.line with
      type := kind
      name := columns.text row (some (ascii "name"))
      notes := columns.text row (some (ascii "notes"))
      favorite := isFavorite p (columns.value row (some (ascii "favorite")))
      folderPath := folderSegments (columns.text row (some (ascii "folder"))) (ascii "/") }
    let item ← bitwardenLogin columns row item
    let item := carry item (ascii "fields") (some (columns.text row (some (ascii "fields")))) .custom
    pure (carry item (ascii "reprompt")
      (some (repromptText (columns.value row (some (ascii "reprompt"))))) .metadata)

def bitwardenLayout (p : Platform) (columns : Columns) (width : Nat) : Option (CsvRow → RowOutcome) :=
  if columns.has (ascii "login_password") then some (bitwardenItem p columns width) else none

def parseBitwardenCsv (p : Platform) : Text → ImportResult :=
  parseTable p (ascii "This file has no login_password column, so it is not a Bitwarden CSV export")
    (bitwardenLayout p)

/-! ## 1Password -/

def firstNamed (columns : Columns) (names : List Text) : Option Text := names.find? columns.has

def isTrue (p : Platform) (value : Option Text) : Bool :=
  match value with
  | none => false
  | some value => word p value = ascii "true"

def flagText (p : Platform) (value : Option Text) : Text := if isTrue p value then trim (value.getD []) else []

def onePasswordItem (p : Platform) (columns : Columns) (width : Nat) (row : CsvRow) : RowOutcome := do
  refuseSurplus row width
  let password ← requiredPassword row.line (columns.value row (some (ascii "password")))
  let item := { blankImportItem row.line with
    name := columns.text row (some (ascii "title"))
    username := columns.text row (some (ascii "username"))
    password
    notes := columns.text row (firstNamed columns [ascii "notes", ascii "note"])
    favorite := isTrue p (columns.value row (some (ascii "favorite")))
    urls := oneUrl (columns.text row (firstNamed columns [ascii "url", ascii "website", ascii "urls"])) }
  let item := carry item (columns.sourceName (ascii "otpauth")) (columns.value row (some (ascii "otpauth"))) .totp
  let item := carry item (columns.sourceName (ascii "archived"))
    (some (flagText p (columns.value row (some (ascii "archived"))))) .metadata
  pure (carry item (columns.sourceName (ascii "tags")) (columns.value row (some (ascii "tags"))) .metadata)

def onePasswordLayout (p : Platform) (columns : Columns) (width : Nat) : Option (CsvRow → RowOutcome) :=
  if columns.has (ascii "password") then some (onePasswordItem p columns width) else none

def parseOnePasswordCsv (p : Platform) : Text → ImportResult :=
  parseTable p (ascii "This file has no Password column, so it is not a 1Password CSV export") (onePasswordLayout p)

/-! ## Keeper -/

/-- A name and a value each; a name alone at the end has no value. -/
def customFields : List Text → List (Text × Text)
  | [] => []
  | [name] => [(name, [])]
  | name :: value :: trailing => (name, value) :: customFields trailing

def carryCustomFields (item : ImportItem) (record : CsvRecord) : ImportItem :=
  { item with
    extra := item.extra ++ ((customFields (record.values.drop 6)).filter (· ≠ ([], []))).map fun (name, value) =>
      ⟨if name = [] then ascii "(unnamed field)" else name, value, .custom⟩ }

/-- There is no header: every field is a position. -/
def keeperRecord (record : CsvRecord) : RowOutcome := do
  let password ← requiredPassword record.line record.values[3]?
  pure (carryCustomFields { blankImportItem record.line with
    name := record.values[1]?.getD []
    username := record.values[2]?.getD []
    password
    urls := oneUrl (record.values[4]?.getD [])
    notes := record.values[5]?.getD []
    folderPath := folderSegments (record.values[0]?.getD []) (ascii "\\") } record)

def parseKeeperCsv (text : Text) : ImportResult :=
  let table := parseCsvRecords text
  mapCsvRows (·.line) table.rows table.errors keeperRecord

end Keyhole.Import
