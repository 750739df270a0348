import Keyhole.Import.Parsers
import Keyhole.Lib.Json

/-!
# The JSON exports of the password managers

A whole file is refused when it is not JSON, when it does not have what its
vendor writes at the root, or when it was exported encrypted. A record becomes
an item or the reason it is not one, under its position in the file.
-/

namespace Keyhole.Import

/-- Of the properties of a value, those of an object that is not an array. -/
def asObject (value : Option Json) : Option Json :=
  match value with
  | some (.object fields) => some (.object fields)
  | _ => none

def property (value : Option Json) (key : String) : Option Json := value.bind (·.get (ascii key))

def stringOf (value : Option Json) : Text :=
  match value with
  | some (.string s) => s
  | _ => []

def arrayOf (value : Option Json) : Option (List Json) :=
  match value with
  | some (.array elements) => some elements
  | _ => none

def isTrueValue (value : Option Json) : Bool :=
  match value with
  | some (.bool b) => b
  | _ => false

def refusal (message : Text) : ImportResult := ⟨[], [⟨1, message⟩]⟩

def NOT_JSON : Text := ascii "This file is not valid JSON, so nothing could be read from it"

def collectRecord {ρ : Type} (toItem : (record : ρ) → (position : Nat) → RowOutcome) (result : ImportResult)
    (entry : ρ × Nat) : ImportResult :=
  match toItem entry.1 entry.2 with
  | .error e => { result with errors := result.errors ++ [e] }
  | .ok item => { result with items := result.items ++ [item] }

def mapRecords {ρ : Type} (records : List ρ) (toItem : (record : ρ) → (position : Nat) → RowOutcome) :
    ImportResult :=
  (records.zipIdx 1).foldl (collectRecord toItem) ⟨[], []⟩

def label (kind : Text) (position : Nat) (name : Text) : Text :=
  kind ++ ascii " " ++ decimal position ++ if name = [] then [] else ascii " (\"" ++ name ++ ascii "\")"

def requiredSecret (position : Nat) (label : Text) (value : Option Json) : Except ImportRowError Text :=
  match value with
  | some (.string password) =>
    if password = [] then .error ⟨position, label ++ ascii " has an empty password, so it was not imported"⟩
    else .ok password
  | _ => .error ⟨position, label ++ ascii " has no password, so it was not imported"⟩

def notAnObject (position : Nat) (label : Text) : ImportRowError :=
  ⟨position, label ++ ascii " is not an object, so it could not be read"⟩

def unsupported (position : Nat) (label vendor described : Text) : ImportRowError :=
  ⟨position, label ++ ascii " is a " ++ vendor ++ ascii " " ++ described ++
    ascii ", which Keyhole cannot import yet, so it was not imported"⟩

def noLoginDetails (position : Nat) (label : Text) : ImportRowError :=
  ⟨position, label ++ ascii " is a login with no login details, so it was not imported"⟩

def unnamed (name : Text) : Text := if name = [] then ascii "(unnamed field)" else name

/-! ## Bitwarden -/

namespace Bitwarden

def ENCRYPTED_EXPORT : Text :=
  ascii ("This is an encrypted Bitwarden export, which cannot be read without your " ++
    "Bitwarden password. Export it again with the file format set to .json " ++
    "rather than .json (Encrypted), and upload that file.")

def NOT_AN_EXPORT : Text := ascii "This file has no items array, so it is not a Bitwarden JSON export"

/-- Of a repeated id the first. -/
def namesById (value : Option Json) : List (Text × Text) :=
  ((arrayOf value).getD []).foldl (fun names entry =>
    match property (asObject (some entry)) "id", property (asObject (some entry)) "name" with
    | some (.string id), some (.string name) => if id ∈ names.map (·.1) then names else names ++ [(id, name)]
    | _, _ => names) []

def urlsOf (value : Option Json) : List Text :=
  (((arrayOf value).getD []).map fun entry => stringOf (property (asObject (some entry)) "uri")).filter (· ≠ [])

def JSON_KINDS : List (Nat × ImportItemType) := [(1, .login), (2, .note)]

def JSON_UNSUPPORTED : List (Nat × Text) := [(3, ascii "card"), (4, ascii "identity"), (5, ascii "SSH key")]

def lookupNumber {β : Type} (entries : List (Nat × β)) (mantissa exponent : Int) : Option β :=
  (entries.find? fun entry => Json.roundsTo mantissa exponent entry.1).map (·.2)

section
-- `String` of a number
variable (numberText : Int → Int → Text)

def scalarText (value : Option Json) : Text :=
  match value with
  | some (.string s) => s
  | some (.number mantissa exponent) => numberText mantissa exponent
  | some (.bool b) => ascii (if b then "true" else "false")
  | _ => []

def carryFields (item : ImportItem) (value : Option Json) : ImportItem :=
  ((arrayOf value).getD []).foldl (fun item entry =>
    match asObject (some entry) with
    | none => item
    | some field => carry item (unnamed (stringOf (property (some field) "name")))
        (some (scalarText numberText (property (some field) "value"))) .custom) item

def carryCollections (item : ImportItem) (ids : Option Json) (collections : List (Text × Text)) : ImportItem :=
  match arrayOf ids with
  | none => item
  | some ids =>
    let named := ((ids.map fun id => stringOf (some id)).filter (· ≠ [])).map fun id =>
      (collections.lookup id).getD id
    carry item (ascii "collections") (some (join (ascii ", ") named)) .metadata

def jsonLogin (source : Json) (position : Nat) (label : Text) (item : ImportItem) : RowOutcome :=
  match item.type with
  | .note => pure item
  | .login => do
    match asObject (property (some source) "login") with
    | none => throw (noLoginDetails position label)
    | some login =>
      let password ← requiredSecret position label (property (some login) "password")
      let item := { item with
        username := stringOf (property (some login) "username")
        password
        urls := urlsOf (property (some login) "uris") }
      pure (carry item (ascii "totp") (some (stringOf (property (some login) "totp"))) .totp)

def filed (item : ImportItem) (folderId : Text) (folders : List (Text × Text)) : ImportItem :=
  if folderId = [] then item
  else match folders.lookup folderId with
    | none => carry item (ascii "folderId") (some folderId) .metadata
    | some folderName => { item with folderPath := folderSegments folderName (ascii "/") }

def jsonItem (folders collections : List (Text × Text)) (raw : Json) (position : Nat) : RowOutcome := do
  match asObject (some raw) with
  | none => throw (notAnObject position (label (ascii "Item") position []))
  | some source =>
    let name := stringOf (property (some source) "name")
    let label := label (ascii "Item") position name
    match property (some source) "type" with
    | some (.number mantissa exponent) =>
      match lookupNumber JSON_KINDS mantissa exponent with
      | none =>
        throw (unsupported position label (ascii "Bitwarden")
          ((lookupNumber JSON_UNSUPPORTED mantissa exponent).getD
          (ascii "item of type " ++ numberText mantissa exponent)))
      | some kind =>
        let item := { blankImportItem position with
          type := kind
          name
          notes := stringOf (property (some source) "notes")
          favorite := isTrueValue (property (some source) "favorite") }
        let item ← jsonLogin source position label item
        let item := filed item (stringOf (property (some source) "folderId")) folders
        let item := carryCollections item (property (some source) "collectionIds") collections
        let item := carryFields numberText item (property (some source) "fields")
        pure (carry item (ascii "reprompt")
          (some (repromptText (some (scalarText numberText (property (some source) "reprompt"))))) .metadata)
    | _ => throw ⟨position, label ++ ascii " does not say what kind of item it is, so it was not imported"⟩

/-- An encrypted export may have no items at all, so that is looked at first. -/
def parseBitwardenJson (text : Text) : ImportResult :=
  match Json.parse text with
  | none => refusal NOT_JSON
  | some body =>
    let root := asObject (some body)
    if isTrueValue (property root "encrypted") || isTrueValue (property root "passwordProtected") then
      refusal ENCRYPTED_EXPORT
    else match arrayOf (property root "items") with
      | none => refusal NOT_AN_EXPORT
      | some items =>
        mapRecords items (jsonItem numberText (namesById (property root "folders"))
          (namesById (property root "collections")))

end

end Bitwarden

/-! ## Dashlane -/

namespace Dashlane

def NOT_AN_EXPORT : Text :=
  ascii "This file has none of Dashlane's record lists, so it is not a Dashlane JSON export"

/-- `kind` is `none` for records that cannot be stored. -/
structure RecordList where
  key : String
  kind : Option ImportItemType
  described : Text

def RECORD_LISTS : List RecordList := [
  ⟨"AUTHENTIFIANT", some .login, ascii "login"⟩,
  ⟨"SECURENOTE", some .note, ascii "secure note"⟩,
  ⟨"PAYMENTMEANS_CREDITCARD", none, ascii "credit card"⟩,
  ⟨"PAYMENTMEAN_PAYPAL", none, ascii "PayPal account"⟩,
  ⟨"BANKSTATEMENT", none, ascii "bank account"⟩,
  ⟨"ADDRESS", none, ascii "address"⟩,
  ⟨"IDCARD", none, ascii "identity document"⟩,
  ⟨"IDENTITY", none, ascii "identity"⟩,
  ⟨"EMAIL", none, ascii "email account"⟩]

def titleOf (source : Option Json) : Text :=
  let title := stringOf (property source "title")
  if title = [] then stringOf (property source "name") else title

def firstText (one other : Text) : Text := if one = [] then other else one

def jsonLogin (source : Json) (position : Nat) (label : Text) (item : ImportItem) : RowOutcome := do
  let password ← requiredSecret position label (property (some source) "password")
  let email := stringOf (property (some source) "email")
  let username := firstText (stringOf (property (some source) "login")) email
  let item := { item with
    username
    password
    notes := stringOf (property (some source) "note")
    folderPath := folderOf (some (stringOf (property (some source) "category")))
    urls := oneUrl (firstText (stringOf (property (some source) "url"))
      (stringOf (property (some source) "domain"))) }
  let item := if email ≠ username then carry item (ascii "email") (some email) .custom else item
  pure (carry item (ascii "otpSecret") (some (stringOf (property (some source) "otpSecret"))) .totp)

/-- `index` counts the records of the list, `position` those of the file. -/
def jsonRecord (record : RecordList × Nat × Json) (position : Nat) : RowOutcome := do
  let (list, index, raw) := record
  let source := asObject (some raw)
  let title := titleOf source
  let label := label (ascii list.key ++ ascii " item") index title
  match source with
  | none => throw (notAnObject position label)
  | some source =>
    match list.kind with
    | none => throw (unsupported position label (ascii "Dashlane") list.described)
    | some .note =>
      pure { blankImportItem position with
        type := .note
        name := title
        notes := stringOf (property (some source) "content") }
    | some .login => jsonLogin source position label { blankImportItem position with name := title }

def parseDashlaneJson (text : Text) : ImportResult :=
  match Json.parse text with
  | none => refusal NOT_JSON
  | some body =>
    let root := asObject (some body)
    let present := RECORD_LISTS.filter fun list => (arrayOf (property root list.key)).isSome
    if present = [] then refusal NOT_AN_EXPORT
    else mapRecords (present.flatMap fun list =>
      (((arrayOf (property root list.key)).getD []).zipIdx 1).map fun (raw, index) => (list, index, raw)) jsonRecord

end Dashlane

/-! ## Proton Pass -/

namespace ProtonPass

def ENCRYPTED_EXPORT : Text :=
  ascii ("This is an encrypted Proton Pass export, which cannot be read without your " ++
    "Proton Pass password. Export it again unencrypted and upload that file.")

def NOT_AN_EXPORT : Text := ascii "This file has no vaults object, so it is not a Proton Pass JSON export"

def KINDS : List (Text × ImportItemType) := [(ascii "login", .login), (ascii "note", .note)]

def UNSUPPORTED : List (Text × Text) :=
  [(ascii "creditCard", ascii "credit card"), (ascii "identity", ascii "identity"),
    (ascii "alias", ascii "email alias"),
    (ascii "sshKey", ascii "SSH key"), (ascii "wifi", ascii "wifi network")]

def TRASHED : Nat := 2

def isTrashed (value : Option Json) : Bool :=
  match value with
  | some (.number mantissa exponent) => Json.roundsTo mantissa exponent TRASHED
  | _ => false

def urlsOf (value : Option Json) : List Text :=
  (((arrayOf value).getD []).map fun url => stringOf (some url)).filter (· ≠ [])

def carryExtraFields (item : ImportItem) (value : Option Json) : ImportItem :=
  ((arrayOf value).getD []).foldl (fun item entry =>
    match asObject (some entry) with
    | none => item
    | some field => carry item (unnamed (stringOf (property (some field) "fieldName")))
        (some (stringOf (property (asObject (property (some field) "data")) "content")))
        (if stringOf (property (some field) "type") = ascii "totp" then .totp else .custom)) item

/-- Passkeys are counted, not carried. -/
def carryPasskeys (item : ImportItem) (value : Option Json) : ImportItem :=
  match arrayOf value with
  | none | some [] => item
  | some passkeys => carry item (ascii "passkeys") (some (decimal passkeys.length)) .metadata

def vaultLogin (data : Json) (position : Nat) (label : Text) (item : ImportItem) : RowOutcome :=
  match item.type with
  | .note => pure item
  | .login => do
    match asObject (property (some data) "content") with
    | none => throw (noLoginDetails position label)
    | some content =>
      let password ← requiredSecret position label (property (some content) "password")
      let email := stringOf (property (some content) "itemEmail")
      let username := stringOf (property (some content) "itemUsername")
      let username := if username = [] then email else username
      let item := { item with
        username
        password
        urls := urlsOf (property (some content) "urls") }
      let item := if email ≠ username then carry item (ascii "itemEmail") (some email) .custom else item
      let item := carry item (ascii "totpUri") (some (stringOf (property (some content) "totpUri"))) .totp
      pure (carryPasskeys item (property (some content) "passkeys"))

def vaultItem (record : Text × Json) (position : Nat) : RowOutcome := do
  let (vaultName, raw) := record
  match asObject (some raw) with
  | none => throw (notAnObject position (label (ascii "Item") position []))
  | some source =>
    let data := asObject (property (some source) "data")
    let metadata := asObject (property data "metadata")
    let name := stringOf (property metadata "name")
    let label := label (ascii "Item") position name
    if isTrashed (property (some source) "state") then
      throw ⟨position, label ++ ascii " is in the Proton Pass trash, so it was not imported"⟩
    match data with
    | none => throw ⟨position, label ++ ascii " carries no data, so it could not be read"⟩
    | some data =>
      let type := stringOf (property (some data) "type")
      match KINDS.lookup type with
      | none =>
        throw (unsupported position label (ascii "Proton Pass")
          ((UNSUPPORTED.lookup type).getD (if type = [] then ascii "item of no stated type" else type)))
      | some kind =>
        let item := { blankImportItem position with
          type := kind
          name
          notes := stringOf (property metadata "note")
          folderPath := folderOf (some vaultName) }
        let item ← vaultLogin data position label item
        pure (carryExtraFields item (property (some data) "extraFields"))

def vaultItems (fields : List (Text × Json)) : List (Text × Json) :=
  (Json.properties fields).flatMap fun (_, raw) =>
    let vault := asObject (some raw)
    ((arrayOf (property vault "items")).getD []).map fun entry => (stringOf (property vault "name"), entry)

def parseProtonPassJson (text : Text) : ImportResult :=
  match Json.parse text with
  | none => refusal NOT_JSON
  | some body =>
    let root := asObject (some body)
    if isTrueValue (property root "encrypted") then refusal ENCRYPTED_EXPORT
    else match property root "vaults" with
      | some (.object vaults) => mapRecords (vaultItems vaults) vaultItem
      | _ => refusal NOT_AN_EXPORT

end ProtonPass

/-! ## Keeper -/

namespace Keeper

def NOT_AN_EXPORT : Text := ascii "This file has no records array, so it is not a Keeper JSON export"

def TOTP_FIELD : Text := ascii "$oneTimeCode"

def foldersOf (value : Option Json) : List Text :=
  (((arrayOf value).getD []).map fun entry =>
    let folder := asObject (some entry)
    Dashlane.firstText (stringOf (property folder "folder")) (stringOf (property folder "shared_folder"))).filter
      (· ≠ [])

def carryCustomObject (item : ImportItem) (value : Option Json) : ImportItem :=
  match value with
  | some (.object fields) =>
    (Json.properties fields).foldl (fun item (name, content) =>
      carry item name (some (stringOf (some content))) (if name = TOTP_FIELD then .totp else .custom)) item
  | _ => item

def jsonRecord (raw : Json) (position : Nat) : RowOutcome := do
  match asObject (some raw) with
  | none => throw (notAnObject position (label (ascii "Record") position []))
  | some source =>
    let title := stringOf (property (some source) "title")
    let label := label (ascii "Record") position title
    let password ← requiredSecret position label (property (some source) "password")
    let folders := foldersOf (property (some source) "folders")
    let item := { blankImportItem position with
      name := title
      username := stringOf (property (some source) "login")
      password
      notes := stringOf (property (some source) "notes")
      urls := oneUrl (stringOf (property (some source) "login_url"))
      folderPath := match folders with
        | [] => []
        | first :: _ => folderSegments first (ascii "\\") }
    let item := carry item (ascii "folders") (some (join (ascii ", ") folders.tail)) .metadata
    pure (carryCustomObject item (property (some source) "custom_fields"))

def parseKeeperJson (text : Text) : ImportResult :=
  match Json.parse text with
  | none => refusal NOT_JSON
  | some body =>
    match arrayOf (property (asObject (some body)) "records") with
    | none => refusal NOT_AN_EXPORT
    | some records => mapRecords records jsonRecord

end Keeper

end Keyhole.Import
