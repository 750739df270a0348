import Keyhole.Import.JsonParsers
import Keyhole.Import.Zip

/-!
# The 1Password archive

A `.1pux` is a ZIP that holds `export.data`, a JSON of accounts, of vaults and
of items. A container that cannot be read is answered with the format in front
of what is wrong with it.
-/

namespace Keyhole.Import.OnePassword

def EXPORT_DATA : Text := ascii "export.data"

def NOT_AN_EXPORT : Text := ascii "This file has no accounts array, so it is not a 1Password .1pux export"

def CATEGORIES : List (Text × ImportItemType) := [(ascii "001", .login), (ascii "003", .note)]

def UNSUPPORTED : List (Text × Text) :=
  [(ascii "002", ascii "credit card"), (ascii "004", ascii "identity"), (ascii "005", ascii "password item"),
    (ascii "006", ascii "document"), (ascii "100", ascii "software license"), (ascii "101", ascii "bank account"),
    (ascii "102", ascii "database"), (ascii "103", ascii "driver license"), (ascii "104", ascii "outdoor license"),
    (ascii "105", ascii "membership"), (ascii "106", ascii "passport"), (ascii "107", ascii "rewards program"),
    (ascii "108", ascii "social security number"), (ascii "109", ascii "wireless router"),
    (ascii "110", ascii "server"), (ascii "111", ascii "email account"), (ascii "112", ascii "API credential"),
    (ascii "113", ascii "medical record"), (ascii "115", ascii "SSH key")]

def ACTIVE : Text := ascii "active"

def TOTP_VALUE : Text := ascii "totp"

/-- The listed addresses, or else the one. -/
def urlsOf (overview : Option Json) : List Text :=
  let listed := (((arrayOf (property overview "urls")).getD []).map fun entry =>
    stringOf (property (asObject (some entry)) "url")).filter (· ≠ [])
  if listed = [] then oneUrl (stringOf (property overview "url")) else listed

/-- The value of the first field of the form with that designation. -/
def designated (fields : List Json) (designation : Text) : Option Json :=
  (fields.find? fun entry => match property (asObject (some entry)) "designation" with
    | some (.string s) => s = designation
    | _ => false).bind fun entry => property (asObject (some entry)) "value"

def tagsText (overview : Option Json) : Text :=
  join (ascii ", ")
    ((((arrayOf (property overview "tags")).getD []).map fun tag => stringOf (some tag)).filter (· ≠ []))

/-- A number that is zero, or too small for a double. -/
def isZero (mantissa exponent : Int) : Bool :=
  mantissa = 0 || (exponent < 0 && mantissa.natAbs * 2 ^ 1075 ≤ 10 ^ (-exponent).toNat)

section
-- `String` of a number
variable (numberText : Int → Int → Text)

def carryOtherLoginFields (item : ImportItem) (fields : List Json) : ImportItem :=
  fields.foldl (fun item entry =>
    match asObject (some entry) with
    | none => item
    | some field =>
      let designation := stringOf (property (some field) "designation")
      if designation = ascii "username" || designation = ascii "password" then item
      else
        let name := stringOf (property (some field) "name")
        carry item (if name = [] then if designation = [] then ascii "(unnamed field)" else designation else name)
          (some (Bitwarden.scalarText numberText (property (some field) "value"))) .custom) item

/-- The one name in the value of a field is its type. -/
def carrySection (item : ImportItem) (heading : Text) (fields : List Json) : ImportItem :=
  fields.foldl (fun item entry =>
    match asObject (some entry) with
    | none => item
    | some field =>
      match property (some field) "value" with
      | some (.object typed) =>
        match Json.properties typed with
        | [] => item
        | (type, value) :: _ =>
          let name := unnamed (stringOf (property (some field) "title"))
          carry item (if heading = [] then name else heading ++ ascii " / " ++ name)
            (some (Bitwarden.scalarText numberText (some value))) (if type = TOTP_VALUE then .totp else .custom)
      | _ => item) item

def carrySections (item : ImportItem) (sections : Option Json) : ImportItem :=
  ((arrayOf sections).getD []).foldl (fun item entry =>
    let group := asObject (some entry)
    match arrayOf (property group "fields") with
    | none => item
    | some fields => carrySection numberText item (stringOf (property group "title")) fields) item

def vaultLogin (overview details : Option Json) (position : Nat) (label : Text) (item : ImportItem) : RowOutcome :=
  match item.type with
  | .note => pure item
  | .login => do
    match details with
    | none => throw (noLoginDetails position label)
    | some details =>
      let fields := (arrayOf (property (some details) "loginFields")).getD []
      let password ← requiredSecret position label (designated fields (ascii "password"))
      let item := { item with
        username := stringOf (designated fields (ascii "username"))
        password
        urls := urlsOf overview }
      pure (carryOtherLoginFields numberText item fields)

structure VaultEntry where
  account : Text
  vault : Text
  raw : Json

def vaultItem (entry : VaultEntry) (position : Nat) : RowOutcome := do
  match asObject (some entry.raw) with
  | none => throw (notAnObject position (label (ascii "Item") position []))
  | some source =>
    let overview := asObject (property (some source) "overview")
    let name := stringOf (property overview "title")
    let label := label (ascii "Item") position name
    let category := stringOf (property (some source) "categoryUuid")
    match CATEGORIES.lookup category with
    | none =>
      throw (unsupported position label (ascii "1Password") ((UNSUPPORTED.lookup category).getD
        (if category = [] then ascii "item of no stated category" else ascii "item of category " ++ category)))
    | some kind =>
      let details := asObject (property (some source) "details")
      let item := { blankImportItem position with
        type := kind
        name
        notes := stringOf (property details "notesPlain")
        favorite := match property (some source) "favIndex" with
          | some (.number mantissa exponent) => !isZero mantissa exponent
          | _ => false
        folderPath := folderOf (some entry.vault) }
      let item ← vaultLogin numberText overview details position label item
      let item := carrySections numberText item (property details "sections")
      let item := carry item (ascii "tags") (some (tagsText overview)) .metadata
      let state := stringOf (property (some source) "state")
      let item := carry item (ascii "state") (some (if state = ACTIVE then [] else state)) .metadata
      pure (carry item (ascii "account") (some entry.account) .metadata)

/-- The items of every vault of every account; the account is named when there is more than one. -/
def vaultEntries (accounts : List Json) : List VaultEntry :=
  accounts.flatMap fun rawAccount =>
    let account := asObject (some rawAccount)
    let accountName :=
      if accounts.length > 1 then stringOf (property (asObject (property account "attrs")) "name") else []
    ((arrayOf (property account "vaults")).getD []).flatMap fun rawVault =>
      let vault := asObject (some rawVault)
      let vaultName := stringOf (property (asObject (property vault "attrs")) "name")
      ((arrayOf (property vault "items")).getD []).map fun raw => ⟨accountName, vaultName, raw⟩

def parseOnePasswordExportData (text : Text) : ImportResult :=
  match Json.parse text with
  | none => refusal NOT_JSON
  | some body =>
    match arrayOf (property (asObject (some body)) "accounts") with
    | none => refusal NOT_AN_EXPORT
    | some accounts => mapRecords (vaultEntries accounts) (vaultItem numberText)

def archiveProblem (problem : Text) : ImportResult :=
  refusal (ascii "This file could not be read as a 1Password .1pux archive. " ++ problem)

/-- An access outside the archive would throw. -/
def parseOnePassword1pux (inflateRaw : Bytes → Option Bytes) (archive : Bytes) : Option ImportResult :=
  match openZip archive >>= fun opened => opened.readText inflateRaw EXPORT_DATA with
  | .ok text => some (parseOnePasswordExportData numberText text)
  | .error (.problem message) => some (archiveProblem message)
  | .error .outOfRange => none

end

end Keyhole.Import.OnePassword
