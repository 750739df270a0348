import Keyhole.Import.JsonParsers
import Keyhole.Import.Map

/-!
# Which parser reads a file

The shape of the file decides, and its name only where the shape cannot tell.
A file no signature claims goes to the generic CSV mapper.
-/

namespace Keyhole.Import

inductive ImportParser
  | browserCsv
  | bitwardenCsv
  | bitwardenJson
  | lastpassCsv
  | onepasswordCsv
  | onepassword1pux
  | keepassCsv
  | nordpassCsv
  | dashlaneCsv
  | dashlaneJson
  | protonpassJson
  | keeperJson
  | genericCsv
  deriving DecidableEq, Repr

inductive ImportVendor
  | bitwarden
  | lastpass
  | onepassword
  | chrome
  | edge
  | brave
  | firefox
  | safari
  | keepass
  | keepassxc
  | nordpass
  | dashlane
  | protonpass
  | keeper
  deriving DecidableEq, Repr

structure DetectedFormat where
  parser : ImportParser
  vendors : List ImportVendor
  deriving DecidableEq, Repr

structure FileEvidence where
  lowerFilename : Text
  content : Text
  csvHeader : List Text
  json : Option Json

def ZIP_MAGIC : Text := [0x50, 0x4B, 0x03, 0x04]

def basename (filename : Text) : Text :=
  (filename.reverse.takeWhile fun c => c ≠ 0x2F && c ≠ 0x5C).reverse

def parseJsonBody (content : Text) : Option Json :=
  let trimmed := content.dropWhile isSpace
  if trimmed.head? = some (Json.unit '{') then Json.parse trimmed else none

def headerNames (p : Platform) (header : List Text) : List Text :=
  header.map fun column => p.toLowerCase (trim column)

def probe (p : Platform) (filename content : Text) : FileEvidence where
  lowerFilename := p.toLowerCase (basename filename)
  content
  csvHeader := headerNames p (probedHeader content)
  json := parseJsonBody content

section
variable (file : FileEvidence)

def hasColumns (columns : List Text) : Bool := columns.all fun column => file.csvHeader.any (· = column)

def headerSetIs (columns : List Text) : Bool := file.csvHeader.length = columns.length && hasColumns file columns

def headerIs (columns : List Text) : Bool := file.csvHeader = columns

def hasArray (value : Option Json) (key : String) : Bool := (arrayOf (property (asObject value) key)).isSome

def includes (s piece : Text) : Bool := s.tails.any piece.isPrefixOf

/-- All three shapes of the export; the last of them has no items. -/
def isBitwardenJson (value : Option Json) : Bool :=
  let root := asObject value
  if (arrayOf (property root "items")).isSome then
    (arrayOf (property root "folders")).isSome || (arrayOf (property root "collections")).isSome ||
      (property root "encrypted").isSome
  else isTrueValue (property root "passwordProtected") && match property root "data" with
    | some (.string _) => true
    | _ => false

def DASHLANE_JSON_KEYS : List String :=
  ["AUTHENTIFIANT", "SECURENOTE", "ADDRESS", "BANKSTATEMENT", "IDCARD", "IDENTITY", "PAYMENTMEANS_CREDITCARD",
    "PAYMENTMEAN_PAYPAL", "EMAIL"]

/-- The same exporter under three names, which only the file's can tell apart. -/
def chromiumVendors : List ImportVendor :=
  if includes file.lowerFilename (ascii "edge") then [.edge]
  else if includes file.lowerFilename (ascii "brave") then [.brave]
  else if includes file.lowerFilename (ascii "chrome") then [.chrome]
  else [.chrome, .edge, .brave]

end

/-- `vendors` is `none` where the signature does not recognise the file. -/
structure FormatSignature where
  parser : ImportParser
  vendors : FileEvidence → Option (List ImportVendor)

def signature (parser : ImportParser) (vendor : ImportVendor) (recognises : FileEvidence → Bool) :
    FormatSignature where
  parser
  vendors file := if recognises file then some [vendor] else none

def names (columns : List String) : List Text := columns.map ascii

def FORMAT_SIGNATURES : List FormatSignature := [
  signature .bitwardenJson .bitwarden fun file => isBitwardenJson file.json,
  signature .protonpassJson .protonpass fun file =>
    (asObject (property (asObject file.json) "vaults")).isSome &&
      (property (asObject file.json) "encrypted").isSome,
  signature .dashlaneJson .dashlane fun file => DASHLANE_JSON_KEYS.any (hasArray file.json),
  signature .keeperJson .keeper fun file => hasArray file.json "records" && hasArray file.json "shared_folders",
  signature .onepassword1pux .onepassword fun file =>
    (ascii ".1pux").isSuffixOf file.lowerFilename && ZIP_MAGIC.isPrefixOf file.content,
  signature .bitwardenCsv .bitwarden fun file =>
    hasColumns file (names ["login_uri", "login_username", "login_password", "reprompt"]),
  signature .lastpassCsv .lastpass fun file => hasColumns file
    (names ["grouping", "extra", "url", "username", "password"]),
  { parser := .browserCsv
    vendors := fun file =>
      if headerSetIs file (names ["name", "url", "username", "password", "note"]) ||
          headerSetIs file (names ["name", "url", "username", "password"]) then
        some (chromiumVendors file)
      else none },
  signature .browserCsv .firefox fun file =>
    hasColumns file (names ["url", "username", "password", "httprealm", "formactionorigin", "guid"]),
  signature .browserCsv .safari fun file =>
    headerSetIs file (names ["title", "url", "username", "password", "notes", "otpauth"]) ||
      headerSetIs file (names ["title", "url", "username", "password", "notes"]),
  signature .onepasswordCsv .onepassword fun file =>
    hasColumns file (names ["title", "password", "otpauth", "archived", "tags"]),
  signature .keepassCsv .keepassxc fun file =>
    hasColumns file (names ["group", "title", "username", "password", "url", "notes", "totp"]),
  signature .keepassCsv .keepass fun file =>
    headerIs file (names ["account", "login name", "password", "web site", "comments"]),
  signature .nordpassCsv .nordpass fun file =>
    hasColumns file (names ["name", "url", "username", "password", "cardholdername", "cvc", "folder"]),
  signature .dashlaneCsv .dashlane fun file =>
    hasColumns file (names ["title", "password", "url", "otpsecret", "category"])]

def UNRECOGNISED : DetectedFormat := ⟨.genericCsv, []⟩

def detect (p : Platform) (filename content : Text) : DetectedFormat :=
  let file := probe p filename content
  (FORMAT_SIGNATURES.findSome? fun signature => (signature.vendors file).map fun vendors =>
    ⟨signature.parser, vendors⟩).getD
    UNRECOGNISED

/-! ## The parsers by name -/

/-- What detection can answer, and Keeper's CSV, which has no header to sign. -/
inductive ManualFormat
  | detected (parser : ImportParser)
  | keeperCsv
  deriving DecidableEq, Repr

section
variable (p : Platform) (numberText : Int → Int → Text)

/-- `none` for a `.1pux`, which is read from its bytes. -/
def TEXT_PARSERS : ManualFormat → Option (Text → ImportResult)
  | .detected .browserCsv => parseBrowserCsv p
  | .detected .bitwardenCsv => parseBitwardenCsv p
  | .detected .bitwardenJson => Bitwarden.parseBitwardenJson numberText
  | .detected .lastpassCsv => parseLastPassCsv p
  | .detected .onepasswordCsv => parseOnePasswordCsv p
  | .detected .onepassword1pux => none
  | .detected .keepassCsv => parseKeePassCsv p
  | .detected .nordpassCsv => parseNordPassCsv p
  | .detected .dashlaneCsv => parseDashlaneCsv p
  | .detected .dashlaneJson => Dashlane.parseDashlaneJson
  | .detected .protonpassJson => ProtonPass.parseProtonPassJson
  | .detected .keeperJson => Keeper.parseKeeperJson
  | .detected .genericCsv => parseGenericCsv p none
  | .keeperCsv => parseKeeperCsv

end

end Keyhole.Import
