import Mathlib.Data.List.Basic

/-!
# What an importer produces

Texts are lists of UTF-16 code units, as the language the importers are
written in has them. Unicode's case mapping and the parsing of a URL are the
platform's.
-/

namespace Keyhole.Import

abbrev CodeUnit : Type := UInt16

abbrev Text : Type := List CodeUnit

/-- The constants of the source are all ASCII. -/
def ascii (s : String) : Text := s.toList.map fun c => UInt16.ofNat c.toNat

def decimal (n : Nat) : Text := ascii (toString n)

/-- `host` is `none` where `new URL(url)` throws. -/
structure Platform where
  toLowerCase : Text → Text
  host : Text → Option Text

/-! ## Strings -/

/-- White space and line terminators of the language. -/
def isSpace (c : CodeUnit) : Bool :=
  (9 ≤ c && c ≤ 13) || c = 0x20 || c = 0xA0 || c = 0x1680 || (0x2000 ≤ c && c ≤ 0x200A) || c = 0x2028 ||
    c = 0x2029 || c = 0x202F || c = 0x205F || c = 0x3000 || c = 0xFEFF

def trim (s : Text) : Text := ((s.dropWhile isSpace).reverse.dropWhile isSpace).reverse

/-- The text without `sep` at its head, if it is there. -/
def afterPrefix (sep s : Text) : Option Text := if sep.isPrefixOf s then some (s.drop sep.length) else none

/-- `piece` is the segment in progress. Every step consumes, so `fuel` is the length of the text. -/
def splitFrom (sep : Text) : (fuel : Nat) → (piece s : Text) → List Text
  | 0, piece, _ => [piece]
  | _ + 1, piece, [] => [piece]
  | fuel + 1, piece, c :: s =>
    match afterPrefix sep (c :: s) with
    | some rest => piece :: splitFrom sep fuel [] rest
    | none => splitFrom sep fuel (piece ++ [c]) s

/-- An empty separator splits into code units. -/
def split (s sep : Text) : List Text :=
  if sep = [] then s.map ([·]) else splitFrom sep s.length [] s

def join (sep : Text) (parts : List Text) : Text := sep.intercalate parts

/-! ## The intermediate shape -/

inductive ImportItemType
  | login
  | note
  deriving DecidableEq, Repr

inductive ImportFieldKind
  | totp
  | custom
  | metadata
  deriving DecidableEq, Repr

structure ImportField where
  name : Text
  value : Text
  kind : ImportFieldKind
  deriving DecidableEq, Repr

structure ImportItem where
  type : ImportItemType
  name : Text
  username : Text
  password : Text
  urls : List Text
  notes : Text
  favorite : Bool
  folderPath : List Text
  extra : List ImportField
  sourceRow : Nat
  deriving DecidableEq, Repr

structure ImportRowError where
  row : Nat
  message : Text
  deriving DecidableEq, Repr

structure ImportResult where
  items : List ImportItem
  errors : List ImportRowError
  deriving DecidableEq, Repr

def blankImportItem (sourceRow : Nat) : ImportItem where
  type := .login
  name := []
  username := []
  password := []
  urls := []
  notes := []
  favorite := false
  folderPath := []
  extra := []
  sourceRow

def folderSegments (path separator : Text) : List Text := (split path separator).filter (· ≠ [])

end Keyhole.Import
