import Keyhole.Crypto.Symmetric

/-!
# Items

An item's body is JSON under a key of its own, and that key is wrapped under
the parent's. What comes out of a body is checked before it is an item.
-/

namespace Keyhole.Crypto
open Unicode Json

structure PasswordHistoryEntry where
  password : Text
  changedAt : Text
  deriving DecidableEq, Repr

structure LoginItem where
  name : Text
  username : Text
  password : Text
  urls : List Text
  notes : Text
  favorite : Bool
  folderId : Option Text
  passwordHistory : List PasswordHistoryEntry
  deriving DecidableEq, Repr

structure NoteItem where
  name : Text
  notes : Text
  favorite : Bool
  folderId : Option Text
  deriving DecidableEq, Repr

inductive ItemPlaintext
  | login (item : LoginItem)
  | note (item : NoteItem)
  deriving DecidableEq, Repr

structure EncryptedItem where
  ciphertext : Text
  wrappedItemKey : Text
  deriving DecidableEq, Repr

/-! ## The body -/

def ofNullable (value : Option Text) : Json :=
  match value with
  | some s => .string s
  | none => .null

def PasswordHistoryEntry.toJson (entry : PasswordHistoryEntry) : Json :=
  .object [(units "password", .string entry.password), (units "changedAt", .string entry.changedAt)]

def ItemPlaintext.toJson : ItemPlaintext → Json
  | .login item => .object [(units "type", .string (units "login")), (units "name", .string item.name),
      (units "username", .string item.username), (units "password", .string item.password),
      (units "urls", .array (item.urls.map .string)), (units "notes", .string item.notes),
      (units "favorite", .bool item.favorite), (units "folderId", ofNullable item.folderId),
      (units "passwordHistory", .array (item.passwordHistory.map PasswordHistoryEntry.toJson))]
  | .note item => .object [(units "type", .string (units "note")), (units "name", .string item.name),
      (units "notes", .string item.notes), (units "favorite", .bool item.favorite),
      (units "folderId", ofNullable item.folderId)]

/-! Each check of the source, with what it lets through. -/

def asString (value : Option Json) : Option Text :=
  match value with
  | some (.string s) => some s
  | _ => none

def asBoolean (value : Option Json) : Option Bool :=
  match value with
  | some (.bool b) => some b
  | _ => none

def asStringOrNull (value : Option Json) : Option (Option Text) :=
  match value with
  | some (.string s) => some (some s)
  | some .null => some none
  | _ => none

def asStringArray (value : Option Json) : Option (List Text) :=
  match value with
  | some (.array xs) => xs.mapM fun x => asString (some x)
  | _ => none

/-- An array passes as an object; it has none of the fields. -/
def asPasswordHistoryEntry (entry : Json) : Option PasswordHistoryEntry := do
  return {
    password := ← asString (entry.get (units "password"))
    changedAt := ← asString (entry.get (units "changedAt")) }

def asPasswordHistory (value : Option Json) : Option (List PasswordHistoryEntry) :=
  match value with
  | some (.array xs) => xs.mapM asPasswordHistoryEntry
  | _ => none

/-- `assertItemPlaintext` and the cast after it. -/
def asItemPlaintext (value : Json) : Option ItemPlaintext := do
  let name ← asString (value.get (units "name"))
  let notes ← asString (value.get (units "notes"))
  let favorite ← asBoolean (value.get (units "favorite"))
  let folderId ← asStringOrNull (value.get (units "folderId"))
  if isString (value.get (units "type")) (units "note") then
    return .note { name, notes, favorite, folderId }
  else if isString (value.get (units "type")) (units "login") then
    return .login {
      name, notes, favorite, folderId
      username := ← asString (value.get (units "username"))
      password := ← asString (value.get (units "password"))
      urls := ← asStringArray (value.get (units "urls"))
      passwordHistory := ← asPasswordHistory (value.get (units "passwordHistory")) }
  else none

def ITEM_KEY_BYTES : Nat := 32

structure ItemDraw where
  itemKey : Random ITEM_KEY_BYTES
  bodyNonce : Random NONCE_BYTES
  keyNonce : Random NONCE_BYTES

section
variable (P : Platform)

def encryptItem (draw : ItemDraw) (item : ItemPlaintext) (parentKey : Bytes) :
    Except CryptoError EncryptedItem := do
  let ciphertext ← encryptString P draw.bodyNonce (stringify item.toJson) draw.itemKey.val
  let wrappedItemKey ← wrapKey P draw.keyNonce draw.itemKey.val parentKey
  return { ciphertext, wrappedItemKey }

/-- What a body is refused with: an error of the package as it is, any other as a failed decryption. -/
def translated : CryptoError → CryptoError
  | .typeError => .decryption
  | e => e

def decryptItem (encrypted : EncryptedItem) (parentKey : Bytes) : Except CryptoError ItemPlaintext := do
  let itemKey ← unwrapKey P encrypted.wrappedItemKey parentKey
  let body ← (decryptString P encrypted.ciphertext itemKey).mapError translated
  match (parse body).bind asItemPlaintext with
  | some item => return item
  | none => throw .decryption

end

/-! ## A body is read back -/

theorem asStringOrNull_ofNullable (value : Option Text) :
    asStringOrNull (some (ofNullable value)) = some value := by
  cases value <;> rfl

theorem mapM_map_some {α β : Type} (f : α → β) (g : β → Option α) (h : ∀ a, g (f a) = some a)
    (as : List α) :
    (as.map f).mapM g = some as := by
  induction as with
  | nil => rfl
  | cons a as ih => rw [List.map_cons, List.mapM_cons, h, ih]; rfl

theorem asStringArray_map (urls : List Text) : asStringArray (some (.array (urls.map .string))) = some urls :=
  mapM_map_some string (fun x => asString (some x)) (fun _ => rfl) urls

theorem asPasswordHistory_map (entries : List PasswordHistoryEntry) :
    asPasswordHistory (some (.array (entries.map PasswordHistoryEntry.toJson))) = some entries :=
  mapM_map_some PasswordHistoryEntry.toJson asPasswordHistoryEntry (fun _ => rfl) entries

theorem asItemPlaintext_toJson (item : ItemPlaintext) : asItemPlaintext item.toJson = some item := by
  cases item with
  | note item =>
    change (asStringOrNull (some (ofNullable item.folderId))).bind _ = _
    rw [asStringOrNull_ofNullable]
    rfl
  | login item =>
    change (asStringOrNull (some (ofNullable item.folderId))).bind _ = _
    rw [asStringOrNull_ofNullable]
    change (asStringArray (some (.array (item.urls.map .string)))).bind _ = _
    rw [asStringArray_map]
    change (asPasswordHistory (some (.array (item.passwordHistory.map PasswordHistoryEntry.toJson)))).bind _ = _
    rw [asPasswordHistory_map]
    rfl

/-- A body begins with a brace, whatever the item's own text begins with. -/
theorem body_unmarked (item : ItemPlaintext) :
    ∃ cs, stringify item.toJson = utf16 cs ∧ withoutBom cs = cs := by
  obtain ⟨cs, hcs⟩ := wellFormed_stringify item.toJson
  refine ⟨cs, hcs, ?_⟩
  have hbrace : ∃ t, utf16 cs = unit '{' :: t := by
    rw [← hcs]
    cases item <;> exact ⟨_, by rw [ItemPlaintext.toJson, stringify]⟩
  obtain ⟨t, ht⟩ := hbrace
  cases cs with
  | nil => rfl
  | cons c cs =>
    rw [withoutBom, if_neg]
    rintro rfl
    rw [utf16, List.flatMap_cons] at ht
    exact absurd (congrArg List.head? ht) (by simp [utf16Char, byteOrderMark, unit])

theorem decryptItem_encryptItem (P : Platform) (draw : ItemDraw) (item : ItemPlaintext) {parentKey : Bytes}
    (hk : parentKey.length = KEY_BYTES) :
    (encryptItem P draw item parentKey).bind (decryptItem P · parentKey) = .ok item := by
  obtain ⟨cs, hbody, hmark⟩ := body_unmarked item
  have hopened := decryptString_sealed P draw.itemKey.property draw.bodyNonce (utf8Encode (utf16 cs))
  rw [utf8Decode_encode, hmark, ← hbody] at hopened
  have hkey := unwrapKey_sealed P hk draw.keyNonce draw.itemKey.val
  unfold encryptItem
  rw [encryptString_ok P draw.itemKey.property, wrapKey_ok P hk]
  simp only [bind, Except.bind, pure, Except.pure, decryptItem, hkey, hopened, Except.mapError, parse_stringify,
    Option.bind_some, asItemPlaintext_toJson]

end Keyhole.Crypto
