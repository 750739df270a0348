import Keyhole.Crypto.Item
import Keyhole.Store.Users
import Keyhole.Vault.Crypto
import Keyhole.Vault.Store

/-!
# What is read back

Strings, folder names and items through an encryption and back. The decoder
takes a mark at the start of a string for an encoding's, so a string that
begins with one comes back without it.
-/

namespace Keyhole.Crypto
open Unicode Json Store

/-! ## Texts on the wire -/

def ofWire (s : String) : Text := utf16 s.toList

def toWire (t : Text) : String := .ofList (scalars t)

theorem ofWire_toWire {t : Text} (h : WellFormed t) : ofWire (toWire t) = t := by
  obtain ⟨cs, rfl⟩ := h
  unfold toWire ofWire
  rw [scalars_utf16, String.toList_ofList]

theorem ofWire_sealed (P : Platform) (nonce : Random NONCE_BYTES) (plaintext key : Bytes) :
    ofWire (toWire (sealed P nonce plaintext key)) = sealed P nonce plaintext key :=
  ofWire_toWire (wellFormed_serialize _)

/-! ## Folders -/

section
variable (P : Platform)

def toRecord (folder : Folder) (name : Option String) : Vault.FolderRecord where
  id := folder.id
  revision := folder.revision
  deletedAt := folder.deletedAt
  name

/-- The server's half is the store's own create. -/
def createFolder (nonce : Random NONCE_BYTES) (name : String) (userKey : Bytes) (now : Time) (id userID : Id)
    (db : Db) : Except CryptoError (Except StoreError Vault.FolderRecord × Db) := do
  let encryptedName ← encryptString P nonce (ofWire name) userKey
  let (created, db) := Store.createFolder now id userID (toWire encryptedName) db
  return (created.map (toRecord · (some name)), db)

def renameFolder (nonce : Random NONCE_BYTES) (name : String) (userKey : Bytes) (now : Time) (id : Id)
    (revision : Int) (db : Db) : Except CryptoError (Except StoreError Vault.FolderRecord × Db) := do
  let encryptedName ← encryptString P nonce (ofWire name) userKey
  let (updated, db) := Store.updateFolder now id revision (toWire encryptedName) db
  return (updated.map (toRecord · (some name)), db)

/-- A name that will not open is a broken folder, not a broken vault. -/
def openFolder (userKey : Bytes) (folder : Folder) : Option String :=
  match decryptString P (ofWire folder.encryptedName) userKey with
  | .ok name => some (toWire name)
  | .error _ => none

def decryptFolders (wire : List Folder) (userKey : Bytes) : List Vault.FolderRecord :=
  wire.map fun folder => toRecord folder (if folder.deletedAt.isSome then none else openFolder P userKey folder)

theorem decryptFolders_vault {B : Type} {opens : Vault.Opens B} {userKey : Bytes}
    (h : opens.folder = openFolder P userKey) (wire : List Folder) :
    Vault.decryptFolders opens wire = decryptFolders P wire userKey := by
  unfold Vault.decryptFolders decryptFolders
  apply List.map_congr_left
  intro folder _
  unfold Vault.decryptFolder
  rw [h]
  rfl

/-- `record` is what a create or a rename with this name answered, and `db` the store after it. -/
def SavedFolder (userKey : Bytes) (name : String) (record : Vault.FolderRecord) (db : Db) : Prop :=
  (∃ nonce now id userID before, createFolder P nonce name userKey now id userID before = .ok (.ok record, db)) ∨
    ∃ nonce now id revision before, renameFolder P nonce name userKey now id revision before = .ok (.ok record, db)

variable {P} {userKey : Bytes} (hk : userKey.length = KEY_BYTES)
include hk

theorem savedFolder_row {name : String} {record : Vault.FolderRecord} {db : Db}
    (h : SavedFolder P userKey name record db) :
    ∃ nonce folder, db.folders.get? record.id = some folder ∧ record = toRecord folder (some name) ∧
      folder.encryptedName = toWire (sealed P nonce (utf8Encode (ofWire name)) userKey) ∧
        folder.deletedAt = none := by
  rcases h with ⟨nonce, now, id, userID, before, h⟩ | ⟨nonce, now, id, revision, before, h⟩
  · unfold createFolder at h
    rw [encryptString_ok P hk] at h
    simp only [bind, Except.bind, pure, Except.pure, Except.ok.injEq, Prod.mk.injEq] at h
    generalize hs : Store.createFolder now id userID _ before = answer at h
    obtain ⟨answer, after⟩ := answer
    cases answer with
    | error e => cases h.1
    | ok folder =>
      obtain ⟨hr, rfl⟩ := h
      cases hr
      obtain ⟨folders, hins, -, -, hname, -, hdel, -, rfl⟩ := createFolder_ok hs
      exact ⟨nonce, folder, Sql.Table.get?_eq_some.mpr ⟨(Sql.Table.mem_insert? hins).mpr (.inr rfl), rfl⟩,
        rfl, hname,
        hdel⟩
  · unfold renameFolder at h
    rw [encryptString_ok P hk] at h
    simp only [bind, Except.bind, pure, Except.pure, Except.ok.injEq, Prod.mk.injEq] at h
    generalize hs : Store.updateFolder now id revision _ before = answer at h
    obtain ⟨answer, after⟩ := answer
    cases answer with
    | error e => cases h.1
    | ok folder =>
      obtain ⟨hr, rfl⟩ := h
      cases hr
      obtain ⟨current, -, hdel, -, rfl, rfl⟩ := updateFolderTx_ok (updateFolder_ok hs)
      exact ⟨nonce, _, Sql.Table.get?_eq_some.mpr ⟨Sql.Table.mem_upsert.mpr (.inr rfl), rfl⟩, rfl, rfl, hdel⟩

theorem openFolder_saved {folder : Folder} {nonce : Random NONCE_BYTES} {name : String}
    (h : folder.encryptedName = toWire (sealed P nonce (utf8Encode (ofWire name)) userKey)) :
    openFolder P userKey folder = some (.ofList (withoutBom name.toList)) := by
  unfold openFolder
  rw [h, ofWire_sealed, decryptString_sealed P hk, ofWire, utf8Decode_encode]
  simp only [toWire, scalars_utf16]

theorem synced_name {name : String} {record : Vault.FolderRecord} {db later : Db} {folder : Folder}
    (h : SavedFolder P userKey name record db) (hrow : db.folders.get? record.id = some folder)
    (hlater : later.folders.get? record.id = some folder) {since : Int} (hsince : since < record.revision) :
    (∃ r ∈ decryptFolders P (later.syncSince folder.userID since).folders userKey, r.id = record.id) ∧
      ∀ r ∈ decryptFolders P (later.syncSince folder.userID since).folders userKey, r.id = record.id →
        r.name = some (.ofList (withoutBom name.toList)) := by
  obtain ⟨nonce, row, hget, rfl, hname, hdel⟩ := savedFolder_row hk h
  rw [hget, Option.some.injEq] at hrow
  subst hrow
  have hin := (Sql.Table.get?_eq_some.mp hlater).1
  constructor
  · exact ⟨_, List.mem_map.mpr ⟨row, mem_syncFolders.mpr ⟨hin, rfl, hsince⟩, rfl⟩, rfl⟩
  · intro r hr hid
    obtain ⟨other, hother, rfl⟩ := List.mem_map.mp hr
    have hother := (mem_syncFolders.mp hother).1
    have hsame : other = row := by
      have hget := Sql.Table.get?_eq_some.mpr ⟨hother, hid⟩
      exact Option.some.inj (hget.symm.trans hlater)
    subst hsame
    rw [if_neg (by simp [hdel]), toRecord, openFolder_saved hk hname]

end

/-! ## When nothing is lost -/

theorem withoutBom_eq_iff {cs : List Char} : withoutBom cs = cs ↔ cs.head? ≠ some byteOrderMark := by
  cases cs with
  | nil => simp [withoutBom]
  | cons c cs =>
    rw [withoutBom]
    by_cases h : c = byteOrderMark
    · simp only [h, if_true, List.head?_cons, ne_eq, not_true_eq_false, iff_false]
      exact fun he => absurd (congrArg List.length he) (by simp)
    · simp [h]

theorem ofList_withoutBom_iff {name : String} :
    String.ofList (withoutBom name.toList) = name ↔ name.toList.head? ≠ some byteOrderMark := by
  rw [← withoutBom_eq_iff, ← String.toList_inj, String.toList_ofList]

theorem decrypt_encrypt_iff (P : Platform) {key : Bytes} (hk : key.length = KEY_BYTES) :
    (∀ nonce cs, (encryptString P nonce (utf16 cs) key).bind (decryptString P · key) = .ok (utf16 cs) ↔
      cs.head? ≠ some byteOrderMark) ∧
    (∀ name record (db later : Db) folder since, SavedFolder P key name record db →
      db.folders.get? record.id = some folder → later.folders.get? record.id = some folder →
        since < record.revision →
        ((∃ r ∈ decryptFolders P (later.syncSince folder.userID since).folders key,
          r.id = record.id ∧ r.name = some name) ↔ name.toList.head? ≠ some byteOrderMark)) ∧
    ∀ draw item, (encryptItem P draw item key).bind (decryptItem P · key) = .ok item := by
  refine ⟨fun nonce cs => ?_, ?_, fun draw item => decryptItem_encryptItem P draw item hk⟩
  · rw [decryptString_encryptString P hk, ← withoutBom_eq_iff, Except.ok.injEq]
    exact ⟨utf16_inj, congrArg utf16⟩
  · intro name record db later folder since hsaved hrow hlater hsince
    obtain ⟨⟨r, hr, hid⟩, hname⟩ := synced_name hk hsaved hrow hlater hsince
    rw [← ofList_withoutBom_iff]
    constructor
    · rintro ⟨r, hr, hid, he⟩
      have hlost := hname r hr hid
      rw [he, Option.some.injEq] at hlost
      exact hlost.symm
    · intro he
      exact ⟨r, hr, hid, by rw [hname r hr hid, he]⟩

/-! A stand-in that knows its key by a tag, and the first folder of a new account. -/

def tagged : Platform where
  encrypt key _ plaintext := plaintext ++ key.take 16
  decrypt key _ ciphertext :=
    if key.take 16 <:+ ciphertext then some (ciphertext.take (ciphertext.length - (key.take 16).length)) else none
  numberText mantissa _ := integer mantissa
  decrypt_encrypt key nonce plaintext _ _ := by simp

def zeroKey : Random KEY_BYTES := ⟨.replicate 32 0, rfl⟩

def zeroNonce : Random NONCE_BYTES := ⟨.replicate 12 0, rfl⟩

def signedUp : Db := (Store.createPendingUser 0 "ann" "ann@home" "Ann" "user" Db.fresh).2

def workRow : Folder :=
  ⟨"work", "ann", toWire (sealed tagged zeroNonce (utf8Encode (ofWire "Work")) zeroKey.val), 1, 0, 0, none⟩

def workSaved : Db := { signedUp with folders := ⟨[workRow], by simp⟩, revisionSequence := 1 }

theorem decrypt_encrypt_work :
    (∃ r ∈ decryptFolders tagged (workSaved.syncSince "ann" 0).folders zeroKey.val,
        r.id = "work" ∧ r.name = some "Work") ↔
      "Work".toList.head? ≠ some byteOrderMark :=
  (decrypt_encrypt_iff tagged zeroKey.property).2.1 "Work"
    (toRecord workRow (some "Work")) workSaved workSaved workRow 0
    (.inl ⟨zeroNonce, 0, "work", "ann", signedUp, by
      unfold createFolder
      rw [encryptString_ok tagged zeroKey.property]
      rfl⟩) rfl rfl (by decide)

/-- Whatever the cipher is, a string that begins with the mark is not the one that comes back. -/
theorem mark_lost : ¬ ∃ P : Platform,
    (encryptString P zeroNonce (utf16 ('\uFEFF' :: "Work".toList)) zeroKey.val).bind
      (decryptString P · zeroKey.val) =
      .ok (utf16 ('\uFEFF' :: "Work".toList)) := by
  rintro ⟨P, h⟩
  rw [decryptString_encryptString P zeroKey.property, Except.ok.injEq] at h
  exact absurd (congrArg List.length (utf16_inj h)) (by simp [withoutBom, byteOrderMark])

/-! ## The vault's laws -/

section
variable (P : Platform) (nonceOf : String → Random NONCE_BYTES)

/-- No other key opens what a key sealed. -/
def Platform.Authentic : Prop :=
  ∀ key key' nonce plaintext, key' ≠ key → P.decrypt key' nonce (P.encrypt key nonce plaintext) = none

theorem unwrapKey_other {P : Platform} (hauth : P.Authentic) (nonce : Random NONCE_BYTES) (plaintext : Bytes)
    {key key' : Bytes} (hk : key'.length = KEY_BYTES) (hne : key' ≠ key) :
    unwrapKey P (sealed P nonce plaintext key) key' = .error .decryption := by
  unfold unwrapKey sealed
  rw [parseEnvelope_serialize]
  simp only [decryptBytes, importKey_ok hk, fromBase64_toBase64, bind, Except.bind,
    hauth key key' nonce.val plaintext hne]
  rfl

/-- The vault's view of this package. -/
def vaultCrypto (hauth : P.Authentic) : Vault.Crypto (Random KEY_BYTES) ItemPlaintext where
  encryptString plaintext key n := toWire (sealed P (nonceOf n) (utf8Encode (ofWire plaintext)) key.val)
  decryptString serialized key :=
    match decryptString P (ofWire serialized) key.val with
    | .ok plaintext => some (toWire plaintext)
    | .error _ => none
  wrapKey keyToWrap wrappingKey n := toWire (sealed P (nonceOf n) keyToWrap.val wrappingKey.val)
  unwrapKey wrapped wrappingKey :=
    match unwrapKey P (ofWire wrapped) wrappingKey.val with
    | .ok key => if h : key.length = KEY_BYTES then some ⟨key, h⟩ else none
    | .error _ => none
  stringify item := toWire (stringify item.toJson)
  parse body := (parse (ofWire body)).bind asItemPlaintext
  decrypt_encrypt item key n := by
    obtain ⟨cs, hbody, hmark⟩ := body_unmarked item
    rw [ofWire_sealed, decryptString_sealed P key.property, ofWire_toWire (wellFormed_stringify _), hbody,
      utf8Decode_encode, hmark]
  unwrap_wrap keyToWrap wrappingKey n := by
    rw [ofWire_sealed, unwrapKey_sealed P wrappingKey.property]
    exact dif_pos keyToWrap.property
  unwrap_other keyToWrap wrappingKey other n hne := by
    rw [ofWire_sealed, unwrapKey_other hauth _ _ other.property fun he => hne (Subtype.ext he)]
  parse_stringify item := by
    rw [ofWire_toWire (wellFormed_stringify _), parse_stringify, Option.bind_some, asItemPlaintext_toJson]

theorem encryptItem_vault (hauth : P.Authentic) (draw : Vault.ItemDraw (Random KEY_BYTES)) (item : ItemPlaintext)
    (parentKey : Random KEY_BYTES) :
    encryptItem P ⟨draw.itemKey, nonceOf draw.bodyNonce, nonceOf draw.keyNonce⟩ item parentKey.val =
      .ok { ciphertext := ofWire (Vault.encryptItem (vaultCrypto P nonceOf hauth) draw item parentKey).ciphertext
            wrappedItemKey :=
              ofWire (Vault.encryptItem (vaultCrypto P nonceOf hauth) draw item parentKey).wrappedItemKey } := by
  unfold encryptItem Vault.encryptItem vaultCrypto
  rw [encryptString_ok P draw.itemKey.property, wrapKey_ok P parentKey.property]
  simp only [bind, Except.bind, pure, Except.pure, ofWire_sealed, ofWire_toWire (wellFormed_stringify _)]

end

end Keyhole.Crypto
