import Keyhole.Http.Items
import Keyhole.Vault.Crypto
import Keyhole.Vault.Store
import Mathlib.Algebra.Ring.Nat

/-!
# The item calls of a client

A call picks the key a body is sealed under from its own `collectionId`, and
becomes one request, or several for an upload.
-/

namespace Keyhole.Vault
open Sql Store Http

structure CollectionKey (K : Type) where
  id : Id
  key : K

structure Session (K : Type) where
  userKey : K
  collectionKeys : Table (CollectionKey.id (K := K))

def Session.getCollectionKey {K : Type} (session : Session K) (collectionId : Id) : Option K :=
  (session.collectionKeys.get? collectionId).map (·.key)

def parentKeyFor {K : Type} (session : Session K) : Option Id → Option K
  | none => some session.userKey
  | some collectionId => session.getCollectionKey collectionId

/-- `null` for `uploadItems` is an absent or null `collectionId`. -/
inductive ItemOperation (P : Type)
  | createItem (plaintext : P) (collectionId : Option Id)
  | updateItem (id : Id) (revision : Int) (collectionId : Option Id) (plaintext : P)
  | uploadItems (items : List P) (collectionId : Option Id)
  | deleteItem (id : Id)

/-! ## The chunks of an upload -/

namespace JSON

def escape (c : Char) : String :=
  if c.toNat = 34 then "\\\""
  else if c.toNat = 92 then "\\\\"
  else if c.toNat = 8 then "\\b"
  else if c.toNat = 9 then "\\t"
  else if c.toNat = 10 then "\\n"
  else if c.toNat = 12 then "\\f"
  else if c.toNat = 13 then "\\r"
  else if c.toNat < 32 then "\\u00" ++ (if c.toNat < 16 then "0" else "1") ++
    (Nat.digitChar (c.toNat % 16)).toString
  else c.toString

def quote (s : String) : String := "\"" ++ String.join (s.toList.map escape) ++ "\""

def length (s : String) : Nat := (s.toList.map fun c => if c.toNat < 65536 then 1 else 2).sum

end JSON

def stringifyEntry (entry : ItemRequest) : String :=
  "\x7b\"collectionId\":" ++ (entry.collectionID.map JSON.quote).getD "null" ++
    ",\"ciphertext\":" ++ JSON.quote entry.ciphertext ++
    ",\"wrappedItemKey\":" ++ JSON.quote entry.wrappedItemKey ++ "\x7d"

def MAX_ITEMS_PER_REQUEST : Nat := 1000

def MAX_BODY_BYTES : Nat := 8 * 2 ^ 20

def BODY_BUDGET : Nat := MAX_BODY_BYTES - 65536

def entryBytes (entry : ItemRequest) : Nat := JSON.length (stringifyEntry entry) + 1

/-- The loop of `uploadItems`: a chunk is closed by whichever limit it reaches first. -/
def chunks {α : Type} (bytes : α → Nat) (chunk : List α) (chunkBytes : Nat) : List α → List (List α)
  | [] => if chunk = [] then [] else [chunk]
  | entry :: rest =>
    if chunk ≠ [] ∧ (chunk.length ≥ MAX_ITEMS_PER_REQUEST ∨ chunkBytes + bytes entry > BODY_BUDGET) then
      chunk :: chunks bytes [entry] (bytes entry) rest
    else chunks bytes (chunk ++ [entry]) (chunkBytes + bytes entry) rest

theorem flatten_chunks {α : Type} (bytes : α → Nat) (chunk : List α) (chunkBytes : Nat) (entries : List α) :
    (chunks bytes chunk chunkBytes entries).flatten = chunk ++ entries := by
  induction entries generalizing chunk chunkBytes with
  | nil =>
    unfold chunks
    split
    · rename_i h
      simp [h]
    · simp
  | cons entry rest ih =>
    unfold chunks
    split
    · rw [List.flatten_cons, ih]
      simp
    · rw [ih]
      simp

/-! ## Requests -/

section
variable {K P : Type} (C : Crypto K P)

def entryFor (draw : ItemDraw K) (parentKey : K) (collectionId : Option Id) (revision : Int) (plaintext : P) :
    ItemRequest where
  collectionID := collectionId
  ciphertext := (encryptItem C draw plaintext parentKey).ciphertext
  wrappedItemKey := (encryptItem C draw plaintext parentKey).wrappedItemKey
  revision := revision

/-- The requests of a call, each beside the plaintexts it seals; `none` when the
session holds no key for the collection. `draw i` is what item `i` draws. -/
def ItemOperation.calls (session : Session K) (draw : Nat → ItemDraw K) :
    ItemOperation P → Option (List (ItemCall × List P))
  | createItem plaintext c =>
    (parentKeyFor session c).map fun key => [(.create (entryFor C (draw 0) key c 0 plaintext), [plaintext])]
  | updateItem id revision c plaintext =>
    (parentKeyFor session c).map fun key =>
      [(.update id (entryFor C (draw 0) key c revision plaintext), [plaintext])]
  | uploadItems items c =>
    if items = [] then some []
    else (parentKeyFor session c).map fun key =>
      let entries := items.zipIdx.map fun e => (entryFor C (draw e.2) key c 0 e.1, e.1)
      (chunks (fun e => entryBytes e.1) [] 0 entries).map fun chunk => (.bulk (chunk.map (·.1)), chunk.map (·.2))
  | deleteItem id => some [(.delete id, [])]

def Session.opens (session : Session K) (usable : CollectionWithMembership → Bool) : Opens P where
  item item := (parentKeyFor session item.collectionID).bind
    (decryptItem C ⟨item.ciphertext, item.wrappedItemKey⟩)
  folder folder := C.decryptString folder.encryptedName session.userKey
  collection := usable

end

end Keyhole.Vault
