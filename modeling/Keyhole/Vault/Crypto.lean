import Mathlib.Logic.Basic

/-!
# What the vault asks of its cryptography

Strings and keys under authenticated encryption, and an item's body as JSON.
The laws are those of an AEAD: what a key seals, that key opens, and no
other does. A string is only given back when it is a body.
-/

namespace Keyhole.Vault

/-- `n` is the nonce an encryption draws. `parse` is `JSON.parse` followed by
`assertItemPlaintext`. -/
structure Crypto (K P : Type) where
  encryptString : (plaintext : String) → (key : K) → (n : String) → String
  decryptString : (serialized : String) → (key : K) → Option String
  wrapKey : (keyToWrap wrappingKey : K) → (n : String) → String
  unwrapKey : (wrapped : String) → (wrappingKey : K) → Option K
  stringify : P → String
  parse : String → Option P
  decrypt_encrypt : ∀ p k n, decryptString (encryptString (stringify p) k n) k = some (stringify p)
  unwrap_wrap : ∀ k w n, unwrapKey (wrapKey k w n) w = some k
  unwrap_other : ∀ k w w' n, w' ≠ w → unwrapKey (wrapKey k w n) w' = none
  parse_stringify : ∀ p, parse (stringify p) = some p

/-- Keys sealed to a public key. `secret` is what a blob was made from, whoever opens it. -/
structure Sealing (K : Type) where
  openSealed : (blob : String) → (recipientPrivateKey : K) → Option K
  secret : String → Option K
  secret_of_open : ∀ {blob p k}, openSealed blob p = some k → secret blob = some k

structure EncryptedItem where
  ciphertext : String
  wrappedItemKey : String
  deriving DecidableEq, Repr

structure ItemDraw (K : Type) where
  itemKey : K
  bodyNonce : String
  keyNonce : String

section
variable {K P : Type} (C : Crypto K P)

def encryptItem (draw : ItemDraw K) (item : P) (parentKey : K) : EncryptedItem where
  ciphertext := C.encryptString (C.stringify item) draw.itemKey draw.bodyNonce
  wrappedItemKey := C.wrapKey draw.itemKey parentKey draw.keyNonce

def decryptItem (encrypted : EncryptedItem) (parentKey : K) : Option P := do
  let itemKey ← C.unwrapKey encrypted.wrappedItemKey parentKey
  let body ← C.decryptString encrypted.ciphertext itemKey
  C.parse body

theorem decryptItem_encryptItem (draw : ItemDraw K) (item : P) (parentKey : K) :
    decryptItem C (encryptItem C draw item parentKey) parentKey = some item := by
  unfold decryptItem encryptItem
  simp [C.unwrap_wrap, C.decrypt_encrypt, C.parse_stringify]

end

end Keyhole.Vault
