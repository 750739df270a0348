import Keyhole.Crypto.Encoding

/-!
# Authenticated encryption

An envelope holds a nonce and a ciphertext, and is written as JSON. AES-GCM
is the platform's: under one key and one nonce it opens what it sealed.
-/

namespace Keyhole.Crypto
open Unicode Json

def KEY_BYTES : Nat := 32

def NONCE_BYTES : Nat := 12

/-- `globalThis.crypto.subtle` with a tag of 128 bits, which `decrypt` rejects with `none`, and how the language
writes a number. -/
structure Platform where
  encrypt : (key nonce plaintext : Bytes) → Bytes
  decrypt : (key nonce ciphertext : Bytes) → Option Bytes
  numberText : Int → Int → Text
  decrypt_encrypt : ∀ key nonce plaintext, key.length = KEY_BYTES → nonce.length = NONCE_BYTES →
    decrypt key nonce (encrypt key nonce plaintext) = some plaintext

/-- What `randomBytes(length)` can answer. -/
abbrev Random (length : Nat) : Type := { bytes : Bytes // bytes.length = length }

structure Envelope where
  n : Text
  ct : Text
  deriving DecidableEq, Repr

def bytesReceived (what : String) (expected received : Nat) : CryptoError :=
  .invalidKey (units what ++ units " must be " ++ decimal expected ++ units " bytes, received " ++ decimal received)

def importKey (key : Bytes) : Except CryptoError Unit :=
  if key.length ≠ KEY_BYTES then .error (bytesReceived "Symmetric key" KEY_BYTES key.length) else .ok ()

section
variable (P : Platform)

def encryptBytesWithNonce (plaintext key nonce : Bytes) : Except CryptoError Envelope := do
  if nonce.length ≠ NONCE_BYTES then
    throw (bytesReceived "Nonce" NONCE_BYTES nonce.length)
  importKey key
  return { n := toBase64 nonce, ct := toBase64 (P.encrypt key nonce plaintext) }

def encryptBytes (nonce : Random NONCE_BYTES) (plaintext key : Bytes) : Except CryptoError Envelope :=
  encryptBytesWithNonce P plaintext key nonce.val

/-- Whatever goes wrong after the key is imported is one error. -/
def decryptBytes (envelope : Envelope) (key : Bytes) : Except CryptoError Bytes := do
  importKey key
  match fromBase64 envelope.n, fromBase64 envelope.ct with
  | .ok nonce, .ok ciphertext =>
    match P.decrypt key nonce ciphertext with
    | some plaintext => return plaintext
    | none => throw .decryption
  | _, _ => throw .decryption

def serializeEnvelope (envelope : Envelope) : Text :=
  stringify (.object [(units "v", .number 1 0), (units "alg", .string (units "A256GCM")),
    (units "n", .string envelope.n),
    (units "ct", .string envelope.ct)])

def isOne (value : Option Json) : Bool :=
  match value with
  | some (.number mantissa exponent) => roundsTo mantissa exponent 1
  | _ => false

def isString (value : Option Json) (s : Text) : Bool :=
  match value with
  | some (.string t) => t = s
  | _ => false

/-- The error that names what a field holds, where `none` is `undefined`. The name itself may throw. -/
def unsupported (what : String) (value : Option Json) : CryptoError :=
  match value.elim (some (units "undefined")) (·.text P.numberText) with
  | some name => .malformedEnvelope (units what ++ name)
  | none => .typeError

/-- An array passes as an object; it has none of the fields. -/
def parseEnvelope (serialized : Text) : Except CryptoError Envelope := do
  match parse serialized with
  | none => throw (.malformedEnvelope (units "Envelope is not valid JSON"))
  | some raw =>
    match raw with
    | .object _ | .array _ => pure ()
    | _ => throw (.malformedEnvelope (units "Envelope must be an object"))
    if !isOne (raw.get (units "v")) then
      throw (unsupported P "Unsupported envelope version: " (raw.get (units "v")))
    if !isString (raw.get (units "alg")) (units "A256GCM") then
      throw (unsupported P "Unsupported algorithm: " (raw.get (units "alg")))
    match raw.get (units "n"), raw.get (units "ct") with
    | some (.string n), some (.string ct) => return { n, ct }
    | _, _ => throw (.malformedEnvelope (units "Envelope is missing 'n' or 'ct'"))

def encryptString (nonce : Random NONCE_BYTES) (plaintext : Text) (key : Bytes) : Except CryptoError Text := do
  let envelope ← encryptBytes P nonce (utf8Encode plaintext) key
  return serializeEnvelope envelope

def decryptString (serialized : Text) (key : Bytes) : Except CryptoError Text := do
  let bytes ← decryptBytes P (← parseEnvelope P serialized) key
  return utf8Decode bytes

def wrapKey (nonce : Random NONCE_BYTES) (keyToWrap wrappingKey : Bytes) : Except CryptoError Text := do
  let envelope ← encryptBytes P nonce keyToWrap wrappingKey
  return serializeEnvelope envelope

def unwrapKey (wrapped : Text) (wrappingKey : Bytes) : Except CryptoError Bytes := do
  decryptBytes P (← parseEnvelope P wrapped) wrappingKey

/-! ## What is sealed is opened -/

theorem parseEnvelope_serialize (envelope : Envelope) :
    parseEnvelope P (serializeEnvelope envelope) = .ok envelope := by
  unfold parseEnvelope serializeEnvelope
  rw [parse_stringify]
  rfl

/-- What `unsupported` throws, it throws for every platform alike. -/
theorem unsupported_eq (what : String) (value : Option Json) :
    (unsupported P what value = .typeError ∧ value.any hidesToString = true) ∨
      ((∃ message, unsupported P what value = .malformedEnvelope message) ∧ value.any hidesToString = false) := by
  unfold unsupported
  cases value with
  | none => exact .inr ⟨⟨_, rfl⟩, rfl⟩
  | some value =>
    have hnone := text_eq_none P.numberText value
    simp only [Option.elim_some, Option.any_some]
    cases h : value.text P.numberText with
    | none => exact .inl ⟨rfl, hnone.mp h⟩
    | some name =>
      rw [h] at hnone
      exact .inr ⟨⟨_, rfl⟩, Bool.eq_false_iff.mpr fun hh => by cases hnone.mpr hh⟩

theorem wellFormed_serialize (envelope : Envelope) : WellFormed (serializeEnvelope envelope) :=
  wellFormed_stringify _

def sealed (nonce : Random NONCE_BYTES) (plaintext key : Bytes) : Text :=
  serializeEnvelope { n := toBase64 nonce.val, ct := toBase64 (P.encrypt key nonce.val plaintext) }

variable {key : Bytes} (hk : key.length = KEY_BYTES) (nonce : Random NONCE_BYTES)
include hk

theorem importKey_ok : importKey key = .ok () := if_neg (not_not.mpr hk)

theorem encryptBytes_ok (plaintext : Bytes) : encryptBytes P nonce plaintext key =
    .ok { n := toBase64 nonce.val, ct := toBase64 (P.encrypt key nonce.val plaintext) } := by
  unfold encryptBytes encryptBytesWithNonce
  rw [if_neg (not_not.mpr nonce.property), importKey_ok hk]
  rfl

theorem encryptString_ok (plaintext : Text) :
    encryptString P nonce plaintext key = .ok (sealed P nonce (utf8Encode plaintext) key) := by
  unfold encryptString
  rw [encryptBytes_ok P hk]
  rfl

theorem wrapKey_ok (keyToWrap : Bytes) : wrapKey P nonce keyToWrap key = .ok (sealed P nonce keyToWrap key) := by
  unfold wrapKey
  rw [encryptBytes_ok P hk]
  rfl

theorem unwrapKey_sealed (plaintext : Bytes) : unwrapKey P (sealed P nonce plaintext key) key = .ok plaintext := by
  unfold unwrapKey sealed
  rw [parseEnvelope_serialize]
  simp only [decryptBytes, importKey_ok hk, fromBase64_toBase64, bind, Except.bind,
    P.decrypt_encrypt key nonce.val plaintext hk nonce.property]
  rfl

theorem decryptString_sealed (plaintext : Bytes) :
    decryptString P (sealed P nonce plaintext key) key = .ok (utf8Decode plaintext) := by
  have h := unwrapKey_sealed P hk nonce plaintext
  unfold unwrapKey at h
  unfold decryptString
  rw [← bind_assoc, h]
  rfl

/-- The mark at the start of a string is all that an encryption can lose. -/
theorem decryptString_encryptString (cs : List Char) :
    (encryptString P nonce (utf16 cs) key).bind (decryptString P · key) = .ok (utf16 (withoutBom cs)) := by
  rw [encryptString_ok P hk, Except.bind, decryptString_sealed P hk, utf8Decode_encode]

theorem unwrapKey_wrapKey (keyToWrap : Bytes) :
    (wrapKey P nonce keyToWrap key).bind (unwrapKey P · key) = .ok keyToWrap := by
  rw [wrapKey_ok P hk, Except.bind, unwrapKey_sealed P hk]

end

end Keyhole.Crypto
