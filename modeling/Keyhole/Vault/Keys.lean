import Keyhole.Auth
import Keyhole.Vault.Crypto

/-!
# Passwords, recovery codes and the keys they open

Argon2id, HKDF, base64 and Unicode normalization are parameters, with what
is relied on: the two derivations are injective and base64 reads back. What
the source draws at random is an argument. A result that is `none` is an
exception of the crypto package.
-/

namespace Keyhole.Vault

/-- `algorithm` has one value. -/
structure KdfParams where
  memoryKiB : Nat
  iterations : Nat
  parallelism : Nat
  deriving DecidableEq, Repr

def defaultKdfParams : KdfParams where
  memoryKiB := 65536
  iterations := 3
  parallelism := 4

/-- `parseParams` is `JSON.parse`; `length` is in bytes, and a derived key has 32. -/
structure Kdf (K : Type) where
  normalizeNFC : String → String
  toUpperCase : String → String
  argon2id : (password : String) → (salt : K) → KdfParams → K
  hkdf : (key : K) → (info : String) → K
  publicKeyFor : (privateKey : K) → K
  length : K → Nat
  toBase64 : K → String
  fromBase64 : String → Option K
  parseParams : String → Option KdfParams
  argon2id_inj : ∀ {p p' s s' q q'}, argon2id p s q = argon2id p' s' q' → p = p' ∧ s = s'
  hkdf_inj : ∀ {k k' i i'}, hkdf k i = hkdf k' i' → k = k' ∧ i = i'
  fromBase64_toBase64 : ∀ k, fromBase64 (toBase64 k) = some k
  parseParams_default : parseParams defaultKDFParamsJSON = some defaultKdfParams

/-! ## Recovery codes -/

def crockfordAlphabet : String := "0123456789ABCDEFGHJKMNPQRSTVWXYZ"

def encodeCrockford (bytes : List UInt8) : List Char :=
  bytes.map fun byte => crockfordAlphabet.toList.getD (byte &&& 0x1f).toNat '0'

def groupChars (text : List Char) (size : Nat) : String :=
  "-".intercalate <| (List.range ((text.length + size - 1) / size)).map fun i =>
    String.ofList ((text.drop (i * size)).take size)

/-- `\s` of a regular expression. -/
def isWhiteSpace (c : Char) : Bool :=
  c ∈ ['\t', '\n', '\x0b', '\x0c', '\r', ' ', '\u00a0', '\u1680', '\u2028', '\u2029', '\u202f', '\u205f', '\u3000',
    '\ufeff'] || '\u2000' ≤ c && c ≤ '\u200a'

def codeLength : Nat := 25

def groupSize : Nat := 5

def generateRecoveryCode (bytes : List UInt8) : String := groupChars (encodeCrockford bytes) groupSize

section
variable {K P : Type} (C : Crypto K P) (D : Kdf K)

def normalizeCrockford (input : String) : List Char :=
  (((D.toUpperCase input).toList.filter fun c => !(isWhiteSpace c || c = '-')).map fun c =>
    if c = 'I' || c = 'L' then '1' else c).map fun c => if c = 'O' then '0' else c

def normalizeRecoveryCode (input : String) : Option String :=
  let cleaned := normalizeCrockford D input
  if cleaned.length ≠ codeLength then none
  else if cleaned.all (· ∈ crockfordAlphabet.toList) then some (String.ofList cleaned)
  else none

/-! ## The master password -/

def kdfSaltBytes : Nat := 16

def assertKdfSalt (salt : K) : Option Unit := if D.length salt = kdfSaltBytes then some () else none

def deriveMasterKey (masterPassword : String) (salt : K) (params : KdfParams) : Option K :=
  if masterPassword = "" then none
  else do
    assertKdfSalt D salt
    return D.argon2id (D.normalizeNFC masterPassword) salt params

def deriveWrapKey (masterKey : K) : K := D.hkdf masterKey "keyhole:wrap:v1"

def deriveAuthHash (masterKey : K) : K := D.hkdf masterKey "keyhole:auth:v1"

structure UnlockedKeys (K : Type) where
  userKey : K
  privateKey : K
  deriving DecidableEq

/-- What `enrollUser` draws. -/
structure EnrollmentDraw (K : Type) where
  kdfSalt : K
  userKey : K
  privateKey : K
  userKeyNonce : String
  privateKeyNonce : String

structure EnrollmentResult (K : Type) where
  kdfSalt : K
  params : KdfParams
  authHash : K
  protectedUserKey : String
  publicKey : K
  encryptedPrivateKey : String
  keys : UnlockedKeys K

def enrollUser (draw : EnrollmentDraw K) (masterPassword : String) (params : KdfParams) :
    Option (EnrollmentResult K) := do
  let masterKey ← deriveMasterKey D masterPassword draw.kdfSalt params
  return {
    kdfSalt := draw.kdfSalt
    params
    authHash := deriveAuthHash D masterKey
    protectedUserKey := C.wrapKey draw.userKey (deriveWrapKey D masterKey) draw.userKeyNonce
    publicKey := D.publicKeyFor draw.privateKey
    encryptedPrivateKey := C.wrapKey draw.privateKey draw.userKey draw.privateKeyNonce
    keys := ⟨draw.userKey, draw.privateKey⟩ }

structure UnlockSession (K : Type) where
  authHash : K
  wrappingKey : K

def beginUnlock (masterPassword : String) (kdfSalt : K) (params : KdfParams) : Option (UnlockSession K) := do
  let masterKey ← deriveMasterKey D masterPassword kdfSalt params
  return ⟨deriveAuthHash D masterKey, deriveWrapKey D masterKey⟩

def UnlockSession.finish (session : UnlockSession K) (protectedUserKey encryptedPrivateKey : String) :
    Option (UnlockedKeys K) := do
  let userKey ← C.unwrapKey protectedUserKey session.wrappingKey
  let privateKey ← C.unwrapKey encryptedPrivateKey userKey
  return ⟨userKey, privateKey⟩

/-- What `rotateMasterPassword` and `createRecoveryBlob` draw. -/
structure WrapDraw (K : Type) where
  salt : K
  nonce : String

structure RotationResult (K : Type) where
  kdfSalt : K
  params : KdfParams
  authHash : K
  protectedUserKey : String

def rotateMasterPassword (draw : WrapDraw K) (newMasterPassword : String) (userKey : K) (params : KdfParams) :
    Option (RotationResult K) := do
  let masterKey ← deriveMasterKey D newMasterPassword draw.salt params
  return {
    kdfSalt := draw.salt
    params
    authHash := deriveAuthHash D masterKey
    protectedUserKey := C.wrapKey userKey (deriveWrapKey D masterKey) draw.nonce }

/-! ## The recovery code -/

def deriveRecoveryKey (code : String) (salt : K) (params : KdfParams) : Option K := do
  assertKdfSalt D salt
  let password ← normalizeRecoveryCode D code
  return D.argon2id password salt params

def deriveRecoveryWrapKey (recoveryKey : K) : K := D.hkdf recoveryKey "keyhole:recovery-wrap:v1"

def deriveRecoveryAuthHash (recoveryKey : K) : K := D.hkdf recoveryKey "keyhole:recovery-auth:v1"

structure RecoveryBlob (K : Type) where
  recoverySalt : K
  recoveryProtectedUserKey : String
  recoveryAuthHash : K
  params : KdfParams

def createRecoveryBlob (draw : WrapDraw K) (userKey : K) (code : String) (params : KdfParams) :
    Option (RecoveryBlob K) := do
  let recoveryKey ← deriveRecoveryKey D code draw.salt params
  return {
    recoverySalt := draw.salt
    recoveryProtectedUserKey := C.wrapKey userKey (deriveRecoveryWrapKey D recoveryKey) draw.nonce
    recoveryAuthHash := deriveRecoveryAuthHash D recoveryKey
    params }

def recoverUserKey (recoveryProtectedUserKey code : String) (recoverySalt : K) (params : KdfParams) : Option K := do
  let recoveryKey ← deriveRecoveryKey D code recoverySalt params
  C.unwrapKey recoveryProtectedUserKey (deriveRecoveryWrapKey D recoveryKey)

/-! ## What opens what -/

variable {C D}

theorem Crypto.unwrap_eq_some {k w w' k' : K} {n : String} (h : C.unwrapKey (C.wrapKey k w n) w' = some k') :
    w' = w ∧ k' = k := by
  by_cases hw : w' = w
  · subst hw
    rw [C.unwrap_wrap] at h
    exact ⟨rfl, (Option.some.inj h).symm⟩
  · rw [C.unwrap_other k w w' n hw] at h
    cases h

theorem deriveMasterKey_eq {password : String} {salt k : K} {params : KdfParams}
    (h : deriveMasterKey D password salt params = some k) :
    k = D.argon2id (D.normalizeNFC password) salt params := by
  unfold deriveMasterKey assertKdfSalt at h
  by_cases hp : password = ""
  · simp [hp] at h
  · by_cases hs : D.length salt = kdfSaltBytes
    · simpa [hp, hs, eq_comm] using h
    · simp [hp, hs] at h

theorem deriveRecoveryKey_eq {code : String} {salt k : K} {params : KdfParams}
    (h : deriveRecoveryKey D code salt params = some k) :
    ∃ password, normalizeRecoveryCode D code = some password ∧ k = D.argon2id password salt params := by
  unfold deriveRecoveryKey assertKdfSalt at h
  by_cases hs : D.length salt = kdfSaltBytes
  · cases hn : normalizeRecoveryCode D code with
    | none => simp [hs, hn] at h
    | some password => exact ⟨password, rfl, by simpa [hs, hn, eq_comm] using h⟩
  · simp [hs] at h

theorem createRecoveryBlob_eq {draw : WrapDraw K} {userKey : K} {code : String} {params : KdfParams}
    {blob : RecoveryBlob K} (h : createRecoveryBlob C D draw userKey code params = some blob) :
    ∃ rk, deriveRecoveryKey D code draw.salt params = some rk ∧
      blob = ⟨draw.salt, C.wrapKey userKey (deriveRecoveryWrapKey D rk) draw.nonce, deriveRecoveryAuthHash D rk,
        params⟩ := by
  unfold createRecoveryBlob at h
  obtain ⟨rk, hrk, hblob⟩ := Option.bind_eq_some_iff.mp h
  exact ⟨rk, hrk, (Option.some.inj hblob).symm⟩

/-- A key neither derivation produces, as a random one is taken to be. -/
def Underived (D : Kdf K) (k : K) : Prop := ∀ p s q i, D.hkdf (D.argon2id p s q) i ≠ k

end

/-! ## A symbolic instance -/

/-- `a` in front of `b`, told apart by a mark before each character of `a`. -/
def frame : List Char → List Char → List Char
  | [], b => '0' :: b
  | c :: a, b => '1' :: c :: frame a b

def unframe : List Char → List Char → Option (List Char)
  | [], '0' :: b => some b
  | c :: a, '1' :: c' :: b => if c = c' then unframe a b else none
  | _, _ => none

@[simp] theorem unframe_frame (a b : List Char) : unframe a (frame a b) = some b := by
  induction a with
  | nil => rfl
  | cons c a ih => simpa [frame, unframe] using ih

theorem unframe_other {a a' : List Char} (b : List Char) (h : a' ≠ a) : unframe a' (frame a b) = none := by
  induction a generalizing a' with
  | nil =>
    cases a' with
    | nil => exact absurd rfl h
    | cons c' a' => rfl
  | cons c a ih =>
    cases a' with
    | nil => rfl
    | cons c' a' =>
      simp only [frame, unframe]
      by_cases hc : c' = c
      · rw [if_pos hc]
        exact ih fun ha => h (by rw [hc, ha])
      · rw [if_neg hc]

/-- What a frame is around. -/
def payload : List Char → Option (List Char)
  | '0' :: b => some b
  | '1' :: _ :: b => payload b
  | _ => none

theorem payload_of_unframe {a s b : List Char} (h : unframe a s = some b) : payload s = some b := by
  fun_induction unframe a s with
  | case1 s => exact h
  | case2 c a s ih => exact ih h
  | case3 => cases h
  | case4 => cases h

theorem frame_inj {a a' b b' : List Char} (h : frame a b = frame a' b') : a = a' ∧ b = b' := by
  have hb : unframe a (frame a' b') = some b := by
    rw [← h]
    exact unframe_frame a b
  by_cases ha : a = a'
  · subst ha
    rw [unframe_frame] at hb
    exact ⟨rfl, (Option.some.inj hb).symm⟩
  · rw [unframe_other b' ha] at hb
    cases hb

def symbolic : Crypto (List Char) String where
  encryptString m k _ := String.ofList (frame k m.toList)
  decryptString s k := (unframe k s.toList).map String.ofList
  wrapKey k w _ := String.ofList (frame w k)
  unwrapKey s w := unframe w s.toList
  stringify := id
  parse := some
  decrypt_encrypt p k n := by simp
  unwrap_wrap k w n := by simp
  unwrap_other k w w' n h := by simpa using unframe_other k h
  parse_stringify p := rfl

def symbolicKdf : Kdf (List Char) where
  normalizeNFC p := p
  toUpperCase p := p
  argon2id p s _ := frame p.toList s
  hkdf k i := frame i.toList k
  publicKeyFor k := 'p' :: k
  length := List.length
  toBase64 := String.ofList
  fromBase64 s := some s.toList
  parseParams s := if s = defaultKDFParamsJSON then some defaultKdfParams else none
  argon2id_inj h := ⟨String.toList_inj.mp (frame_inj h).1, (frame_inj h).2⟩
  hkdf_inj h := ⟨(frame_inj h).2, String.toList_inj.mp (frame_inj h).1⟩
  fromBase64_toBase64 k := by simp
  parseParams_default := by simp

def symbolicSealing : Sealing (List Char) where
  openSealed blob p := unframe p blob.toList
  secret blob := payload blob.toList
  secret_of_open h := payload_of_unframe h

theorem underived_symbolic (k : List Char) : Underived symbolicKdf ('u' :: k) := by
  intro p s q i
  change frame i.toList _ ≠ _
  cases i.toList with
  | nil => simp [frame]
  | cons c i => simp [frame]

end Keyhole.Vault
