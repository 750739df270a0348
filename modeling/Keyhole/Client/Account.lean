import Keyhole.Client.Api

/-!
# The flows that make and replace credentials

`enroll`, `unlock`, `changeMasterPassword`, `regenerateRecoveryCode`,
`recoverAccount` and `completeRecovery`, each from its first request to its
last. Random draws, the fate of each request and of what the browser is to
store are arguments.
-/

namespace Keyhole.Client
open Store Http Vault

def getKeys {K : Type} : Call K (UnlockedKeys K) := do
  let keys ← Fallible.gets (·.device.keys)
  Fallible.ofOption .locked keys

def openSession {K : Type} (tokens : SessionTokens) (keys : UnlockedKeys K) : Call K Unit :=
  Fallible.modify fun s => { s with device := .opened tokens keys }

/-- What a recovery code is drawn from, and the wrapping under it. -/
structure CodeDraw (K : Type) where
  bytes : List UInt8
  wrap : WrapDraw K

section
variable {K P : Type} (C : Crypto K P) (D : Kdf K) (decoys : Decoys)

def prelogin (wire : Wire) (email : String) : Call K PreloginResponse :=
  request wire fun _ _ _ db => (.ok (handlePrelogin decoys email db), db)

def login (wire : Wire) (email authHash deviceLabel : String) : Call K LoginResponse :=
  request wire fun _ => handleLogin email authHash deviceLabel

/-- The browser stores the address, or its storage throws. -/
def rememberEmail (stored : Bool) : Call K Unit := if stored then pure () else Fallible.fail .storage

/-! ## Enrolling -/

structure EnrolInput where
  inviteToken : String
  email : String
  masterPassword : String
  deviceLabel : String

structure EnrolmentOutcome where
  recoveryCode : String
  loggedIn : Bool
  deriving DecidableEq, Repr

def enrollRequest (enrolled : EnrollmentResult K) (recovery : RecoveryBlob K) : EnrollRequest where
  kdfSalt := D.toBase64 enrolled.kdfSalt
  params := defaultKDFParamsJSON
  authHash := D.toBase64 enrolled.authHash
  protectedUserKey := enrolled.protectedUserKey
  publicKey := D.toBase64 enrolled.publicKey
  encryptedPrivateKey := enrolled.encryptedPrivateKey
  recoverySalt := D.toBase64 recovery.recoverySalt
  recoveryProtectedUserKey := recovery.recoveryProtectedUserKey
  recoveryKdfParams := defaultKDFParamsJSON
  recoveryAuthHash := D.toBase64 recovery.recoveryAuthHash

def enroll (wire loginWire : Wire) (stored : Bool) (draw : EnrollmentDraw K) (code : CodeDraw K)
    (input : EnrolInput) :
    Call K EnrolmentOutcome := do
  let enrolled ← Fallible.ofOption .crypto (enrollUser C D draw input.masterPassword defaultKdfParams)
  let recoveryCode := generateRecoveryCode code.bytes
  let recovery ← Fallible.ofOption .crypto
    (createRecoveryBlob C D code.wrap enrolled.keys.userKey recoveryCode defaultKdfParams)
  let _ ← request wire fun _ => handleEnroll input.inviteToken (enrollRequest D enrolled recovery)
  -- not in the `try` that follows
  rememberEmail stored
  -- the account exists: a sign-in that fails must not cost the code
  match ← (login loginWire input.email (D.toBase64 enrolled.authHash) input.deviceLabel).attempt with
  | .ok login =>
    openSession ⟨login.accessToken, login.refreshToken⟩ enrolled.keys
    return ⟨recoveryCode, true⟩
  | .error _ => return ⟨recoveryCode, false⟩

/-! ## Unlocking -/

structure UnlockInput where
  email : String
  masterPassword : String
  deviceLabel : String

def Failure.orWrong (wrong : Failure) : Failure → Failure
  | api "unauthorized" _ => wrong
  | e => e

def orWrong {α : Type} (wrong : Failure) (x : Call K α) : Call K α := do
  match ← x.attempt with
  | .ok a => return a
  | .error e => Fallible.fail (e.orWrong wrong)

def unlock (wire loginWire : Wire) (stored : Bool) (input : UnlockInput) : Call K Unit := do
  let found ← prelogin decoys wire input.email
  let params ← Fallible.ofOption .malformed (D.parseParams found.params)
  let kdfSalt ← Fallible.ofOption .crypto (D.fromBase64 found.kdfSalt)
  let session ← Fallible.ofOption .crypto (beginUnlock D input.masterPassword kdfSalt params)
  let login ← orWrong .wrongMasterPassword
    (login loginWire input.email (D.toBase64 session.authHash) input.deviceLabel)
  let keys ← Fallible.ofOption .crypto (session.finish C login.protectedUserKey login.encryptedPrivateKey)
  openSession ⟨login.accessToken, login.refreshToken⟩ keys
  rememberEmail stored

/-! ## Replacing one credential -/

def currentAuthHash (wire : Wire) (email currentPassword : String) : Call K String := do
  let found ← prelogin decoys wire email
  let params ← Fallible.ofOption .malformed (D.parseParams found.params)
  let kdfSalt ← Fallible.ofOption .crypto (D.fromBase64 found.kdfSalt)
  let masterKey ← Fallible.ofOption .crypto (deriveMasterKey D currentPassword kdfSalt params)
  return D.toBase64 (deriveAuthHash D masterKey)

structure ChangePasswordInput where
  email : String
  currentPassword : String
  newPassword : String

def rotatePasswordRequest (current : String) (rotation : RotationResult K) : RotatePasswordRequest where
  currentAuthHash := current
  kdfSalt := D.toBase64 rotation.kdfSalt
  params := defaultKDFParamsJSON
  authHash := D.toBase64 rotation.authHash
  protectedUserKey := rotation.protectedUserKey

def changeMasterPassword (preloginWire wire : Wire) (draw : WrapDraw K) (input : ChangePasswordInput) :
    Call K Unit := do
  let current ← currentAuthHash D decoys preloginWire input.email input.currentPassword
  let keys ← getKeys
  let rotation ← Fallible.ofOption .crypto
    (rotateMasterPassword C D draw input.newPassword keys.userKey defaultKdfParams)
  request wire (handleRotatePassword (rotatePasswordRequest D current rotation))

structure RegenerateInput where
  email : String
  currentPassword : String

def rotateRecoveryRequest (current : String) (blob : RecoveryBlob K) : RotateRecoveryRequest where
  currentAuthHash := current
  recoverySalt := D.toBase64 blob.recoverySalt
  recoveryKdfParams := defaultKDFParamsJSON
  recoveryProtectedUserKey := blob.recoveryProtectedUserKey
  recoveryAuthHash := D.toBase64 blob.recoveryAuthHash

def regenerateRecoveryCode (preloginWire wire : Wire) (draw : CodeDraw K) (input : RegenerateInput) :
    Call K String := do
  let current ← currentAuthHash D decoys preloginWire input.email input.currentPassword
  let recoveryCode := generateRecoveryCode draw.bytes
  let keys ← getKeys
  let blob ← Fallible.ofOption .crypto (createRecoveryBlob C D draw.wrap keys.userKey recoveryCode defaultKdfParams)
  request wire (handleRotateRecovery (rotateRecoveryRequest D current blob))
  return recoveryCode

/-! ## Recovering -/

structure RecoverInput where
  email : String
  recoveryCode : String

structure RecoverySession (K : Type) where
  email : String
  keys : UnlockedKeys K
  recoveryToken : String
  expiresIn : Nat
  deriving DecidableEq

def recoverAccount (preloginWire wire : Wire) (input : RecoverInput) : Call K (RecoverySession K) := do
  let found ← request preloginWire fun _ _ _ db => (.ok (handleRecoverPrelogin decoys input.email db), db)
  let params ← Fallible.ofOption .malformed (D.parseParams found.recoveryKdfParams)
  let recoverySalt ← Fallible.ofOption .crypto (D.fromBase64 found.recoverySalt)
  let recoveryKey ← Fallible.ofOption .crypto (deriveRecoveryKey D input.recoveryCode recoverySalt params)
  let redeemed ← orWrong .wrongRecoveryCode
    (request wire fun _ => handleRecover input.email (D.toBase64 (deriveRecoveryAuthHash D recoveryKey)))
  let userKey ← Fallible.ofOption .crypto
    (C.unwrapKey redeemed.recoveryProtectedUserKey (deriveRecoveryWrapKey D recoveryKey))
  let privateKey ← Fallible.ofOption .crypto (C.unwrapKey redeemed.encryptedPrivateKey userKey)
  return ⟨input.email, ⟨userKey, privateKey⟩, redeemed.recoveryToken, redeemed.expiresIn⟩

structure RecoveryOutcome where
  recoveryCode : String
  confirmed : Bool
  deriving DecidableEq, Repr

def recoverCompleteRequest (recoveryToken : String) (rotation : RotationResult K) (blob : RecoveryBlob K) :
    RecoverCompleteRequest where
  recoveryToken
  kdfSalt := D.toBase64 rotation.kdfSalt
  params := defaultKDFParamsJSON
  authHash := D.toBase64 rotation.authHash
  protectedUserKey := rotation.protectedUserKey
  recoverySalt := D.toBase64 blob.recoverySalt
  recoveryKdfParams := defaultKDFParamsJSON
  recoveryProtectedUserKey := blob.recoveryProtectedUserKey
  recoveryAuthHash := D.toBase64 blob.recoveryAuthHash

/-- `error instanceof ApiError && error.status >= 400 && error.status < 500`. -/
def Failure.refuses (e : Failure) : Bool := e.status.any fun status => 400 ≤ status && status < 500

def completeRecovery (wire : Wire) (draw : WrapDraw K) (code : CodeDraw K) (session : RecoverySession K)
    (newMasterPassword : String) : Call K RecoveryOutcome := do
  let rotation ← Fallible.ofOption .crypto
    (rotateMasterPassword C D draw newMasterPassword session.keys.userKey defaultKdfParams)
  let recoveryCode := generateRecoveryCode code.bytes
  let blob ← Fallible.ofOption .crypto
    (createRecoveryBlob C D code.wrap session.keys.userKey recoveryCode defaultKdfParams)
  let req := recoverCompleteRequest D session.recoveryToken rotation blob
  match ← (request wire fun _ => handleRecoverComplete req).attempt with
  | .ok () => return ⟨recoveryCode, true⟩
  | .error e => if e.refuses then Fallible.fail e else return ⟨recoveryCode, false⟩

end

end Keyhole.Client
