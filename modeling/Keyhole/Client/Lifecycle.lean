import Keyhole.Client.Ownership
import Keyhole.Lib.Run
import Mathlib.Logic.Function.Basic

/-!
# One user key under two credentials

An account from its enrollment on, through any number of the flows that
unlock it or replace its password or its recovery code, one at a time and
from any device.
-/

namespace Keyhole.Client.Lifecycle
open Sql Store Http Vault

/-! ## The columns of a credential -/

def passwordColumns (u : User) : Option String × Option String × Option AuthHash × Option String :=
  (u.kdfSalt, u.kdfParams, u.authHash, u.protectedUserKey)

def recoveryColumns (u : User) : Option String × Option String × Option String × Option AuthHash :=
  (u.recoverySalt, u.recoveryKDFParams, u.recoveryProtectedUserKey, u.recoveryAuthHash)

def keyPairColumns (u : User) : Option String × Option String := (u.publicKey, u.encryptedPrivateKey)

section
variable {K P : Type} (C : Crypto K P) (D : Kdf K)

/-- What a sign-in with the stored columns and this password comes to: the hash
is accepted and the blobs open. -/
def unlockWith (u : User) (password : String) : Option (UnlockedKeys K) := do
  let kdfSalt ← u.kdfSalt.bind D.fromBase64
  let params ← u.kdfParams.bind D.parseParams
  let session ← beginUnlock D password kdfSalt params
  if verifyAuthHash (D.toBase64 session.authHash) (u.authHash.getD dummyAuthHash) then
    session.finish C (← u.protectedUserKey) (← u.encryptedPrivateKey)
  else none

def recoverWith (u : User) (code : String) : Option (UnlockedKeys K) := do
  let recoverySalt ← u.recoverySalt.bind D.fromBase64
  let params ← u.recoveryKDFParams.bind D.parseParams
  let recoveryKey ← deriveRecoveryKey D code recoverySalt params
  if verifyAuthHash (D.toBase64 (deriveRecoveryAuthHash D recoveryKey)) (u.recoveryAuthHash.getD dummyAuthHash) then
    let userKey ← recoverUserKey C D (← u.recoveryProtectedUserKey) code recoverySalt params
    let privateKey ← C.unwrapKey (← u.encryptedPrivateKey) userKey
    return ⟨userKey, privateKey⟩
  else none

def storedBlobs (u : User) : List String :=
  u.protectedUserKey.toList ++ u.recoveryProtectedUserKey.toList ++ u.encryptedPrivateKey.toList

def ByPassword (u : User) (password : String) (userKey : K) : Prop :=
  ∃ salt mk hashSalt nonce, deriveMasterKey D password salt defaultKdfParams = some mk ∧
    passwordColumns u = (some (D.toBase64 salt), some defaultKDFParamsJSON,
      some (hashAuthHash hashSalt (D.toBase64 (deriveAuthHash D mk))),
      some (C.wrapKey userKey (deriveWrapKey D mk) nonce))

def ByCode (u : User) (code : String) (userKey : K) : Prop :=
  ∃ salt rk hashSalt nonce, deriveRecoveryKey D code salt defaultKdfParams = some rk ∧
    recoveryColumns u = (some (D.toBase64 salt), some defaultKDFParamsJSON,
      some (C.wrapKey userKey (deriveRecoveryWrapKey D rk) nonce),
      some (hashAuthHash hashSalt (D.toBase64 (deriveRecoveryAuthHash D rk))))

def HasPair (u : User) (keys : UnlockedKeys K) : Prop :=
  ∃ publicKey nonce, keyPairColumns u = (some publicKey, some (C.wrapKey keys.privateKey keys.userKey nonce))

variable {C D} {u : User} {keys : UnlockedKeys K}

theorem unlockWith_current {password : String} (hp : ByPassword C D u password keys.userKey)
    (hk : HasPair C u keys) :
    unlockWith C D u password = some keys := by
  obtain ⟨salt, mk, hashSalt, nonce, hmk, hcols⟩ := hp
  obtain ⟨publicKey, nonce', hpair⟩ := hk
  simp only [passwordColumns, keyPairColumns, Prod.mk.injEq] at hcols hpair
  obtain ⟨hs, hq, ha, hb⟩ := hcols
  unfold unlockWith beginUnlock UnlockSession.finish
  simp [hs, hq, ha, hb, hpair.2, D.fromBase64_toBase64, D.parseParams_default, hmk, hashAuthHash, verifyAuthHash,
    C.unwrap_wrap]

theorem recoverWith_current {code : String} (hc : ByCode C D u code keys.userKey) (hk : HasPair C u keys) :
    recoverWith C D u code = some keys := by
  obtain ⟨salt, rk, hashSalt, nonce, hrk, hcols⟩ := hc
  obtain ⟨publicKey, nonce', hpair⟩ := hk
  simp only [recoveryColumns, keyPairColumns, Prod.mk.injEq] at hcols hpair
  obtain ⟨hs, hq, hb, ha⟩ := hcols
  unfold recoverWith recoverUserKey
  simp [hs, hq, ha, hb, hpair.2, D.fromBase64_toBase64, D.parseParams_default, hrk, hashAuthHash, verifyAuthHash,
    C.unwrap_wrap]

theorem shuts {k : K} {password code : String} (hp : ByPassword C D u password keys.userKey)
    (hc : ByCode C D u code keys.userKey) (hk : HasPair C u keys)
    (h₁ : ∀ s q, k ≠ deriveWrapKey D (D.argon2id (D.normalizeNFC password) s q))
    (h₂ : ∀ c, normalizeRecoveryCode D code = some c → ∀ s q, k ≠ deriveRecoveryWrapKey D (D.argon2id c s q))
    (h₃ : k ≠ keys.userKey) : ∀ blob ∈ storedBlobs u, C.unwrapKey blob k = none := by
  obtain ⟨salt, mk, hashSalt, nonce, hmk, hcols⟩ := hp
  obtain ⟨salt', rk, hashSalt', nonce', hrk, hcols'⟩ := hc
  obtain ⟨publicKey, nonce'', hpair⟩ := hk
  simp only [passwordColumns, recoveryColumns, keyPairColumns, Prod.mk.injEq] at hcols hcols' hpair
  intro blob hb
  simp only [storedBlobs, hcols.2.2.2, hcols'.2.2.1, hpair.2, Option.toList_some, List.cons_append, List.nil_append,
    List.mem_cons, List.not_mem_nil, or_false] at hb
  rcases hb with rfl | rfl | rfl
  · apply C.unwrap_other
    rw [deriveMasterKey_eq hmk]
    exact h₁ salt defaultKdfParams
  · apply C.unwrap_other
    obtain ⟨c, hn, rfl⟩ := deriveRecoveryKey_eq hrk
    exact h₂ c hn salt' defaultKdfParams
  · exact C.unwrap_other _ _ _ _ h₃

theorem shut_derived {password code : String} (hp : ByPassword C D u password keys.userKey)
    (hc : ByCode C D u code keys.userKey) (hk : HasPair C u keys) (hu : Underived D keys.userKey)
    {text info : String} (hw : info = "keyhole:wrap:v1" → text ≠ D.normalizeNFC password)
    (hr : info = "keyhole:recovery-wrap:v1" → normalizeRecoveryCode D code ≠ some text) (salt : K)
    (params : KdfParams) :
    ∀ blob ∈ storedBlobs u, C.unwrapKey blob (D.hkdf (D.argon2id text salt params) info) = none := by
  apply shuts hp hc hk
  · intro s q h
    obtain ⟨hmk, hinfo⟩ := D.hkdf_inj h
    exact hw hinfo (D.argon2id_inj hmk).1
  · intro c hn s q h
    obtain ⟨hrk, hinfo⟩ := D.hkdf_inj h
    rw [← (D.argon2id_inj hrk).1] at hn
    exact hr hinfo hn
  · exact hu _ _ _ _

theorem shut_password {password code p : String} (hp : ByPassword C D u password keys.userKey)
    (hc : ByCode C D u code keys.userKey) (hk : HasPair C u keys) (hu : Underived D keys.userKey)
    (hne : D.normalizeNFC p ≠ D.normalizeNFC password) {salt mk : K} {params : KdfParams}
    (hmk : deriveMasterKey D p salt params = some mk) {k : K}
    (hkey : k = deriveWrapKey D mk ∨ k = deriveAuthHash D mk) :
    ∀ blob ∈ storedBlobs u, C.unwrapKey blob k = none := by
  rw [deriveMasterKey_eq hmk] at hkey
  rcases hkey with rfl | rfl
  · exact shut_derived hp hc hk hu (fun _ => hne) (by simp) salt params
  · exact shut_derived hp hc hk hu (by simp) (by simp) salt params

theorem shut_code {password code c : String} (hp : ByPassword C D u password keys.userKey)
    (hc : ByCode C D u code keys.userKey) (hk : HasPair C u keys) (hu : Underived D keys.userKey)
    (hne : normalizeRecoveryCode D c ≠ normalizeRecoveryCode D code) {salt rk : K} {params : KdfParams}
    (hrk : deriveRecoveryKey D c salt params = some rk) {k : K}
    (hkey : k = deriveRecoveryWrapKey D rk ∨ k = deriveRecoveryAuthHash D rk) :
    ∀ blob ∈ storedBlobs u, C.unwrapKey blob k = none := by
  obtain ⟨text, hn, heq⟩ := deriveRecoveryKey_eq hrk
  rw [heq] at hkey
  rcases hkey with rfl | rfl
  · exact shut_derived hp hc hk hu (by simp) (fun _ h => hne (hn.trans h.symm)) salt params
  · exact shut_derived hp hc hk hu (by simp) (by simp) salt params

/-! ## What the flows write -/

theorem rotated_byPassword {draw : WrapDraw K} {password current : String} {userKey : K}
    {rotation : RotationResult K}
    (h : rotateMasterPassword C D draw password userKey defaultKdfParams = some rotation) (now : Time) (sd : Draw) :
    ByPassword C D (u.passwordRotated now ((rotatePasswordRequest D current rotation).input sd)) password
      userKey := by
  unfold rotateMasterPassword at h
  cases hmk : deriveMasterKey D password draw.salt defaultKdfParams with
  | none => simp [hmk] at h
  | some mk =>
    simp only [hmk, Option.bind_eq_bind, Option.bind_some, Option.pure_def, Option.some.injEq] at h
    subst h
    exact ⟨draw.salt, mk, sd.authSalt, draw.nonce, hmk, rfl⟩

theorem rotated_byCode {draw : WrapDraw K} {code current : String} {userKey : K} {blob : RecoveryBlob K}
    (h : createRecoveryBlob C D draw userKey code defaultKdfParams = some blob) (now : Time) (sd : Draw) :
    ByCode C D (u.recoveryRotated now ((rotateRecoveryRequest D current blob).input sd)) code userKey := by
  obtain ⟨rk, hrk, rfl⟩ := createRecoveryBlob_eq h
  exact ⟨draw.salt, rk, sd.recoverySalt, draw.nonce, hrk, rfl⟩

theorem ByPassword.congr {u' : User} {password : String} {userKey : K} (h : ByPassword C D u password userKey)
    (he : passwordColumns u' = passwordColumns u) : ByPassword C D u' password userKey := by
  unfold ByPassword
  rw [he]
  exact h

theorem ByCode.congr {u' : User} {code : String} {userKey : K} (h : ByCode C D u code userKey)
    (he : recoveryColumns u' = recoveryColumns u) : ByCode C D u' code userKey := by
  unfold ByCode
  rw [he]
  exact h

theorem HasPair.congr {u' : User} (h : HasPair C u keys) (he : keyPairColumns u' = keyPairColumns u) :
    HasPair C u' keys := by
  unfold HasPair
  rw [he]
  exact h

variable {id : Id} {db₀ : Db} {decoys : Decoys}

theorem currentAuthHash_triple {U : Table User.id → Prop} {wire : Wire} {email currentPassword : String} :
    Fallible.Triple (fun s => Ours id keys db₀ s ∧ U s.db.users)
      (currentAuthHash D decoys wire email currentPassword)
      fun _ s => Ours id keys db₀ s ∧ U s.db.users := by
  refine Fallible.Triple.bind (read_triple fun _ _ _ _ => rfl) fun found => ?_
  refine Fallible.Triple.bind (.ofOption fun _ _ s h => h) fun params => ?_
  refine Fallible.Triple.bind (.ofOption fun _ _ s h => h) fun kdfSalt => ?_
  refine Fallible.Triple.bind (.ofOption fun _ _ s h => h) fun masterKey => ?_
  exact .pure fun s h => h

theorem getKeys_triple {I : Scene K → Prop} (hi : ∀ s, I s → Ours id keys db₀ s) :
    Fallible.Triple I getKeys fun k s => k = keys ∧ I s := by
  refine Fallible.Triple.bind (Q := fun found s => found = s.device.keys ∧ I s) (.gets fun s h => ⟨rfl, h⟩)
    fun found => ?_
  refine Fallible.Triple.ofOption ?_
  intro k hk s ⟨hd, h⟩
  exact ⟨(hi s h).keys k (hd ▸ hk), h⟩

theorem changeMasterPassword_triple {wire preloginWire : Wire} {draw : WrapDraw K} {input : ChangePasswordInput}
    (u₀ : User) :
    Fallible.Triple
      (fun s => Ours id keys db₀ s ∧
        Row id (fun u => recoveryColumns u = recoveryColumns u₀ ∧
          keyPairColumns u = keyPairColumns u₀) s.db.users)
      (changeMasterPassword C D decoys preloginWire wire draw input) fun _ s => Ours id keys db₀ s ∧
        Row id (fun u => (recoveryColumns u = recoveryColumns u₀ ∧ keyPairColumns u = keyPairColumns u₀) ∧
          ByPassword C D u input.newPassword keys.userKey) s.db.users := by
  refine Fallible.Triple.bind currentAuthHash_triple fun current => ?_
  refine Fallible.Triple.bind (getKeys_triple fun s h => h.1) fun k => ?_
  refine Fallible.Triple.assume ?_
  intro hk
  subst hk
  refine Fallible.Triple.bind (.ofOption fun rotation hr s h => (⟨hr, h⟩ : _ ∧ _)) fun rotation => ?_
  refine Fallible.Triple.assume ?_
  intro hr
  refine (replace_triple (rotatePassword_replaces _) (fun _ _ _ => rfl) fun _ _ _ h => h).conseq (fun s h => h) ?_
  intro _ s h
  obtain ⟨ho, u', hu', now, sd, u, hu, rfl⟩ := h
  exact ⟨ho, _, hu', hu, rotated_byPassword hr now sd⟩

theorem regenerateRecoveryCode_triple {wire preloginWire : Wire} {draw : CodeDraw K} {input : RegenerateInput}
    (u₀ : User) :
    Fallible.Triple
      (fun s => Ours id keys db₀ s ∧
        Row id (fun u => passwordColumns u = passwordColumns u₀ ∧
          keyPairColumns u = keyPairColumns u₀) s.db.users)
      (regenerateRecoveryCode C D decoys preloginWire wire draw input) fun code s => Ours id keys db₀ s ∧
        Row id (fun u => (passwordColumns u = passwordColumns u₀ ∧ keyPairColumns u = keyPairColumns u₀) ∧
          ByCode C D u code keys.userKey) s.db.users := by
  refine Fallible.Triple.bind currentAuthHash_triple fun current => ?_
  refine Fallible.Triple.bind (getKeys_triple fun s h => h.1) fun k => ?_
  refine Fallible.Triple.assume ?_
  intro hk
  subst hk
  refine Fallible.Triple.bind (.ofOption fun blob hb s h => (⟨hb, h⟩ : _ ∧ _)) fun blob => ?_
  refine Fallible.Triple.assume ?_
  intro hb
  refine Fallible.Triple.bind (replace_triple (rotateRecovery_replaces _) (fun _ _ _ => rfl) fun _ _ _ h => h)
    fun _ => ?_
  refine Fallible.Triple.pure ?_
  intro s h
  obtain ⟨ho, u', hu', now, sd, u, hu, rfl⟩ := h
  exact ⟨ho, _, hu', hu, rotated_byCode hb now sd⟩

theorem completeRecovery_triple {wire : Wire} {draw : WrapDraw K} {code : CodeDraw K}
    {session : RecoverySession K} {newMasterPassword : String} (u₀ : User) (hkeys : session.keys = keys)
    (ht : Redeems id db₀ session.recoveryToken) :
    Fallible.Triple
      (fun s => Ours id keys db₀ s ∧ Row id (fun u => keyPairColumns u = keyPairColumns u₀) s.db.users)
      (completeRecovery C D wire draw code session newMasterPassword) fun outcome s => outcome.confirmed = true →
        Ours id keys db₀ s ∧ Row id (fun u => keyPairColumns u = keyPairColumns u₀ ∧
          ByPassword C D u newMasterPassword keys.userKey ∧
          ByCode C D u outcome.recoveryCode keys.userKey) s.db.users := by
  subst hkeys
  refine Fallible.Triple.bind (.ofOption fun rotation hr s h => (⟨hr, h⟩ : _ ∧ _)) fun rotation => ?_
  refine Fallible.Triple.assume ?_
  intro hr
  refine Fallible.Triple.bind (.ofOption fun blob hb s h => (⟨hb, h⟩ : _ ∧ _)) fun blob => ?_
  refine Fallible.Triple.assume ?_
  intro hb
  refine Fallible.Triple.bind (replace_triple (recoverComplete_replaces _ ht) (fun _ _ _ => rfl)
    fun _ _ _ h => h).attempt fun answer => ?_
  cases answer with
  | ok _ =>
    refine Fallible.Triple.pure ?_
    intro s h _
    obtain ⟨ho, u', hu', now, sd, u, hu, rfl⟩ := h () rfl
    have hp : ByPassword C D (u.passwordRotated now ((rotatePasswordRequest D "" rotation).input sd))
      newMasterPassword
        session.keys.userKey := rotated_byPassword hr now sd
    have hc : ByCode C D
      ((u.passwordRotated now ((rotatePasswordRequest D "" rotation).input sd)).recoveryRotated now
        ((rotateRecoveryRequest D "" blob).input sd)) (generateRecoveryCode code.bytes) session.keys.userKey :=
      rotated_byCode hb now sd
    exact ⟨ho, _, hu', hu, hp.congr rfl, hc⟩
  | error e =>
    intro s _ outcome s' hrun hc
    by_cases he : e.refuses = true
    · simp [he] at hrun
    · simp only [he] at hrun
      cases hrun
      cases hc

theorem account_row {email : String} {db : Db} {user : User} (he : ∀ u, userByEmail email db = .ok u → u.id = id)
    (h : userByEmail email db = .ok user) : db.users.get? id = some user := by
  refine Table.get?_eq_some.mpr ⟨?_, he user h⟩
  unfold userByEmail at h
  split at h
  · rename_i hf
    cases h
    exact Table.mem_of_find? hf
  · cases h

theorem orWrong_triple {α : Type} {I : Scene K → Prop} {Q : α → Scene K → Prop} {wrong : Failure}
    {x : Call K α} (h : Fallible.Triple I x Q) : Fallible.Triple I (orWrong wrong x) Q := by
  refine Fallible.Triple.bind h.attempt fun answer => ?_
  cases answer with
  | ok a => exact .pure fun s hs => hs a rfl
  | error e => exact .fail

theorem rememberEmail_triple {stored : Bool} {I : Scene K → Prop} :
    Fallible.Triple I (rememberEmail stored) fun _ s => I s := by
  cases stored with
  | true => exact .pure fun s hs => hs
  | false => exact .fail

theorem unlock_triple {wire loginWire : Wire} {stored : Bool} {input : UnlockInput}
    (he : ∀ u, userByEmail input.email db₀ = .ok u → u.id = id)
    (hrow : Row id (fun u => (∃ password, ByPassword C D u password keys.userKey) ∧ HasPair C u keys) db₀.users) :
    Fallible.Triple (fun s => Ours id keys db₀ s ∧ s.db.users = db₀.users)
      (unlock C D decoys wire loginWire stored input)
      fun _ s => Ours id keys db₀ s ∧ s.db.users = db₀.users := by
  obtain ⟨u, hu, ⟨password, salt, mk, hashSalt, nonce, hmk, hcols⟩, publicKey, nonce', hpair⟩ := hrow
  simp only [passwordColumns, keyPairColumns, Prod.mk.injEq] at hcols hpair
  refine Fallible.Triple.bind (read_triple (U := (· = db₀.users)) fun _ _ _ _ => rfl) fun found => ?_
  refine Fallible.Triple.bind (.ofOption fun _ _ s h => h) fun params => ?_
  refine Fallible.Triple.bind (.ofOption fun _ _ s h => h) fun kdfSalt => ?_
  refine Fallible.Triple.bind (.ofOption fun _ _ s h => h) fun session => ?_
  refine Fallible.Triple.bind (orWrong_triple (add_triple (A := fun (a : LoginResponse) db =>
      Holds id db ⟨a.accessToken, a.refreshToken⟩ ∧ a.protectedUserKey = u.protectedUserKey.getD "" ∧
      a.encryptedPrivateKey = u.encryptedPrivateKey.getD "") ?_)) fun answer => ?_
  · intro s ho hs token now draw
    have he' : ∀ u, userByEmail input.email s.db = .ok u → u.id = id := by
      rw [userByEmail_congr hs]
      exact he
    rcases login_holds _ _ now draw he' with h | ⟨user, sessions, a, hmail, h, hk, hp, hw, hh⟩
    · exact Or.inl h
    · have huser := account_row he' hmail
      rw [hs, hu] at huser
      cases huser
      exact Or.inr ⟨a, _, h, hw, rfl, hh, hk, hp⟩
  · refine Fallible.Triple.bind (.ofOption fun k hk s h => (⟨hk, h⟩ : _ ∧ _)) fun k => ?_
    refine Fallible.Triple.assume ?_
    intro hk
    refine Fallible.Triple.bind (Fallible.Triple.modify ?_) fun _ => rememberEmail_triple
    intro s ⟨⟨ho, hs⟩, hh, hprot, henc⟩
    have hkeys : k = keys := by
      rw [hprot, henc, hcols.2.2.2, hpair.2] at hk
      unfold UnlockSession.finish at hk
      simp only [Option.getD_some, Option.bind_eq_bind, Option.bind_eq_some_iff, Option.pure_def,
        Option.some.injEq] at hk
      obtain ⟨userKey, h₁, privateKey, h₂, rfl⟩ := hk
      cases (Crypto.unwrap_eq_some h₁).2
      cases (Crypto.unwrap_eq_some h₂).2
      rfl
    refine ⟨⟨ho.within, ?_, ?_⟩, hs⟩
    · intro t ht
      cases ht
      exact hh
    · intro k' hk'
      cases hk'
      exact hkeys

theorem recoverAccount_triple {preloginWire wire : Wire} {input : RecoverInput}
    (he : ∀ u, userByEmail input.email db₀ = .ok u → u.id = id)
    (hrow : Row id (fun u => (∃ code, ByCode C D u code keys.userKey) ∧ HasPair C u keys) db₀.users) :
    Fallible.Triple (fun s => Ours id keys db₀ s ∧ s.db.users = db₀.users)
      (recoverAccount C D decoys preloginWire wire input)
      fun r s => (Ours id keys db₀ s ∧ s.db.users = db₀.users) ∧ r.keys = keys ∧
        Redeems id s.db r.recoveryToken := by
  obtain ⟨u, hu, ⟨code, salt, rk, hashSalt, nonce, hrk, hcols⟩, publicKey, nonce', hpair⟩ := hrow
  simp only [recoveryColumns, keyPairColumns, Prod.mk.injEq] at hcols hpair
  refine Fallible.Triple.bind (read_triple (U := (· = db₀.users)) fun _ _ _ _ => rfl) fun found => ?_
  refine Fallible.Triple.bind (.ofOption fun _ _ s h => h) fun params => ?_
  refine Fallible.Triple.bind (.ofOption fun _ _ s h => h) fun recoverySalt => ?_
  refine Fallible.Triple.bind (.ofOption fun _ _ s h => h) fun recoveryKey => ?_
  refine Fallible.Triple.bind (orWrong_triple (add_triple (A := fun (a : RecoverResponse) db =>
      Redeems id db a.recoveryToken ∧ a.recoveryProtectedUserKey = u.recoveryProtectedUserKey.getD "" ∧
      a.encryptedPrivateKey = u.encryptedPrivateKey.getD "") ?_)) fun redeemed => ?_
  · intro s ho hs token now draw
    have he' : ∀ u, userByEmail input.email s.db = .ok u → u.id = id := by
      rw [userByEmail_congr hs]
      exact he
    rcases recover_redeems he' with h | ⟨user, recoveryTokens, a, hmail, h, hk, hp, hw, hh⟩
    · exact Or.inl h
    · have huser := account_row he' hmail
      rw [hs, hu] at huser
      cases huser
      exact Or.inr ⟨a, _, h, hw, rfl, hh, hk, hp⟩
  · refine Fallible.Triple.bind (.ofOption fun userKey hk s h => (⟨hk, h⟩ : _ ∧ _)) fun userKey => ?_
    refine Fallible.Triple.assume ?_
    intro h₁
    refine Fallible.Triple.bind (.ofOption fun privateKey hk s h => (⟨hk, h⟩ : _ ∧ _)) fun privateKey => ?_
    refine Fallible.Triple.assume ?_
    intro h₂
    refine Fallible.Triple.pure ?_
    intro s ⟨hs, hh, hprot, henc⟩
    rw [hprot, hcols.2.2.1, Option.getD_some] at h₁
    cases (Crypto.unwrap_eq_some h₁).2
    rw [henc, hpair.2, Option.getD_some] at h₂
    cases (Crypto.unwrap_eq_some h₂).2
    exact ⟨hs, rfl, hh⟩

end

/-! ## The life of an account -/

/-- `password` and `code` are ghosts, the ones last set; `keys` those drawn at enrollment. -/
structure World (K : Type) where
  devices : Nat → Device K
  db : Db
  recoveries : List (RecoverySession K)
  userID : Id
  password : String
  code : String
  keys : UnlockedKeys K

inductive Event (K : Type)
  | unlock (device : Nat) (wire loginWire : Wire) (stored : Bool) (input : UnlockInput)
  | changeMasterPassword (device : Nat) (preloginWire wire : Wire) (draw : WrapDraw K) (input : ChangePasswordInput)
  | regenerateRecoveryCode (device : Nat) (preloginWire wire : Wire) (draw : CodeDraw K) (input : RegenerateInput)
  | recoverAccount (device : Nat) (preloginWire wire : Wire) (input : RecoverInput)
  | completeRecovery (device : Nat) (wire : Wire) (draw : WrapDraw K) (code : CodeDraw K) (recovery : Nat)
      (newMasterPassword : String)

namespace World

variable {K P : Type} (C : Crypto K P) (D : Kdf K) (decoys : Decoys)

def scene (w : World K) (device : Nat) : Scene K := ⟨w.devices device, w.db⟩

def put (w : World K) (device : Nat) (s : Scene K) : World K :=
  { w with devices := Function.update w.devices device s.device, db := s.db }

def addressed (w : World K) (email : String) : Bool :=
  match userByEmail email w.db with
  | .ok user => user.id = w.userID
  | .error _ => true

def perform (w : World K) : Event K → Option (World K)
  | .unlock device wire loginWire stored input =>
    if w.addressed input.email then
      match (unlock C D decoys wire loginWire stored input).run (w.scene device) with
      | (.ok (), s) => some (w.put device s)
      | (.error _, _) => none
    else none
  | .changeMasterPassword device preloginWire wire draw input =>
    match (changeMasterPassword C D decoys preloginWire wire draw input).run (w.scene device) with
    | (.ok (), s) => some { w.put device s with password := input.newPassword }
    | (.error _, _) => none
  | .regenerateRecoveryCode device preloginWire wire draw input =>
    match (regenerateRecoveryCode C D decoys preloginWire wire draw input).run (w.scene device) with
    | (.ok code, s) => some { w.put device s with code }
    | (.error _, _) => none
  | .recoverAccount device preloginWire wire input =>
    if w.addressed input.email then
      match (recoverAccount C D decoys preloginWire wire input).run (w.scene device) with
      | (.ok session, s) => some { w.put device s with recoveries := session :: w.recoveries }
      | (.error _, _) => none
    else none
  | .completeRecovery device wire draw code recovery newMasterPassword =>
    match w.recoveries[recovery]? with
    | some session =>
      match (completeRecovery C D wire draw code session newMasterPassword).run (w.scene device) with
      | (.ok ⟨code, true⟩, s) => some { w.put device s with password := newMasterPassword, code }
      | (.ok ⟨_, false⟩, _) | (.error _, _) => none
    | none => none

def step : World K → Event K → World K → Prop :=
  Lts.Stepwise (fun w e => (perform C D decoys w e).isSome = true) fun w e => (perform C D decoys w e).getD w

/-- A world right after its account has enrolled. -/
def Begins (w : World K) : Prop :=
  ∃ db₀ wire loginWire stored draw code input invite outcome s, Underived D draw.userKey ∧
    inviteByToken wire.first.now input.inviteToken db₀ = .ok invite ∧
    (enroll C D wire loginWire stored draw code input).run ⟨.locked, db₀⟩ = (.ok outcome, s) ∧
    w = {
      devices := fun n => if n = 0 then s.device else .locked
      db := s.db
      recoveries := []
      userID := invite.userID
      password := input.masterPassword
      code := outcome.recoveryCode
      keys := ⟨draw.userKey, draw.privateKey⟩ } ∧
    w.addressed input.email = true

/-- What an event leaves of the account's row. -/
def Frame (u u' : User) : Event K → Prop
  | .unlock .. | .recoverAccount .. => u' = u
  | .changeMasterPassword .. => recoveryColumns u' = recoveryColumns u ∧ keyPairColumns u' = keyPairColumns u
  | .regenerateRecoveryCode .. => passwordColumns u' = passwordColumns u ∧ keyPairColumns u' = keyPairColumns u
  | .completeRecovery .. => keyPairColumns u' = keyPairColumns u

/-- The current password and the current code each give the account's keys, and
no other password and no other code opens anything. -/
structure Sound (w : World K) (u : User) : Prop where
  password : unlockWith C D u w.password = some w.keys
  code : recoverWith C D u w.code = some w.keys
  otherPassword : ∀ p, D.normalizeNFC p ≠ D.normalizeNFC w.password →
    ∀ salt params mk, deriveMasterKey D p salt params = some mk →
    ∀ k, k = deriveWrapKey D mk ∨ k = deriveAuthHash D mk → ∀ blob ∈ storedBlobs u, C.unwrapKey blob k = none
  otherCode : ∀ c, normalizeRecoveryCode D c ≠ normalizeRecoveryCode D w.code →
    ∀ salt params rk, deriveRecoveryKey D c salt params = some rk →
    ∀ k, k = deriveRecoveryWrapKey D rk ∨ k = deriveRecoveryAuthHash D rk →
    ∀ blob ∈ storedBlobs u, C.unwrapKey blob k = none

/-! ## The invariant -/

structure Inv (w : World K) : Prop where
  devices : ∀ n, Ours w.userID w.keys w.db (w.scene n)
  recoveries : ∀ r ∈ w.recoveries, r.keys = w.keys ∧ Redeems w.userID w.db r.recoveryToken
  row : Row w.userID (fun u => ByPassword C D u w.password w.keys.userKey ∧ ByCode C D u w.code w.keys.userKey ∧
    HasPair C u w.keys) w.db.users

variable {C D decoys} {w w' : World K} {s : Scene K}

theorem Inv.put (h : Inv C D w) {n : Nat} (ho : Ours w.userID w.keys w.db s) :
    (∀ m, Ours w.userID w.keys s.db ((w.put n s).scene m)) ∧
    ∀ r ∈ w.recoveries, r.keys = w.keys ∧ Redeems w.userID s.db r.recoveryToken := by
  constructor
  · intro m
    by_cases hm : m = n
    · subst hm
      have hs : (w.put m s).scene m = s := by simp [World.put, World.scene]
      rw [hs]
      exact ho.rebase
    · have hs : (w.put n s).scene m = ⟨w.devices m, s.db⟩ := by simp [World.put, World.scene, hm]
      rw [hs]
      exact ((h.devices m).keep ho.within).rebase
  · intro r hr
    exact ⟨(h.recoveries r hr).1, ho.within.redeems (h.recoveries r hr).2⟩

theorem addressed_ok {email : String} (h : w.addressed email = true) :
    ∀ u, userByEmail email w.db = .ok u → u.id = w.userID := by
  intro u hu
  simpa [World.addressed, hu] using h

theorem step_some (h : step C D decoys w e w') : perform C D decoys w e = some w' := by
  obtain ⟨hsome, rfl⟩ := h
  obtain ⟨v, hv⟩ := Option.isSome_iff_exists.mp hsome
  simp [hv]

/-- One flow keeps the invariant and the keys, and leaves what `Frame` says. -/
theorem step_inv {e : Event K} (h : step C D decoys w e w') (hi : Inv C D w) :
    Inv C D w' ∧ w'.keys = w.keys ∧
      ∃ u u', w.db.users.get? w.userID = some u ∧ w'.db.users.get? w'.userID = some u' ∧ Frame u u' e := by
  have hp := step_some h
  obtain ⟨u, hu, hpass, hcode, hpair⟩ := hi.row
  cases e with
  | unlock n wire loginWire stored input =>
    simp only [perform] at hp
    split at hp
    · rename_i haddr
      split at hp
      · rename_i s hr
        cases hp
        obtain ⟨ho, husers⟩ := unlock_triple (addressed_ok haddr) ⟨u, hu, ⟨_, hpass⟩, hpair⟩ _
          ⟨hi.devices n, rfl⟩ _ _ hr
        obtain ⟨hdev, hrec⟩ := hi.put (n := n) ho
        have hu' : s.db.users.get? w.userID = some u := by rw [husers]; exact hu
        exact ⟨⟨hdev, hrec, u, hu', hpass, hcode, hpair⟩, rfl, u, u, hu, hu', rfl⟩
      · cases hp
    · cases hp
  | changeMasterPassword n preloginWire wire draw input =>
    simp only [perform] at hp
    split at hp
    · rename_i s hr
      cases hp
      obtain ⟨ho, u', hu', ⟨hrc, hkp⟩, hnew⟩ := changeMasterPassword_triple u _
        ⟨hi.devices n, u, hu, rfl, rfl⟩ _ _ hr
      obtain ⟨hdev, hrec⟩ := hi.put (n := n) ho
      exact ⟨⟨hdev, hrec, u', hu', hnew, hcode.congr hrc, hpair.congr hkp⟩, rfl, u, u', hu, hu', hrc, hkp⟩
    · cases hp
  | regenerateRecoveryCode n preloginWire wire draw input =>
    simp only [perform] at hp
    split at hp
    · rename_i code s hr
      cases hp
      obtain ⟨ho, u', hu', ⟨hpc, hkp⟩, hnew⟩ := regenerateRecoveryCode_triple u _
        ⟨hi.devices n, u, hu, rfl, rfl⟩ _ _ hr
      obtain ⟨hdev, hrec⟩ := hi.put (n := n) ho
      exact ⟨⟨hdev, hrec, u', hu', hpass.congr hpc, hnew, hpair.congr hkp⟩, rfl, u, u', hu, hu', hpc, hkp⟩
    · cases hp
  | recoverAccount n preloginWire wire input =>
    simp only [perform] at hp
    split at hp
    · rename_i haddr
      split at hp
      · rename_i r s hr
        cases hp
        obtain ⟨⟨ho, husers⟩, hkeys, hred⟩ :=
          recoverAccount_triple (addressed_ok haddr) ⟨u, hu, ⟨_, hcode⟩, hpair⟩ _
          ⟨hi.devices n, rfl⟩ _ _ hr
        obtain ⟨hdev, hrec⟩ := hi.put (n := n) ho
        have hu' : s.db.users.get? w.userID = some u := by rw [husers]; exact hu
        refine ⟨⟨hdev, ?_, u, hu', hpass, hcode, hpair⟩, rfl, u, u, hu, hu', rfl⟩
        intro r' hr'
        rcases List.mem_cons.mp hr' with rfl | hr'
        · exact ⟨hkeys, hred⟩
        · exact hrec r' hr'
      · cases hp
    · cases hp
  | completeRecovery n wire draw code recovery newMasterPassword =>
    simp only [perform] at hp
    split at hp
    · rename_i session hs
      obtain ⟨hkeys, hred⟩ := hi.recoveries session (List.mem_of_getElem? hs)
      split at hp
      · rename_i code' s hr
        cases hp
        obtain ⟨ho, u', hu', hkp, hnew, hnewCode⟩ := completeRecovery_triple u hkeys hred _
          ⟨hi.devices n, u, hu, rfl⟩ _ _ hr rfl
        obtain ⟨hdev, hrec⟩ := hi.put (n := n) ho
        exact ⟨⟨hdev, hrec, u', hu', hnew, hnewCode, hpair.congr hkp⟩, rfl, u, u', hu, hu', hkp⟩
      · cases hp
      · cases hp
    · cases hp

theorem login_locked {wire : Wire} {email authHash label : String} {db : Db} {answer : Except Failure LoginResponse}
    (h : (login wire email authHash label : Call K LoginResponse).run ⟨.locked, db⟩ = (answer, s)) :
    s.device = .locked ∧ s.db.users = db.users ∧ ∀ id, (∀ u, userByEmail email db = .ok u → u.id = id) →
      ∀ a, answer = .ok a → Holds id s.db ⟨a.accessToken, a.refreshToken⟩ := by
  unfold login at h
  rw [request_locked rfl] at h
  simp only [Fallible.run, send, Prod.mk.injEq] at h
  obtain ⟨ha, rfl⟩ := h
  refine ⟨rfl, ?_, ?_⟩
  · rcases serve_db wire.first none (fun _ => handleLogin email authHash label) db with hd | hd
    · exact congrArg (fun db : Db => db.users) hd
    · refine (congrArg (fun db : Db => db.users) hd).trans ?_
      rcases handleLogin_cases email authHash label wire.first.now wire.first.draw db with
        ⟨r, h⟩ | ⟨user, sessions, -, -, -, -, -, h⟩
      · rw [h]
      · rw [h]
  · intro id he a hok
    have hserve := serve_ok (Prod.ext (ha.trans hok) rfl)
    rcases login_holds authHash label wire.first.now wire.first.draw he with
      ⟨r, h⟩ | ⟨user, sessions, a', -, h, -, -, -, hh⟩
    · exact absurd (congrArg Prod.fst (h.symm.trans hserve)) (by simp)
    · have heq := h.symm.trans hserve
      simp only [Prod.mk.injEq, Except.ok.injEq] at heq
      obtain ⟨rfl, hdb⟩ := heq
      rw [hdb] at hh
      exact hh

theorem enrolled_columns {draw : EnrollmentDraw K} {wrap : WrapDraw K} {password code : String}
    {enrolled : EnrollmentResult K} {recovery : RecoveryBlob K}
    (he : enrollUser C D draw password defaultKdfParams = some enrolled)
    (hr : createRecoveryBlob C D wrap enrolled.keys.userKey code defaultKdfParams = some recovery) (u : User)
    (now : Time) (sd : Draw) :
    enrolled.keys = ⟨draw.userKey, draw.privateKey⟩ ∧
    ByPassword C D (u.enrolled now ((enrollRequest D enrolled recovery).input sd)) password draw.userKey ∧
    ByCode C D (u.enrolled now ((enrollRequest D enrolled recovery).input sd)) code draw.userKey ∧
    HasPair C (u.enrolled now ((enrollRequest D enrolled recovery).input sd)) ⟨draw.userKey, draw.privateKey⟩ := by
  unfold enrollUser at he
  cases hmk : deriveMasterKey D password draw.kdfSalt defaultKdfParams with
  | none => simp [hmk] at he
  | some mk =>
    simp only [hmk, Option.bind_eq_bind, Option.bind_some, Option.pure_def, Option.some.injEq] at he
    subst he
    have hcode :
        ByCode C D (u.recoveryRotated now ((rotateRecoveryRequest D "" recovery).input sd)) code draw.userKey :=
      rotated_byCode hr now sd
    exact ⟨rfl, ⟨draw.kdfSalt, mk, sd.authSalt, draw.userKeyNonce, hmk, rfl⟩, hcode.congr rfl,
      D.toBase64 (D.publicKeyFor draw.privateKey), draw.privateKeyNonce, rfl⟩

theorem rememberEmail_ok {stored : Bool} {s s' : Scene K} {u : Unit}
    (h : (rememberEmail stored : Call K Unit).run s = (.ok u, s')) : s' = s := by
  cases stored <;> cases h
  rfl

theorem enroll_run {wire loginWire : Wire} {stored : Bool} {draw : EnrollmentDraw K} {code : CodeDraw K}
    {input : EnrolInput} {db₀ : Db} {outcome : EnrolmentOutcome}
    (h : (enroll C D wire loginWire stored draw code input).run ⟨.locked, db₀⟩ = (.ok outcome, s)) :
    ∃ enrolled recovery answer id db₁,
      enrollUser C D draw input.masterPassword defaultKdfParams = some enrolled ∧
      createRecoveryBlob C D code.wrap enrolled.keys.userKey (generateRecoveryCode code.bytes) defaultKdfParams =
        some recovery ∧
      handleEnroll input.inviteToken (enrollRequest D enrolled recovery) wire.first.now wire.first.draw db₀ =
        (.ok id, db₁) ∧
      outcome.recoveryCode = generateRecoveryCode code.bytes ∧
      ∃ s₁,
        (login loginWire input.email (D.toBase64 enrolled.authHash) input.deviceLabel : Call K LoginResponse).run
        ⟨.locked, db₁⟩ = (answer, s₁) ∧
      s.db = s₁.db ∧
      ((∃ a, answer = .ok a ∧ s.device = .opened ⟨a.accessToken, a.refreshToken⟩ enrolled.keys) ∨
        s.device = s₁.device) := by
  simp only [enroll, Fallible.run_bind_ok, Fallible.run_ofOption_ok, Fallible.run_attempt_ok] at h
  obtain ⟨enrolled, _, ⟨he, rfl⟩, recovery, _, ⟨hr, rfl⟩, id, s₁, hpost, _, _, hremember, answer, s₂,
    hlogin, h⟩ := h
  cases rememberEmail_ok hremember
  rw [request_locked rfl] at hpost
  simp only [Fallible.run, send, Prod.mk.injEq] at hpost
  obtain ⟨ha, rfl⟩ := hpost
  have hserve := serve_ok (Prod.ext ha rfl)
  refine ⟨enrolled, recovery, answer, id, _, he, hr, hserve, ?_⟩
  cases answer with
  | ok a =>
    cases h
    exact ⟨rfl, _, hlogin, rfl, Or.inl ⟨a, rfl, rfl⟩⟩
  | error e =>
    cases h
    exact ⟨rfl, _, hlogin, rfl, Or.inr rfl⟩

theorem begins_inv (h : Begins C D w) : Inv C D w ∧ Underived D w.keys.userKey := by
  obtain ⟨db₀, wire, loginWire, stored, draw, code, input, invite, outcome, s, hu, hi, hrun, rfl, haddr⟩ := h
  refine ⟨?_, hu⟩
  obtain ⟨enrolled, recovery, answer, id, db₁, he, hr, hpost, hcode, s₁, hlogin, hdb, hdev⟩ := enroll_run hrun
  obtain ⟨hlocked, husers, hholds⟩ := login_locked hlogin
  rcases handleEnroll_cases input.inviteToken (enrollRequest D enrolled recovery) wire.first.now wire.first.draw
      db₀ with
    ⟨r, h⟩ | ⟨invite', inv, u, hi', hget, -, h⟩
  · rw [h] at hpost
    cases hpost
  · rw [h] at hpost
    cases hpost
    rw [hi] at hi'
    cases hi'
    obtain ⟨hkeys, hpass, hcol, hpair⟩ := enrolled_columns he hr u wire.first.now wire.first.draw
    have hrow : s.db.users.get? invite.userID =
        some (u.enrolled wire.first.now ((enrollRequest D enrolled recovery).input wire.first.draw)) := by
      rw [hdb, husers]
      show (db₀.users.upsert _).get? _ = _
      rw [Table.get?_upsert, if_pos]
      exact (Table.get?_eq_some.mp hget).2
    have hmail : ∀ v, userByEmail input.email s.db = .ok v → v.id = invite.userID := addressed_ok haddr
    refine ⟨?_, (fun r hr => by cases hr), _, hrow, hpass, ?_, hpair⟩
    · intro n
      by_cases hn : n = 0
      · subst hn
        rcases hdev with ⟨a, ha, hd⟩ | hd
        · refine ⟨.refl _ _, ?_, ?_⟩
          · intro t ht
            simp only [scene, if_true, hd, Device.opened, Option.mem_def, Option.some.injEq] at ht
            subst ht
            show Holds invite.userID s.db _
            rw [hdb]
            refine hholds _ ?_ a ha
            rw [← userByEmail_congr (hdb ▸ husers)]
            exact hmail
          · intro k hk
            simp only [scene, if_true, hd, Device.opened, Option.mem_def, Option.some.injEq] at hk
            rw [← hk, hkeys]
        · refine ⟨.refl _ _, ?_, ?_⟩
          · intro t ht
            simp [scene, hd, hlocked, Device.locked] at ht
          · intro k hk
            simp [scene, hd, hlocked, Device.locked] at hk
      · refine ⟨.refl _ _, ?_, ?_⟩
        · intro t ht
          simp [scene, hn, Device.locked] at ht
        · intro k hk
          simp [scene, hn, Device.locked] at hk
    · show ByCode C D _ outcome.recoveryCode draw.userKey
      rw [hcode]
      exact hcol

theorem Inv.sound (h : Inv C D w) (hu : Underived D w.keys.userKey) :
    ∃ u, w.db.users.get? w.userID = some u ∧ Sound C D w u := by
  obtain ⟨u, hget, hp, hc, hk⟩ := h.row
  refine ⟨u, hget, unlockWith_current hp hk, recoverWith_current hc hk, ?_, ?_⟩
  · intro p hne salt params mk hmk k hkey
    exact shut_password hp hc hk hu hne hmk hkey
  · intro c hne salt params rk hrk k hkey
    exact shut_code hp hc hk hu hne hrk hkey

theorem run_inv {es : List (Event K)} (h : Lts.Run (step C D decoys) w es w') (hi : Inv C D w) :
    Inv C D w' ∧ w'.keys = w.keys := by
  induction h with
  | nil => exact ⟨hi, rfl⟩
  | cons hs _ ih =>
    obtain ⟨hi', hkeys, -⟩ := step_inv hs hi
    obtain ⟨hi'', hkeys'⟩ := ih hi'
    exact ⟨hi'', hkeys'.trans hkeys⟩

/-- The keys drawn at enrollment stay behind the current password and the current
code, and behind nothing else; no flow touches the credential it does not replace. -/
theorem key_lifecycle {es : List (Event K)} (h₀ : Begins C D w) (h : Lts.Run (step C D decoys) w es w') :
    w'.keys = w.keys ∧ (∃ u, w'.db.users.get? w'.userID = some u ∧ Sound C D w' u) ∧
    ∀ e w'', step C D decoys w' e w'' →
      ∃ u u', w'.db.users.get? w'.userID = some u ∧ w''.db.users.get? w''.userID = some u' ∧ Frame u u' e := by
  obtain ⟨hi, hu⟩ := begins_inv h₀
  obtain ⟨hi', hkeys⟩ := run_inv h hi
  refine ⟨hkeys, hi'.sound (hkeys ▸ hu), ?_⟩
  intro e w'' hs
  exact (step_inv hs hi').2.2

/-! Ann enrolls, changes her password and her code, recovers with that code on another device, and unlocks. -/

def delivered (id token refresh : String) : Wire :=
  let hop : Hop := ⟨.delivered, 0, ⟨⟨id, token, refresh⟩, "server-salt", "server-salt"⟩⟩
  ⟨hop, hop, hop⟩

def saltOf (c : Char) : List Char := List.replicate kdfSaltBytes c

def codeOf (b : UInt8) : CodeDraw (List Char) := ⟨List.replicate codeLength b, saltOf 's', "nonce"⟩

def invited : Db := (Server.fresh.script [
  .createPendingUser 0 "ann" "ann@home" "Ann" "user", .createInvite 0 "invite-1" "link-1" "ann" inviteTTL]).db

def annDraw : EnrollmentDraw (List Char) := ⟨saltOf 's', ['u'], ['p'], "nonce", "nonce"⟩

def annInput : EnrolInput := ⟨"link-1", "ann@home", "one", "phone"⟩

def annDecoys : Decoys := ⟨fun _ => "", fun _ => ""⟩

def annEnrolled : Scene (List Char) :=
  ((enroll symbolic symbolicKdf (delivered "" "" "") (delivered "session-1" "access-1" "refresh-1") true annDraw
    (codeOf 0) annInput).run ⟨.locked, invited⟩).2

def annWorld : World (List Char) where
  devices n := if n = 0 then annEnrolled.device else .locked
  db := annEnrolled.db
  recoveries := []
  userID := "ann"
  password := "one"
  code := "00000-00000-00000-00000-00000"
  keys := ⟨['u'], ['p']⟩

def annEvents : List (Event (List Char)) := [
  .changeMasterPassword 0 (delivered "" "" "") (delivered "audit-1" "" "") ⟨saltOf 't', "nonce"⟩
    ⟨"ann@home", "one", "two"⟩,
  .regenerateRecoveryCode 0 (delivered "" "" "") (delivered "audit-2" "" "") (codeOf 1) ⟨"ann@home", "two"⟩,
  .recoverAccount 1 (delivered "" "" "") (delivered "token-1" "recovery-1" "")
    ⟨"ann@home", generateRecoveryCode (codeOf 1).bytes⟩,
  .completeRecovery 1 (delivered "audit-3" "" "") ⟨saltOf 'v', "nonce"⟩ (codeOf 2) 0 "three",
  .unlock 1 (delivered "" "" "") (delivered "session-2" "access-2" "refresh-2") true
    ⟨"ann@home", "three", "laptop"⟩]

theorem eq_of_fst {α β : Type} {p : α × β} {a : α} (h : p.1 = a) : p = (a, p.2) := by
  cases h
  rfl

theorem annWorld_begins : Begins symbolic symbolicKdf annWorld := by
  refine ⟨invited, delivered "" "" "", delivered "session-1" "access-1" "refresh-1", true, annDraw,
    codeOf 0, annInput,
    newInvite 0 "invite-1" "link-1" "ann" inviteTTL, ⟨"00000-00000-00000-00000-00000", true⟩, annEnrolled,
    underived_symbolic [], by decide +kernel, ?_, rfl, by decide +kernel⟩
  exact eq_of_fst (by decide +kernel)

theorem key_lifecycle_two :
    ∃ w, Lts.Run (step symbolic symbolicKdf annDecoys) annWorld annEvents w ∧ w.keys = ⟨['u'], ['p']⟩ ∧
      ∃ u, w.db.users.get? w.userID = some u ∧ Sound symbolic symbolicKdf w u := by
  have hr : Lts.Run (step symbolic symbolicKdf annDecoys) annWorld annEvents
      (annEvents.foldl (fun w e => (perform symbolic symbolicKdf annDecoys w e).getD w) annWorld) :=
    Lts.run_script (by decide +kernel)
  obtain ⟨hkeys, hs, -⟩ := key_lifecycle annWorld_begins hr
  exact ⟨_, hr, hkeys, hs⟩

end World

end Keyhole.Client.Lifecycle
