import Keyhole.Store.Sessions
import Keyhole.Store.Users

/-!
# Replacing credentials

`writePasswordCredential` and `writeRecoveryCredential` are the bodies that
the two rotations and a completed recovery share.
-/

namespace Keyhole.Store
open Sql

structure PasswordRotation where
  kdfSalt : String
  kdfParams : String
  authHash : AuthHash
  protectedUserKey : String
  deriving DecidableEq, Repr

def PasswordRotation.validate (inp : PasswordRotation) : Except StoreError Unit :=
  match firstMissing [("kdfSalt", inp.kdfSalt = ""), ("params", inp.kdfParams = ""),
      ("authHash", inp.authHash.isEmpty), ("protectedUserKey", inp.protectedUserKey = "")] with
  | some e => .error e
  | none => pinned "params" inp.kdfParams

structure RecoveryRotation where
  recoverySalt : String
  recoveryKDFParams : String
  recoveryProtectedUserKey : String
  recoveryAuthHash : AuthHash
  deriving DecidableEq, Repr

def RecoveryRotation.validate (inp : RecoveryRotation) : Except StoreError Unit :=
  match firstMissing [("recoverySalt", inp.recoverySalt = ""), ("recoveryKdfParams", inp.recoveryKDFParams = ""),
      ("recoveryProtectedUserKey", inp.recoveryProtectedUserKey = ""),
      ("recoveryAuthHash", inp.recoveryAuthHash.isEmpty)] with
  | some e => .error e
  | none => pinned "recoveryKdfParams" inp.recoveryKDFParams

def User.passwordRotated (user : User) (now : Time) (inp : PasswordRotation) : User :=
  { user with
    kdfSalt := some inp.kdfSalt, kdfParams := some inp.kdfParams, authHash := some inp.authHash
    protectedUserKey := some inp.protectedUserKey
    revision := user.revision + 1, updatedAt := stamp now }

def User.recoveryRotated (user : User) (now : Time) (inp : RecoveryRotation) : User :=
  { user with
    recoverySalt := some inp.recoverySalt, recoveryKDFParams := some inp.recoveryKDFParams
    recoveryProtectedUserKey := some inp.recoveryProtectedUserKey
    recoveryAuthHash := some inp.recoveryAuthHash
    revision := user.revision + 1, updatedAt := stamp now }

def writePasswordCredential (now : Time) (userID : Id) (inp : PasswordRotation) (keepSessionID : Id) :
    Txn Unit := do
  let affected ← write <|
    updateUserRow (fun user => user.id = userID && user.status = .active) (·.passwordRotated now inp)
  require (affected ≠ 0) .notFound
  let _ ← write (revokeSessions now fun s => s.userID = userID && s.id ≠ keepSessionID)

def rotatePasswordTx (now : Time) (auditID : Id) (userID : Id) (inp : PasswordRotation) (keepSessionID : Id) :
    Txn Unit := do
  writePasswordCredential now userID inp keepSessionID
  appendAudit auditID now userID "account.password.rotate" ("user:" ++ userID) []

def rotatePassword (now : Time) (auditID : Id) (userID : Id) (inp : PasswordRotation) (keepSessionID : Id)
    (db : Db) :
    Except StoreError Unit × Db :=
  match inp.validate with
  | .error e => (.error e, db)
  | .ok () => (rotatePasswordTx now auditID userID inp keepSessionID).transact db

def writeRecoveryCredential (now : Time) (userID : Id) (inp : RecoveryRotation) : Txn Unit := do
  let affected ← write <|
    updateUserRow (fun user => user.id = userID && user.status = .active) (·.recoveryRotated now inp)
  require (affected ≠ 0) .notFound

/-- Two statements and no transaction. -/
def rotateRecoveryProg (now : Time) (auditID : Id) (userID : Id) (inp : RecoveryRotation) : Txn Unit := do
  writeRecoveryCredential now userID inp
  appendAudit auditID now userID "account.recovery.rotate" ("user:" ++ userID) []

def rotateRecovery (now : Time) (auditID : Id) (userID : Id) (inp : RecoveryRotation) (db : Db) :
    Except StoreError Unit × Db :=
  match inp.validate with
  | .error e => (.error e, db)
  | .ok () => (rotateRecoveryProg now auditID userID inp).autocommit db

/-! ## What each of them does -/

def endOtherSessions (now : Time) (userID keep : Id) (sessions : Table Session.id) : Table Session.id :=
  sessions.update (fun s => (s.userID = userID && s.id ≠ keep) && s.revokedAt.isNone) (·.revoked now)
    (Session.revoked_id now)

theorem writePasswordCredential_ok {now : Time} {userID : Id} {inp : PasswordRotation} {keep : Id} {db db' : Db}
    {r : Unit} (h : (writePasswordCredential now userID inp keep).exec db = .ok (r, db')) :
    ∃ u, db.users.get? userID = some u ∧ u.status = .active ∧
      db' = { db with
        users := db.users.upsert (u.passwordRotated now inp)
        sessions := endOtherSessions now userID keep db.sessions } := by
  simp only [writePasswordCredential, Prog.exec_bind_ok, exec_write, exec_require_ok, Except.ok.injEq,
    decide_eq_true_eq] at h
  obtain ⟨n, db₁, h₁, _, _, ⟨hn, rfl⟩, n', db₂, h₂, h₃⟩ := h
  obtain ⟨u, hu, hp, rfl⟩ := updateUserRow_ok userID h₁ hn (by simp +contextual)
  simp only [Bool.and_eq_true, decide_eq_true_eq] at hp
  cases h₂
  cases h₃
  exact ⟨u, hu, hp.2, rfl⟩

theorem writeRecoveryCredential_ok {now : Time} {userID : Id} {inp : RecoveryRotation} {db db' : Db} {r : Unit}
    (h : (writeRecoveryCredential now userID inp).exec db = .ok (r, db')) :
    ∃ u, db.users.get? userID = some u ∧ u.status = .active ∧
      db' = { db with users := db.users.upsert (u.recoveryRotated now inp) } := by
  simp only [writeRecoveryCredential, Prog.exec_bind_ok, exec_write, exec_require_ok, Except.ok.injEq,
    decide_eq_true_eq] at h
  obtain ⟨n, db₁, h₁, hn, rfl⟩ := h
  obtain ⟨u, hu, hp, rfl⟩ := updateUserRow_ok userID h₁ hn (by simp +contextual)
  simp only [Bool.and_eq_true, decide_eq_true_eq] at hp
  exact ⟨u, hu, hp.2, rfl⟩

theorem rotatePasswordTx_ok {now : Time} {auditID userID : Id} {inp : PasswordRotation} {keep : Id} {db db' : Db}
    {r : Unit} (h : (rotatePasswordTx now auditID userID inp keep).exec db = .ok (r, db')) :
    ∃ u auditLog, db.users.get? userID = some u ∧ u.status = .active ∧
      db' = { db with
        users := db.users.upsert (u.passwordRotated now inp)
        sessions := endOtherSessions now userID keep db.sessions
        auditLog } := by
  simp only [rotatePasswordTx, Prog.exec_bind_ok] at h
  obtain ⟨_, db₁, h₁, h₂⟩ := h
  obtain ⟨u, hu, hs, rfl⟩ := writePasswordCredential_ok h₁
  obtain ⟨t, rfl⟩ := exec_appendAudit h₂
  exact ⟨u, t, hu, hs, rfl⟩

/-! ## When they succeed -/

theorem writePasswordCredential_able {userID : Id} {db : Db} {u : User} (now : Time) (inp : PasswordRotation)
    (keep : Id) (hu : db.users.get? userID = some u) (hs : u.status = .active) :
    ∃ r, (writePasswordCredential now userID inp keep).exec db = .ok r := by
  have hwrite := (updateUserRow_get (p := fun user => user.id = userID && user.status = .active)
    (f := (·.passwordRotated now inp)) (fun _ => rfl) hu (by simp [(Table.get?_eq_some.mp hu).2, hs])
    (by simp +contextual)).1
  unfold writePasswordCredential
  rw [exec_guarded hwrite, Prog.exec_bind, exec_write]
  exact ⟨_, rfl⟩

theorem writeRecoveryCredential_able {userID : Id} {db : Db} {u : User} (now : Time) (inp : RecoveryRotation)
    (hu : db.users.get? userID = some u) (hs : u.status = .active) :
    ∃ r, (writeRecoveryCredential now userID inp).exec db = .ok r := by
  have hwrite := (updateUserRow_get (p := fun user => user.id = userID && user.status = .active)
    (f := (·.recoveryRotated now inp)) (fun _ => rfl) hu (by simp [(Table.get?_eq_some.mp hu).2, hs])
    (by simp +contextual)).1
  unfold writeRecoveryCredential
  rw [Prog.exec_bind, exec_write]
  simp only
  rw [exec_require, if_pos (decide_eq_true hwrite)]
  exact ⟨_, rfl⟩

end Keyhole.Store
