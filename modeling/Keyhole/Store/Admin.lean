import Keyhole.Store.Collections
import Keyhole.Store.Folders
import Keyhole.Store.Sessions
import Keyhole.Store.Users

/-!
# What an administrator does to an account, and the retention purge

`DeleteUser` is one DELETE: the rows it reaches go by ON DELETE CASCADE,
audit entries lose their actor, and a collection the user created or a
membership or grant of somebody else that names the user refuses it.
-/

namespace Keyhole.Store
open Sql

def remainingAdmins (userID : Id) (db : Db) : Nat :=
  db.users.count fun user => user.role = .admin && user.status = .active && user.id ≠ userID

def parseStatus (status : String) : Option UserStatus :=
  if status = "active" then some .active
  else if status = "disabled" then some .disabled
  else none

def User.withStatus (user : User) (now : Time) (status : UserStatus) : User :=
  { user with status, revision := user.revision + 1, updatedAt := stamp now }

def notLastAdmin (userID : Id) : Txn Unit := do
  let found ← Prog.query (·.users.get? userID)
  match found with
  | none => .fail .notFound
  | some user =>
    let remaining ← Prog.query (remainingAdmins userID)
    require (!(user.role = .admin && remaining = 0)) .lastAdmin

def revokeSessionsOf (now : Time) (userID : Id) : Txn Unit := do
  let _ ← write (revokeSessions now fun s => s.userID = userID)

def setUserStatusTx (now : Time) (auditID : Id) (userID : Id) (status : UserStatus) (text : String) (actorID : Id) :
    Txn Unit := do
  (if status = .disabled then notLastAdmin userID else pure ())
  let affected ← write (updateUserRow (fun user => user.id = userID) (·.withStatus now status))
  require (affected ≠ 0) .notFound
  (if status = .disabled then revokeSessionsOf now userID else pure ())
  appendAudit auditID now actorID "user.status" ("user:" ++ userID) [("status", text)]

def setUserStatus (now : Time) (auditID : Id) (userID : Id) (status : String) (actorID : Id) (db : Db) :
    Except StoreError Unit × Db :=
  match parseStatus status with
  | none => (.error (.validation "status" "must be active or disabled"), db)
  | some st => (setUserStatusTx now auditID userID st status actorID).transact db

def User.reset (user : User) (now : Time) : User :=
  { user with
    status := .pending
    kdfSalt := none, kdfParams := none, authHash := none, protectedUserKey := none
    recoveryProtectedUserKey := none, recoverySalt := none, recoveryKDFParams := none, recoveryAuthHash := none
    publicKey := none, encryptedPrivateKey := none
    revision := user.revision + 1, updatedAt := stamp now }

def deletePersonalItems (userID : Id) (db : Db) : Unit × Db :=
  ((), { db with items := db.items.delete fun item => item.ownerUserID = userID && item.collectionID = none })

def deleteFoldersOf (userID : Id) (db : Db) : Unit × Db :=
  ((), { db with folders := db.folders.delete fun folder => folder.userID = userID })

def deleteMembershipsOf (userID : Id) (db : Db) : Unit × Db :=
  ((), { db with memberships := db.memberships.delete fun m => m.userID = userID })

def deletePendingGrantsOf (userID : Id) (db : Db) : Unit × Db :=
  ((), { db with pendingGrants := db.pendingGrants.delete fun g => g.userID = userID })

def resetUserTx (now : Time) (inviteID auditID : Id) (token : String) (userID actorID : Id) : Txn String := do
  let affected ← write (updateUserRow (fun user => user.id = userID) (·.reset now))
  require (affected ≠ 0) .notFound
  write (deletePersonalItems userID)
  write (deleteFoldersOf userID)
  write (deleteMembershipsOf userID)
  write (deletePendingGrantsOf userID)
  revokeSessionsOf now userID
  let token ← createInviteTx now inviteID token userID inviteTTL
  appendAudit auditID now actorID "user.reset" ("user:" ++ userID) []
  return token

def resetUser (now : Time) (inviteID auditID : Id) (token : String) (userID actorID : Id) (db : Db) :
    Except StoreError String × Db :=
  (resetUserTx now inviteID auditID token userID actorID).transact db

/-- What is left after the cascades of `DELETE FROM users WHERE id = ?`. -/
def cascadeUser (userID : Id) (db : Db) : Db :=
  { db with
    users := db.users.delete fun user => user.id = userID
    invites := db.invites.delete fun inv => inv.userID = userID
    recoveryTokens := db.recoveryTokens.delete fun rt => rt.userID = userID
    sessions := db.sessions.delete fun s => s.userID = userID
    memberships := db.memberships.delete fun m => m.userID = userID
    pendingGrants := db.pendingGrants.delete fun g => g.userID = userID
    items := db.items.delete fun item => item.ownerUserID = userID
    folders := db.folders.delete fun folder => folder.userID = userID
    auditLog := db.auditLog.update (fun entry => entry.actorUserID = some userID) fun entry =>
      { entry with actorUserID := none } }

def userReferenced (userID : Id) (db : Db) : Bool :=
  db.collections.any (fun c => c.createdBy = userID) || db.memberships.any (fun m => m.grantedBy = userID) ||
    db.pendingGrants.any (fun g => g.requestedBy = userID)

def deleteUserRow (userID : Id) (db : Db) : Except SqlError (Unit × Db) :=
  if userReferenced userID (cascadeUser userID db) then .error .foreignKey else .ok ((), cascadeUser userID db)

def deletable (userID actorID : Id) (db : Db) : Bool :=
  (db.users.get? userID).any (fun user => !(user.role = .admin && remainingAdmins userID db = 0)) &&
    !userReferenced userID (cascadeUser userID db) && (actorID = "" || (cascadeUser userID db).hasUser actorID)

def deleteUserTx (now : Time) (auditID : Id) (userID actorID : Id) : Txn Unit := do
  notLastAdmin userID
  sql (fun _ => .userReferenced) (deleteUserRow userID)
  appendAudit auditID now actorID "user.delete" ("user:" ++ userID) []

def deleteUser (now : Time) (auditID : Id) (userID actorID : Id) (db : Db) : Except StoreError Unit × Db :=
  (deleteUserTx now auditID userID actorID).transact db

/-! ## Retention -/

def tombstoneRetention : Time := 90 * 24 * 3600 * second

def expiredTombstone (cutoff : Time) (deletedAt : Option Time) : Bool := deletedAt.any (· < cutoff)

def purgeItems (cutoff : Time) (db : Db) : Nat × Db :=
  (db.items.count fun item => expiredTombstone cutoff item.deletedAt,
    { db with items := db.items.delete fun item => expiredTombstone cutoff item.deletedAt })

def purgeFolders (cutoff : Time) (db : Db) : Nat × Db :=
  (db.folders.count fun folder => expiredTombstone cutoff folder.deletedAt,
    { db with folders := db.folders.delete fun folder => expiredTombstone cutoff folder.deletedAt })

def purgeTombstonesTx (cutoff : Time) : Txn Nat := do
  let items ← write (purgeItems cutoff)
  let folders ← write (purgeFolders cutoff)
  return items + folders

/-- The audit entry is appended after the commit. -/
def purgeTombstones (now : Time) (auditID : Id) (olderThan : Time) (db : Db) : Except StoreError Nat × Db :=
  match (purgeTombstonesTx (stamp (now - olderThan))).transact db with
  | (.error e, db') => (.error e, db')
  | (.ok total, db') =>
    if total > 0 then
      match (appendAudit auditID now "" "retention.purge" "tombstones" [("purged", toString total)]).autocommit
        db' with
      | (.error e, db'') => (.error e, db'')
      | (.ok (), db'') => (.ok total, db'')
    else (.ok total, db')

/-! ## What each of them does -/

def endSessions (now : Time) (userID : Id) (sessions : Table Session.id) : Table Session.id :=
  sessions.update (fun s => s.userID = userID && s.revokedAt.isNone) (·.revoked now) (Session.revoked_id now)

theorem notLastAdmin_ok {userID : Id} {db db' : Db} {r : Unit}
    (h : (notLastAdmin userID).exec db = .ok (r, db')) :
    ((db.users.get? userID).any fun user => !(user.role = .admin && remainingAdmins userID db = 0)) = true ∧
      db' = db := by
  simp only [notLastAdmin, Prog.exec_bind, Prog.exec_query] at h
  cases hu : db.users.get? userID with
  | none => simp [hu] at h
  | some u =>
    rw [hu] at h
    simp only [Prog.exec_bind, Prog.exec_query, exec_require_ok] at h
    exact h

theorem revokeSessionsOf_ok {now : Time} {userID : Id} {db db' : Db} {r : Unit}
    (h : (revokeSessionsOf now userID).exec db = .ok (r, db')) :
    db' = { db with sessions := endSessions now userID db.sessions } := by
  simp only [revokeSessionsOf, Prog.exec_bind, exec_write] at h
  cases h
  rfl

theorem setUserStatusTx_ok {now : Time} {auditID userID : Id} {status : UserStatus} {text : String} {actorID : Id}
    {db db' : Db} {r : Unit} (h : (setUserStatusTx now auditID userID status text actorID).exec db = .ok (r, db')) :
    ∃ u auditLog, db.users.get? userID = some u ∧
      (status = .disabled → u.role = .admin → remainingAdmins userID db ≠ 0) ∧
      db' = { db with
        users := db.users.upsert (u.withStatus now status)
        sessions := if status = .disabled then endSessions now userID db.sessions else db.sessions
        auditLog } := by
  simp only [setUserStatusTx, Prog.exec_bind_ok, exec_write, exec_require_ok, Except.ok.injEq,
    decide_eq_true_eq] at h
  obtain ⟨_, db₁, h₁, n, db₂, h₂, _, _, ⟨hn, rfl⟩, _, db₃, h₃, h₄⟩ := h
  obtain ⟨u, hu, -, rfl⟩ := updateUserRow_ok userID h₂ hn (by simp)
  obtain ⟨t, rfl⟩ := exec_appendAudit h₄
  by_cases hst : status = .disabled
  · rw [if_pos hst] at h₁ h₃ ⊢
    obtain ⟨hadmin, rfl⟩ := notLastAdmin_ok h₁
    cases revokeSessionsOf_ok h₃
    refine ⟨u, t, hu, ?_, rfl⟩
    intro _ hrole
    simpa [hu, hrole] using hadmin
  · rw [if_neg hst] at h₁ h₃ ⊢
    cases h₁
    cases h₃
    exact ⟨u, t, hu, fun h => absurd h hst, rfl⟩

/-- A reset destroys the key material, the personal rows and the memberships,
and leaves one more invite, in one commit. -/
theorem resetUserTx_ok {now : Time} {inviteID auditID : Id} {token : String} {userID actorID : Id} {db db' : Db}
    {t : String} (h : (resetUserTx now inviteID auditID token userID actorID).exec db = .ok (t, db')) :
    t = token ∧ ∃ u invites auditLog, db.users.get? userID = some u ∧
      db.invites.insert? (newInvite now inviteID token userID inviteTTL) = some invites ∧
      (∀ inv ∈ db.invites, inv.tokenHash ≠ hashToken token) ∧ (actorID = "" ∨ db.hasUser actorID = true) ∧
      db' = { db with
        users := db.users.upsert (u.reset now)
        items := db.items.delete fun item => item.ownerUserID = userID && item.collectionID = none
        folders := db.folders.delete fun folder => folder.userID = userID
        memberships := db.memberships.delete fun m => m.userID = userID
        pendingGrants := db.pendingGrants.delete fun g => g.userID = userID
        sessions := endSessions now userID db.sessions
        invites, auditLog } := by
  simp only [resetUserTx, Prog.exec_bind_ok, exec_write, exec_require_ok, Except.ok.injEq, decide_eq_true_eq] at h
  obtain ⟨n, db₁, h₁, _, _, ⟨hn, rfl⟩, _, db₂, h₂, _, db₃, h₃, _, db₄, h₄, _, db₅, h₅, _,
    db₆, h₆, tok, db₇, h₇,
    _, db₈, h₈, h₉⟩ := h
  obtain ⟨u, hu, -, rfl⟩ := updateUserRow_ok userID h₁ hn (by simp)
  cases h₂; cases h₃; cases h₄; cases h₅; cases revokeSessionsOf_ok h₆
  obtain ⟨rfl, invites, hi, hf, -, rfl⟩ := createInviteTx_ok h₇
  have hactor := appendAudit_actor h₈
  obtain ⟨a, rfl⟩ := exec_appendAudit h₈
  cases h₉
  refine ⟨rfl, u, invites, a, hu, hi, hf, ?_, rfl⟩
  rcases hactor with h | h
  · exact Or.inl h
  · right
    rw [← hasUser_upsert hu (u.reset now) rfl]
    exact h

theorem deleteUserTx_ok {now : Time} {auditID userID actorID : Id} {db db' : Db} {r : Unit}
    (h : (deleteUserTx now auditID userID actorID).exec db = .ok (r, db')) :
    ∃ auditLog, deletable userID actorID db = true ∧
      db' = { cascadeUser userID db with auditLog } := by
  simp only [deleteUserTx, Prog.exec_bind_ok, exec_sql_ok] at h
  obtain ⟨_, db₁, h₁, _, db₂, h₂, h₃⟩ := h
  obtain ⟨hadmin, rfl⟩ := notLastAdmin_ok h₁
  unfold deleteUserRow at h₂
  split at h₂
  · cases h₂
  · rename_i hr
    cases h₂
    have hactor := appendAudit_actor h₃
    obtain ⟨a, rfl⟩ := exec_appendAudit h₃
    refine ⟨a, ?_, rfl⟩
    unfold deletable
    rw [hadmin, Bool.true_and, Bool.and_eq_true, Bool.or_eq_true, decide_eq_true_eq]
    exact ⟨by simpa using hr, hactor⟩

theorem purgeTombstones_vault (now : Time) (auditID : Id) (olderThan : Time) (db : Db) :
    ∃ auditLog, (purgeTombstones now auditID olderThan db).2 = { db with
      items := db.items.delete fun item => expiredTombstone (stamp (now - olderThan)) item.deletedAt
      folders := db.folders.delete fun folder => expiredTombstone (stamp (now - olderThan)) folder.deletedAt
      auditLog } := by
  have ht : ∀ cutoff, (purgeTombstonesTx cutoff).transact db =
    (.ok ((purgeItems cutoff db).1 + (purgeFolders cutoff db).1),
      (purgeFolders cutoff (purgeItems cutoff db).2).2) := by
    intro cutoff
    apply Prog.transact_of_exec
    rfl
  unfold purgeTombstones
  rw [ht]
  simp only
  split
  · obtain ⟨auditLog, ha⟩ := autocommit_appendAudit auditID now "" "retention.purge" "tombstones"
      [("purged", toString ((purgeItems (stamp (now - olderThan)) db).1 +
        (purgeFolders (stamp (now - olderThan)) db).1))]
      (purgeFolders (stamp (now - olderThan)) (purgeItems (stamp (now - olderThan)) db).2).2
    refine ⟨auditLog, ?_⟩
    split <;> rename_i hr <;> rw [hr] at ha <;> exact ha
  · exact ⟨db.auditLog, rfl⟩

end Keyhole.Store
