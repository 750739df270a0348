import Keyhole.Store.Account

/-!
# Recovery tokens

The lookup is outside the transaction that spends the token, as it is for
an invite.
-/

namespace Keyhole.Store
open Sql

def recoveryTokenTTL : Time := 10 * 60 * second

def insertRecoveryToken (row : RecoveryToken) (db : Db) : Except SqlError (Unit × Db) :=
  if db.recoveryTokens.any fun rt => rt.tokenHash = row.tokenHash then .error .unique
  else match db.recoveryTokens.insert? row with
    | none => .error .primaryKey
    | some recoveryTokens =>
      if db.hasUser row.userID then .ok ((), { db with recoveryTokens }) else .error .foreignKey

def newRecoveryToken (now : Time) (id : Id) (token : String) (userID : Id) (ttl : Time) : RecoveryToken := {
  id, userID, tokenHash := hashToken token, createdAt := stamp now, expiresAt := stamp (now + ttl), usedAt := none }

def createRecoveryTokenTx (now : Time) (id : Id) (token : String) (userID : Id) (ttl : Time) : Txn String := do
  sql (wrap "insert recovery token") (insertRecoveryToken (newRecoveryToken now id token userID ttl))
  return token

def createRecoveryToken (now : Time) (id : Id) (token : String) (userID : Id) (ttl : Time) (db : Db) :
    Except StoreError String × Db :=
  (createRecoveryTokenTx now id token userID ttl).autocommit db

def recoveryTokenByToken (now : Time) (token : String) (db : Db) : Except StoreError RecoveryToken :=
  match db.recoveryTokens.find? fun rt => rt.tokenHash = hashToken token && rt.usedAt.isNone with
  | none => .error .notFound
  | some rt => if rt.expiresAt < now then .error .notFound else .ok rt

def RecoveryToken.spent (rt : RecoveryToken) (now : Time) : RecoveryToken := { rt with usedAt := some (stamp now) }

def spendRecoveryTokens (now : Time) (which : RecoveryToken → Bool) (db : Db) : Nat × Db :=
  let p : RecoveryToken → Bool := fun rt => which rt && rt.usedAt.isNone
  (db.recoveryTokens.count p, { db with recoveryTokens := db.recoveryTokens.update p (·.spent now) })

def completeRecoveryTx (now : Time) (auditID : Id) (rt : RecoveryToken) (password : PasswordRotation)
    (recovery : RecoveryRotation) : Txn Unit := do
  let affected ← write (spendRecoveryTokens now fun t => t.id = rt.id)
  require (affected ≠ 0) .notFound
  -- the account's other live tokens go with it
  let _ ← write (spendRecoveryTokens now fun t => t.userID = rt.userID)
  writePasswordCredential now rt.userID password ""
  writeRecoveryCredential now rt.userID recovery
  appendAudit auditID now rt.userID "account.recovery.redeem" ("user:" ++ rt.userID) []

def completeRecovery (now : Time) (auditID : Id) (token : String) (password : PasswordRotation)
    (recovery : RecoveryRotation) (db : Db) : Except StoreError Unit × Db :=
  match password.validate with
  | .error e => (.error e, db)
  | .ok () =>
    match recovery.validate with
    | .error e => (.error e, db)
    | .ok () =>
      match recoveryTokenByToken now token db with
      | .error e => (.error e, db)
      | .ok rt => (completeRecoveryTx now auditID rt password recovery).transact db

/-! ## What each of them does -/

theorem insertRecoveryToken_ok {row : RecoveryToken} {db db' : Db} {u : Unit}
    (h : insertRecoveryToken row db = .ok (u, db')) :
    ∃ recoveryTokens, db.recoveryTokens.insert? row = some recoveryTokens ∧
      (∀ rt ∈ db.recoveryTokens, rt.tokenHash ≠ row.tokenHash) ∧ db.hasUser row.userID = true ∧
      db' = { db with recoveryTokens } := by
  unfold insertRecoveryToken at h
  split at h
  · cases h
  · rename_i hu
    split at h
    · cases h
    · rename_i t ht
      split at h
      · rename_i hx
        cases h
        refine ⟨t, ht, ?_, hx, rfl⟩
        intro rt hrt hk
        exact hu (Table.any_eq_true.mpr ⟨rt, hrt, by simpa using hk⟩)
      · cases h

theorem recoveryTokenByToken_ok {now : Time} {token : String} {db : Db} {rt : RecoveryToken}
    (h : recoveryTokenByToken now token db = .ok rt) :
    rt ∈ db.recoveryTokens ∧ rt.tokenHash = hashToken token ∧ rt.usedAt = none ∧ now ≤ rt.expiresAt := by
  unfold recoveryTokenByToken at h
  split at h
  · cases h
  · rename_i rt' hf
    split at h
    · cases h
    · rename_i hx
      cases h
      have hp := Table.prop_of_find? hf
      simp only [Bool.and_eq_true, decide_eq_true_eq, Option.isNone_iff_eq_none] at hp
      exact ⟨Table.mem_of_find? hf, hp.1, hp.2, Nat.le_of_not_lt hx⟩

def retireTokens (now : Time) (id userID : Id) (tokens : Table RecoveryToken.id) : Table RecoveryToken.id :=
  (tokens.update (fun t => t.id = id && t.usedAt.isNone) (·.spent now)).update
    (fun t => t.userID = userID && t.usedAt.isNone) (·.spent now)

/-- A completed recovery spends its token and the account's others, and
replaces both credentials and ends every session, in one commit. -/
theorem completeRecoveryTx_ok {now : Time} {auditID : Id} {rt : RecoveryToken} {password : PasswordRotation}
    {recovery : RecoveryRotation} {db db' : Db} {r : Unit}
    (h : (completeRecoveryTx now auditID rt password recovery).exec db = .ok (r, db')) :
    ∃ t u auditLog, db.recoveryTokens.get? rt.id = some t ∧ t.usedAt = none ∧
      db.users.get? rt.userID = some u ∧ u.status = .active ∧
      db' = { db with
        recoveryTokens := retireTokens now rt.id rt.userID db.recoveryTokens
        users := db.users.upsert ((u.passwordRotated now password).recoveryRotated now recovery)
        sessions := endOtherSessions now rt.userID "" db.sessions
        auditLog } := by
  simp only [completeRecoveryTx, Prog.exec_bind_ok, exec_write, exec_require_ok, Except.ok.injEq,
    decide_eq_true_eq] at h
  obtain ⟨n, db₁, h₁, _, _, ⟨hn, rfl⟩, n', db₂, h₂, _, db₃, h₃, _, db₄, h₄, h₅⟩ := h
  simp only [spendRecoveryTokens, Prod.mk.injEq] at h₁ h₂
  obtain ⟨rfl, rfl⟩ := h₁
  obtain ⟨-, rfl⟩ := h₂
  obtain ⟨t, ht, hp⟩ := Table.exists_of_count (k := rt.id) (by simp +contextual) hn
  simp only [Bool.and_eq_true, Option.isNone_iff_eq_none] at hp
  obtain ⟨u, hu, hs, rfl⟩ := writePasswordCredential_ok h₃
  obtain ⟨u', hu', -, rfl⟩ := writeRecoveryCredential_ok h₄
  obtain ⟨a, rfl⟩ := exec_appendAudit h₅
  have hid : u.id = rt.userID := (Table.get?_eq_some.mp hu).2
  have he : u.passwordRotated now password = u' := by
    simpa [Table.get?_upsert, User.passwordRotated, hid] using hu'
  subst he
  refine ⟨t, u, a, ht, hp.2, hu, hs, ?_⟩
  have hup : (db.users.upsert (u.passwordRotated now password)).upsert
      ((u.passwordRotated now password).recoveryRotated now recovery) =
      db.users.upsert ((u.passwordRotated now password).recoveryRotated now recovery) := by
    exact Table.upsert_upsert rfl
  simp only [hup]
  rfl

/-- Nothing but the id of its audit entry can stop it. -/
theorem completeRecoveryTx_able {auditID : Id} {rt t : RecoveryToken} {db : Db} {u : User} (now : Time)
    (password : PasswordRotation) (recovery : RecoveryRotation) (ht : db.recoveryTokens.get? rt.id = some t)
    (hused : t.usedAt = none) (hu : db.users.get? rt.userID = some u) (hs : u.status = .active)
    (hid : db.auditLog.get? auditID = none) :
    ∃ r, (completeRecoveryTx now auditID rt password recovery).exec db = .ok r := by
  obtain ⟨hmem, htid⟩ := Table.get?_eq_some.mp ht
  have hspend : (spendRecoveryTokens now (fun t => t.id = rt.id) db).1 ≠ 0 :=
    Table.count_ne_zero hmem (by simp [htid, hused])
  unfold completeRecoveryTx
  rw [exec_guarded hspend, Prog.exec_bind, exec_write]
  simp only
  generalize hspent : (spendRecoveryTokens now (fun t => t.userID = rt.userID)
    (spendRecoveryTokens now (fun t => t.id = rt.id) db).2).2 = db₁
  have hu₁ : db₁.users.get? rt.userID = some u := by
    rw [← hspent]
    exact hu
  have haudit : db₁.auditLog = db.auditLog := by
    rw [← hspent]
    rfl
  obtain ⟨⟨⟨⟩, db₂⟩, hpassword⟩ :=
    writePasswordCredential_able now password "" hu₁ hs
  obtain ⟨u', hu', -, hdb₂⟩ := writePasswordCredential_ok hpassword
  rw [hu₁] at hu'
  cases hu'
  have hu₂ : db₂.users.get? rt.userID = some (u.passwordRotated now password) := by
    rw [hdb₂, Table.get?_upsert]
    exact if_pos (Table.get?_eq_some.mp hu).2
  obtain ⟨⟨⟨⟩, db₃⟩, hrecovery⟩ := writeRecoveryCredential_able now recovery hu₂ hs
  obtain ⟨u', hu', -, hdb₃⟩ := writeRecoveryCredential_ok hrecovery
  have hactor : db₃.hasUser rt.userID = true := by
    have hg : db₃.users.get? rt.userID = some (u'.recoveryRotated now recovery) := by
      rw [hdb₃, Table.get?_upsert]
      exact if_pos (Table.get?_eq_some.mp hu').2
    simp [Accounts.hasUser, hg]
  have hlog : db₃.auditLog.get? auditID = none := by
    rw [hdb₃, hdb₂]
    exact haudit ▸ hid
  rw [Prog.exec_bind, hpassword]
  simp only
  rw [Prog.exec_bind, hrecovery]
  exact appendAudit_able hlog (.inr hactor)

end Keyhole.Store
