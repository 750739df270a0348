import Keyhole.Lib.Operation
import Keyhole.Store.AccountEffect

/-!
# The statements of every operation

The operations of the store as the parts they are made of, each statement,
BEGIN and COMMIT a place a fault can strike. Without a fault they are the
commands; under one, the vault and the accounts are as before the operation
or as after it.
-/

namespace Keyhole.Store
open Sql

abbrev Op := Operation Db StoreError Unit

def refuse (e : StoreError) : Op := .done (.error e)

def checked (valid : Except StoreError Unit) (op : Op) : Op :=
  match valid with
  | .error e => refuse e
  | .ok () => op

/-- `CreatePendingUser` reads its row back. -/
def createPendingUserProg (now : Time) (id : Id) (email name : String) (role : UserRole) : Txn User := do
  sql classifyUserInsertError (insertUser (pendingUser now id email name role))
  let found ← Prog.query (userByID id)
  match found with
  | .error e => .fail e
  | .ok user => return user

/-- `CreateInvite` reads the id of its row back. -/
def createInviteProg (now : Time) (id : Id) (token : String) (userID : Id) (ttl : Time) : Txn Invite := do
  let token ← createInviteTx now id token userID ttl
  let found ← Prog.query (·.invites.find? fun inv => inv.tokenHash = hashToken token)
  match found with
  | none => .fail (.internal "read new invite")
  | some inv => return { inv with createdAt := now, expiresAt := now + ttl }

def touchSessionProg (now : Time) (id : Id) : Txn Unit := write fun db => ((), touchSession now id db)

def createItemsBulkOp (now : Time) (ids : List Id) (ownerUserID : Id) (ins : List ItemInput) : Op :=
  if ins = [] then refuse (.validation "items" "")
  else checked (validateAll ins) (.once (insertItems now ownerUserID ids ins))

def purgeAudit (now : Time) (auditID : Id) (total : Nat) : Txn Unit :=
  appendAudit auditID now "" "retention.purge" "tombstones" [("purged", toString total)]

def purgeLogged (now : Time) (auditID : Id) (total : Nat) : Op :=
  if total > 0 then .plain (purgeAudit now auditID total) else .done (.ok ())

def Command.op : Command → Op
  | createItem now id owner inp => createItemsBulkOp now [id] owner [inp]
  | createItemsBulk now ids owner ins => createItemsBulkOp now ids owner ins
  | updateItem now id expected inp => checked inp.validate (.once (updateItemTx now id expected inp))
  | deleteItem now id => .once (deleteItemTx now id)
  | createFolder now id userID name =>
    if name = "" then refuse (.validation "encryptedName" "") else .once (createFolderTx now id userID name)
  | updateFolder now id expected name =>
    if name = "" then refuse (.validation "encryptedName" "") else .once (updateFolderTx now id expected name)
  | deleteFolder now id => .once (deleteFolderTx now id)
  | createCollection now id auditID name by_ key =>
    if Go.trimSpace name = "" then refuse (.validation "name" "")
    else if key = "" then refuse (.validation "sealedCollectionKey" "")
    else .once (createCollectionTx now id auditID (Go.trimSpace name) by_ key)
  | deleteCollection id => .plain (deleteCollectionTx id)
  | fulfilGrantOrAdd now auditID c u key role by_ =>
    match validRole role with
    | none => refuse (.validation "role" "")
    | some role =>
      if key = "" then refuse (.validation "sealedCollectionKey" "")
      else .once (addMemberTx now auditID c u key role by_)
  | removeMember now auditID c u by_ => .once (removeMemberTx now auditID c u by_)
  | createPendingGrant now auditID c u role by_ =>
    match validRole role with
    | none => refuse (.validation "role" "")
    | some _ => .plain (createPendingGrantProg now auditID c u role by_)
  | fulfilGrant now auditID c u key by_ =>
    if key = "" then refuse (.validation "sealedCollectionKey" "")
    else .once (fulfilGrantTx now auditID c u key by_)
  | setUserStatus now auditID u status actor =>
    match parseStatus status with
    | none => refuse (.validation "status" "must be active or disabled")
    | some st => .once (setUserStatusTx now auditID u st status actor)
  | resetUser now inviteID auditID token u actor => .once (resetUserTx now inviteID auditID token u actor)
  | deleteUser now auditID u actor => .once (deleteUserTx now auditID u actor)
  | purgeTombstones now auditID olderThan =>
    .tx (purgeTombstonesTx (stamp (now - olderThan))) (purgeLogged now auditID)
  | createPendingUser now id email name role =>
    match parseRole role with
    | none => refuse (.internal "invalid role")
    | some role =>
      if email = "" || '@' ∉ email.toList then refuse (.internal "invalid email")
      else if Go.trimSpace name = "" then refuse (.internal "name must not be empty")
      else .plain (createPendingUserProg now id email (Go.trimSpace name) role)
  | createInvite now id token u ttl => .plain (createInviteProg now id token u ttl)
  | completeEnrollment now invite inp => .once (completeEnrollmentTx now invite inp)
  | createSession now id access refresh u label => .plain (createSessionTx now id access refresh u label)
  | rotateSession now session refresh access' refresh' =>
    .plain (rotateSessionTx now session refresh access' refresh')
  | touchSession now id => .plain (touchSessionProg now id)
  | revokeSession now id => .plain (revokeSessionTx now fun s => s.id = id)
  | revokeSessionForUser now id u => .plain (revokeSessionTx now fun s => s.id = id && s.userID = u)
  | rotatePassword now auditID u inp keep => checked inp.validate (.once (rotatePasswordTx now auditID u inp keep))
  | rotateRecovery now auditID u inp => checked inp.validate (.plain (rotateRecoveryProg now auditID u inp))
  | createRecoveryToken now id token u ttl => .plain (createRecoveryTokenTx now id token u ttl)
  | completeRecovery now auditID rt password recovery => .once (completeRecoveryTx now auditID rt password recovery)

/-- Every write the store offers: the commands, the three operations that look
a token up before their transaction, and an audit entry on its own. -/
inductive Mutation
  | command (c : Command)
  | completeEnrollment (now : Time) (token : String) (inp : EnrollmentInput)
  | completeRecovery (now : Time) (auditID : Id) (token : String) (password : PasswordRotation)
      (recovery : RecoveryRotation)
  | rotateSession (now : Time) (refreshToken newAccess newRefresh : String)
  | appendAudit (now : Time) (id : Id) (actorUserID action target : String) (metadata : List (String × String))

/-- A SELECT outside any transaction, and what is done with the row it finds. -/
def lookup {β : Type} (find : Db → Except StoreError β) (k : β → Op) : Op :=
  .auto (Prog.query find) fun found =>
    match found with
    | .error e => refuse e
    | .ok b => k b

def Mutation.op : Mutation → Op
  | command c => c.op
  | completeEnrollment now token inp =>
    checked inp.validate <| lookup (inviteByToken now token) fun invite =>
      .once (completeEnrollmentTx now invite inp)
  | completeRecovery now auditID token password recovery =>
    checked password.validate <| checked recovery.validate <| lookup (recoveryTokenByToken now token) fun rt =>
      .once (completeRecoveryTx now auditID rt password recovery)
  | rotateSession now refreshToken newAccess newRefresh =>
    lookup (sessionByRefreshToken now refreshToken) fun session =>
      .plain (rotateSessionTx now session refreshToken newAccess newRefresh)
  | appendAudit now id actor action target metadata =>
    .plain (Store.appendAudit id now actor action target metadata)

/-! ## Without a fault -/

section
variable (lost : StoreError) (db : Db)

theorem run_createItemsBulkOp (now : Time) (ids : List Id) (owner : Id) (ins : List ItemInput) :
    ((createItemsBulkOp now ids owner ins).run lost none db).2 = (createItemsBulk now ids owner ins db).2 := by
  unfold createItemsBulkOp createItemsBulk checked
  split
  · rfl
  · cases validateAll ins with
    | error e => rfl
    | ok _ => exact Operation.run_once_none lost _ db

theorem run_createPendingUserProg (now : Time) (id : Id) (email name : String) (role : UserRole) :
    ((createPendingUserProg now id email name role).autocommit db).2 =
      ((do sql classifyUserInsertError (insertUser (pendingUser now id email name role))
           return pendingUser now id email name role : Txn User).autocommit db).2 := by
  unfold createPendingUserProg
  rw [Prog.autocommit_bind, Prog.autocommit_bind]
  cases (sql classifyUserInsertError (insertUser (pendingUser now id email name role))).autocommit db with
  | mk r db' =>
    cases r with
    | error e => rfl
    | ok u =>
      change ((match userByID id db' with | .error e => Prog.fail e | .ok user => Prog.done user).autocommit
        db').2 = db'
      cases userByID id db' <;> rfl

theorem run_createInviteProg (now : Time) (id : Id) (token : String) (u : Id) (ttl : Time) :
    ((createInviteProg now id token u ttl).autocommit db).2 = (createInvite now id token u ttl db).2 := by
  unfold createInviteProg createInvite
  rw [Prog.autocommit_bind]
  cases (createInviteTx now id token u ttl).autocommit db with
  | mk r db' =>
    cases r with
    | error e => rfl
    | ok t =>
      simp only [Prog.autocommit_bind, Prog.query, Prog.autocommit]
      split <;> rfl

theorem run_purge (now : Time) (auditID : Id) (olderThan : Time) :
    ((Command.purgeTombstones now auditID olderThan).op.run lost none db).2 =
      (purgeTombstones now auditID olderThan db).2 := by
  simp only [Command.op, purgeTombstones, Operation.run, Fault.next_none, Prog.execAt_none, Prog.transact]
  cases (purgeTombstonesTx (stamp (now - olderThan))).exec db with
  | error e => rfl
  | ok r =>
    obtain ⟨total, db'⟩ := r
    simp only [purgeLogged]
    by_cases ht : total > 0
    · rw [if_pos ht, if_pos ht]
      refine (Operation.run_plain_none lost _ db').trans ?_
      unfold purgeAudit
      split <;> rename_i h <;> rw [h]
    · rw [if_neg ht, if_neg ht]
      rfl

theorem run_op (c : Command) : (c.op.run lost none db).2 = c.run db := by
  cases c with
  | createItem now id owner inp =>
    simp only [Command.op, Command.run]
    rw [createItem_vault]
    exact run_createItemsBulkOp lost db now [id] owner [inp]
  | createItemsBulk now ids owner ins => exact run_createItemsBulkOp lost db now ids owner ins
  | updateItem now id expected inp =>
    simp only [Command.op, Command.run, checked, Store.updateItem]
    cases inp.validate with
    | error e => rfl
    | ok _ => exact Operation.run_once_none lost _ db
  | createFolder now id userID name =>
    simp only [Command.op, Command.run, Store.createFolder]
    split
    · rfl
    · exact Operation.run_once_none lost _ db
  | updateFolder now id expected name =>
    simp only [Command.op, Command.run, Store.updateFolder]
    split
    · rfl
    · exact Operation.run_once_none lost _ db
  | createCollection now id auditID name by_ key =>
    simp only [Command.op, Command.run, Store.createCollection]
    split
    · rfl
    · split
      · rfl
      · exact Operation.run_once_none lost _ db
  | fulfilGrantOrAdd now auditID c u key role by_ =>
    simp only [Command.op, Command.run, Store.fulfilGrantOrAdd]
    cases validRole role with
    | none => rfl
    | some role =>
      simp only
      split
      · rfl
      · exact Operation.run_once_none lost _ db
  | createPendingGrant now auditID c u role by_ =>
    simp only [Command.op, Command.run, Store.createPendingGrant]
    cases validRole role with
    | none => rfl
    | some role => exact Operation.run_plain_none lost _ db
  | fulfilGrant now auditID c u key by_ =>
    simp only [Command.op, Command.run, Store.fulfilGrant]
    split
    · rfl
    · exact Operation.run_once_none lost _ db
  | setUserStatus now auditID u status actor =>
    simp only [Command.op, Command.run, Store.setUserStatus]
    cases parseStatus status with
    | none => rfl
    | some st => exact Operation.run_once_none lost _ db
  | purgeTombstones now auditID olderThan => exact run_purge lost db now auditID olderThan
  | createPendingUser now id email name role =>
    simp only [Command.op, Command.run, Store.createPendingUser]
    cases parseRole role with
    | none => rfl
    | some role =>
      simp only
      split
      · rfl
      · split
        · rfl
        · rw [Operation.run_plain_none]
          exact run_createPendingUserProg db now id email (Go.trimSpace name) role
  | createInvite now id token u ttl =>
    simp only [Command.op, Command.run]
    rw [Operation.run_plain_none]
    exact run_createInviteProg db now id token u ttl
  | rotatePassword now auditID u inp keep =>
    simp only [Command.op, Command.run, checked, Store.rotatePassword]
    cases inp.validate with
    | error e => rfl
    | ok _ => exact Operation.run_once_none lost _ db
  | rotateRecovery now auditID u inp =>
    simp only [Command.op, Command.run, checked, Store.rotateRecovery]
    cases inp.validate with
    | error e => rfl
    | ok _ => exact Operation.run_plain_none lost _ db
  | touchSession now id => exact Operation.run_plain_none lost _ db
  | deleteItem | deleteFolder | removeMember | resetUser | deleteUser | completeEnrollment | completeRecovery =>
    exact Operation.run_once_none lost _ db
  | deleteCollection | createSession | rotateSession | revokeSession | revokeSessionForUser | createRecoveryToken =>
    exact Operation.run_plain_none lost _ db

end

/-! ## Under a fault -/

/-- What a fault leaves as it was or brings to where it was going: everything
but the pending grants and the audit log. -/
def Db.tables (db : Db) : Vault × Accounts := (db.toVault, db.toAccounts)

section
open Operation

theorem appendAudit_tables {now : Time} (id : Id) (actor action target : String) (md : List (String × String)) :
    (appendAudit id now actor action target md).Keeps (SameView Db.tables) := by
  apply keeps_sql
  intro db u db' h
  obtain ⟨t, -, -, rfl⟩ := insertAudit_ok h
  rfl

theorem createPendingGrantProg_tables (now : Time) (auditID c u role by_ : Id) :
    (createPendingGrantProg now auditID c u role by_).Keeps (SameView Db.tables) := by
  refine Prog.keeps_bind (keeps_sql ?_) fun _ => appendAudit_tables _ _ _ _ _
  intro db r db' h
  unfold upsertPendingGrant at h
  split at h
  · cases h; rfl
  · cases h

theorem settles_checked {valid : Except StoreError Unit} {op : Op} (h : op.Settles Db.tables) :
    (checked valid op).Settles Db.tables := by
  cases valid with
  | error e => exact settles_keeps (keeps_done _)
  | ok _ => exact h

theorem settles_found {β : Type} {find : Db → Except StoreError β} {k : β → Op}
    (h : ∀ b, (k b).Settles Db.tables) : (lookup find k).Settles Db.tables := by
  apply settles_lookup
  intro found
  cases found with
  | error e => exact settles_keeps (keeps_done _)
  | ok b => exact h b

theorem settles_createItemsBulkOp (now : Time) (ids : List Id) (owner : Id) (ins : List ItemInput) :
    (createItemsBulkOp now ids owner ins).Settles Db.tables := by
  unfold createItemsBulkOp
  split
  · exact settles_keeps (keeps_done _)
  · exact settles_checked (settles_once _)

theorem settles_rotateSession (now : Time) (session : Session) (refresh access' refresh' : String) :
    (plain (rotateSessionTx now session refresh access' refresh')).Settles Db.tables :=
  settles_then (settles_stmt _) fun _ => Prog.keeps_bind (keeps_require _ _) fun _ => Prog.keeps_pure _

theorem settles_rotateRecovery (now : Time) (auditID u : Id) (inp : RecoveryRotation) :
    (plain (rotateRecoveryProg now auditID u inp)).Settles Db.tables := by
  refine settles_then ?_ fun _ => appendAudit_tables _ _ _ _ _
  exact settles_then (settles_stmt _) fun _ => keeps_require _ _

theorem settles_createPendingUser (now : Time) (id : Id) (email name : String) (role : UserRole) :
    (plain (createPendingUserProg now id email name role)).Settles Db.tables := by
  refine settles_then (settles_stmt _) fun _ => Prog.keeps_bind (Prog.keeps_query SameView.refl _) fun found => ?_
  cases found with
  | error e => exact Prog.keeps_fail _
  | ok user => exact Prog.keeps_pure _

theorem settles_createInvite (now : Time) (id : Id) (token : String) (u : Id) (ttl : Time) :
    (plain (createInviteProg now id token u ttl)).Settles Db.tables := by
  refine settles_then ?_ fun _ => Prog.keeps_bind (Prog.keeps_query SameView.refl _) fun found => ?_
  · exact settles_then (settles_stmt _) fun _ => Prog.keeps_pure _
  cases found with
  | none => exact Prog.keeps_fail _
  | some inv => exact Prog.keeps_pure _

theorem settles_purge (now : Time) (auditID : Id) (olderThan : Time) :
    (Command.purgeTombstones now auditID olderThan).op.Settles Db.tables := by
  apply settles_tx
  intro total
  unfold purgeLogged
  split
  · exact keeps_plain (appendAudit_tables _ _ _ _ _)
  · exact keeps_done _

theorem command_settles (c : Command) : c.op.Settles Db.tables := by
  cases c with
  | createItem now id owner inp => exact settles_createItemsBulkOp now [id] owner [inp]
  | createItemsBulk now ids owner ins => exact settles_createItemsBulkOp now ids owner ins
  | updateItem => exact settles_checked (settles_once _)
  | rotatePassword => exact settles_checked (settles_once _)
  | rotateRecovery now auditID u inp => exact settles_checked (settles_rotateRecovery now auditID u inp)
  | createFolder | updateFolder | fulfilGrant =>
    simp only [Command.op]
    split
    · exact settles_keeps (keeps_done _)
    · exact settles_once _
  | createCollection =>
    simp only [Command.op]
    split
    · exact settles_keeps (keeps_done _)
    · split
      · exact settles_keeps (keeps_done _)
      · exact settles_once _
  | fulfilGrantOrAdd =>
    simp only [Command.op]
    split
    · exact settles_keeps (keeps_done _)
    · split
      · exact settles_keeps (keeps_done _)
      · exact settles_once _
  | createPendingGrant now auditID c u role by_ =>
    simp only [Command.op]
    split
    · exact settles_keeps (keeps_done _)
    · exact settles_keeps (keeps_plain (createPendingGrantProg_tables now auditID c u role by_))
  | setUserStatus =>
    simp only [Command.op]
    split
    · exact settles_keeps (keeps_done _)
    · exact settles_once _
  | purgeTombstones now auditID olderThan => exact settles_purge now auditID olderThan
  | createPendingUser now id email name role =>
    simp only [Command.op]
    split
    · exact settles_keeps (keeps_done _)
    · split
      · exact settles_keeps (keeps_done _)
      · split
        · exact settles_keeps (keeps_done _)
        · exact settles_createPendingUser now id email _ _
  | createInvite now id token u ttl => exact settles_createInvite now id token u ttl
  | rotateSession now session refresh access' refresh' =>
    exact settles_rotateSession now session refresh access' refresh'
  | deleteItem | deleteFolder | removeMember | resetUser | deleteUser | completeEnrollment | completeRecovery =>
    exact settles_once _
  | deleteCollection | revokeSession | revokeSessionForUser =>
    exact settles_then (settles_stmt _) fun _ => keeps_require _ _
  | createSession | createRecoveryToken => exact settles_then (settles_stmt _) fun _ => Prog.keeps_pure _
  | touchSession => exact settles_stmt _

theorem mutation_settles (m : Mutation) : m.op.Settles Db.tables := by
  cases m with
  | command c => exact command_settles c
  | completeEnrollment => exact settles_checked (settles_found fun _ => settles_once _)
  | completeRecovery => exact settles_checked (settles_checked (settles_found fun _ => settles_once _))
  | rotateSession now => exact settles_found fun session => settles_rotateSession now session _ _ _
  | appendAudit => exact settles_keeps (keeps_plain (appendAudit_tables _ _ _ _ _))

theorem mutation_tables (m : Mutation) (lost : StoreError) (fault : Fault) (db : Db) :
    (m.op.run lost fault db).2.tables = db.tables ∨
      ∃ c : Command, (m.op.run lost fault db).2.tables = (c.run db).tables := by
  have hfree : (m.op.run lost none db).2.tables = db.tables ∨
      ∃ c : Command, (m.op.run lost none db).2.tables = (c.run db).tables := by
    cases m with
    | command c => exact Or.inr ⟨c, by rw [Mutation.op, run_op]⟩
    | completeEnrollment now token inp =>
      simp only [Mutation.op, checked, lookup]
      cases inp.validate with
      | error e => exact Or.inl rfl
      | ok _ =>
        simp only [run, Prog.query, Prog.autocommitAt, Fault.next_none]
        cases inviteByToken now token db with
        | error e => exact Or.inl rfl
        | ok invite => exact Or.inr ⟨.completeEnrollment now invite inp, by rw [← run_op lost]; rfl⟩
    | completeRecovery now auditID token password recovery =>
      simp only [Mutation.op, checked, lookup]
      cases password.validate with
      | error e => exact Or.inl rfl
      | ok _ =>
        simp only
        cases recovery.validate with
        | error e => exact Or.inl rfl
        | ok _ =>
          simp only [run, Prog.query, Prog.autocommitAt, Fault.next_none]
          cases recoveryTokenByToken now token db with
          | error e => exact Or.inl rfl
          | ok rt => exact Or.inr ⟨.completeRecovery now auditID rt password recovery, by rw [← run_op lost]; rfl⟩
    | rotateSession now refreshToken newAccess newRefresh =>
      simp only [Mutation.op, lookup, run, Prog.query, Prog.autocommitAt, Fault.next_none]
      cases sessionByRefreshToken now refreshToken db with
      | error e => exact Or.inl rfl
      | ok session =>
        exact Or.inr ⟨.rotateSession now session refreshToken newAccess newRefresh, by rw [← run_op lost]; rfl⟩
    | appendAudit =>
      exact Or.inl (run_keeps lost SameView.refl SameView.trans
        (keeps_plain (appendAudit_tables _ _ _ _ _)) none db)
  rcases mutation_settles m lost fault db with h | h
  · exact Or.inl h
  · rw [h]
    exact hfree

end

end Keyhole.Store
