import Keyhole.Store.Effect

/-!
# What a command can do to accounts

The inversion lemma of `Effect` for the tables credentials live in. A mark
says what a commit did to somebody's credentials; it is what a history of
the server is made of.
-/

namespace Keyhole.Store
open Sql

inductive Mark
  | password (userID keep : Id)
  | recovery (userID : Id)
  | recovered (userID tokenID : Id)
  | reset (userID : Id)
  | disabled (userID : Id)
  | enrolled (userID inviteID : Id)
  | refreshed (sessionID : Id) (refreshToken : String)
  deriving DecidableEq, Repr

/-- The mark of a command that commits; a failed one leaves none. -/
def Command.mark (db : Db) : Command → Option Mark
  | rotatePassword now auditID u inp keep =>
    if (Store.rotatePassword now auditID u inp keep db).1.isOk then some (.password u keep) else none
  | rotateRecovery now _ u inp =>
    if inp.validate.isOk && ((writeRecoveryCredential now u inp).exec db).isOk then some (.recovery u) else none
  | completeRecovery now auditID rt password recovery =>
    if ((completeRecoveryTx now auditID rt password recovery).transact db).1.isOk then
      some (.recovered rt.userID rt.id)
    else none
  | resetUser now inviteID auditID token u actor =>
    if (Store.resetUser now inviteID auditID token u actor db).1.isOk then some (.reset u) else none
  | setUserStatus now auditID u status actor =>
    if (Store.setUserStatus now auditID u status actor db).1.isOk && parseStatus status = some .disabled then
      some (.disabled u)
    else none
  | completeEnrollment now invite inp =>
    if ((completeEnrollmentTx now invite inp).transact db).1.isOk then some (.enrolled invite.userID invite.id)
    else none
  | rotateSession now session refresh access' refresh' =>
    if ((rotateSessionTx now session refresh access' refresh').autocommit db).1.isOk then
      some (.refreshed session.id refresh)
    else none
  | _ => none

inductive AccountEffect (db : Db) : Command → Option Mark → Accounts → Prop
  | still (c : Command) : AccountEffect db c none db.toAccounts
  | userCreated {now : Time} {id : Id} {email name role : String} (row : User) {users : Table User.id}
      (hid : row.id = id) (hs : row.status = .pending) (hi : db.users.insert? row = some users)
      (hk : row.authHash = none)
      (hn : row.kdfParams = none ∧ row.recoveryKDFParams = none ∧ row.recoveryAuthHash = none) :
      AccountEffect db (.createPendingUser now id email name role) none { db.toAccounts with users }
  | inviteCreated {now : Time} {id : Id} {token : String} {userID : Id} {ttl : Time} {invites : Table Invite.id}
      (hi : db.invites.insert? (newInvite now id token userID ttl) = some invites) :
      AccountEffect db (.createInvite now id token userID ttl) none { db.toAccounts with invites }
  | enrolled {now : Time} {invite inv : Invite} {inp : EnrollmentInput} {u : User}
      (hi : db.invites.get? invite.id = some inv) (hused : inv.usedAt = none)
      (hu : db.users.get? invite.userID = some u) (hs : u.status = .pending) :
      AccountEffect db (.completeEnrollment now invite inp) (some (.enrolled invite.userID invite.id))
        { db.toAccounts with
          invites := db.invites.upsert (inv.spent now)
          users := db.users.upsert (u.enrolled now inp) }
  | sessionCreated {now : Time} {id : Id} {access refresh : String} {userID : Id} {label : String}
      {sessions : Table Session.id}
      (hi : db.sessions.insert? (newSession now id access refresh userID label) = some sessions) :
      AccountEffect db (.createSession now id access refresh userID label) none { db.toAccounts with sessions }
  | sessionRotated {now : Time} {session s : Session} {refresh newAccess newRefresh : String}
      (hs : db.sessions.get? session.id = some s) (hr : s.refreshHash = hashToken refresh)
      (hv : s.revokedAt = none) :
      AccountEffect db (.rotateSession now session refresh newAccess newRefresh)
        (some (.refreshed session.id refresh))
        { db.toAccounts with sessions := db.sessions.upsert (s.rotated now newAccess newRefresh) }
  | sessionTouched {now : Time} {id : Id} :
      AccountEffect db (.touchSession now id) none { db.toAccounts with
        sessions := db.sessions.update (fun s => s.id = id && s.revokedAt.isNone) (·.touched now) }
  | sessionsRevoked (c : Command) {now : Time} (which : Session → Bool) :
      AccountEffect db c none { db.toAccounts with
        sessions := db.sessions.update (fun s => which s && s.revokedAt.isNone) (·.revoked now) }
  | passwordRotated {now : Time} {auditID userID keep : Id} {inp : PasswordRotation} {u : User}
      (hu : db.users.get? userID = some u) (hs : u.status = .active) (hv : inp.validate = .ok ()) :
      AccountEffect db (.rotatePassword now auditID userID inp keep) (some (.password userID keep))
        { db.toAccounts with
          users := db.users.upsert (u.passwordRotated now inp)
          sessions := endOtherSessions now userID keep db.sessions }
  | recoveryRotated {now : Time} {auditID userID : Id} {inp : RecoveryRotation} {u : User}
      (hu : db.users.get? userID = some u) (hs : u.status = .active) (hv : inp.validate = .ok ()) :
      AccountEffect db (.rotateRecovery now auditID userID inp) (some (.recovery userID))
        { db.toAccounts with users := db.users.upsert (u.recoveryRotated now inp) }
  | tokenCreated {now : Time} {id : Id} {token : String} {userID : Id} {ttl : Time}
      {recoveryTokens : Table RecoveryToken.id}
      (hi : db.recoveryTokens.insert? (newRecoveryToken now id token userID ttl) = some recoveryTokens) :
      AccountEffect db (.createRecoveryToken now id token userID ttl) none { db.toAccounts with recoveryTokens }
  | recovered {now : Time} {auditID : Id} {rt t : RecoveryToken} {password : PasswordRotation}
      {recovery : RecoveryRotation} {u : User} (ht : db.recoveryTokens.get? rt.id = some t)
      (hused : t.usedAt = none)
      (hu : db.users.get? rt.userID = some u) (hs : u.status = .active) :
      AccountEffect db (.completeRecovery now auditID rt password recovery) (some (.recovered rt.userID rt.id))
        { db.toAccounts with
          recoveryTokens := retireTokens now rt.id rt.userID db.recoveryTokens
          users := db.users.upsert ((u.passwordRotated now password).recoveryRotated now recovery)
          sessions := endOtherSessions now rt.userID "" db.sessions }
  | enabled {now : Time} {auditID userID actorID : Id} {text : String} {u : User}
      (hu : db.users.get? userID = some u) (hp : parseStatus text = some .active) :
      AccountEffect db (.setUserStatus now auditID userID text actorID) none { db.toAccounts with
        users := db.users.upsert (u.withStatus now .active) }
  | disabled {now : Time} {auditID userID actorID : Id} {text : String} {u : User}
      (hu : db.users.get? userID = some u) (hadmin : u.role = .admin → remainingAdmins userID db ≠ 0) :
      AccountEffect db (.setUserStatus now auditID userID text actorID) (some (.disabled userID))
        { db.toAccounts with
        users := db.users.upsert (u.withStatus now .disabled)
        sessions := endSessions now userID db.sessions }
  | reset {now : Time} {inviteID auditID : Id} {token : String} {userID actorID : Id} {u : User}
      {invites : Table Invite.id} (hu : db.users.get? userID = some u)
      (hi : db.invites.insert? (newInvite now inviteID token userID inviteTTL) = some invites) :
      AccountEffect db (.resetUser now inviteID auditID token userID actorID) (some (.reset userID))
        { db.toAccounts with
          users := db.users.upsert (u.reset now)
          sessions := endSessions now userID db.sessions
          invites }
  | userDeleted {now : Time} {auditID userID actorID : Id} (hd : deletable userID actorID db = true) :
      AccountEffect db (.deleteUser now auditID userID actorID) none (cascadeUser userID db).toAccounts

/-! ## Commands that leave accounts alone -/

def Command.onVault : Command → Bool
  | createItem .. | createItemsBulk .. | updateItem .. | deleteItem .. | createFolder .. | updateFolder ..
  | deleteFolder .. | createCollection .. | deleteCollection .. | fulfilGrantOrAdd .. | removeMember ..
  | createPendingGrant .. | fulfilGrant .. | purgeTombstones .. => true
  | _ => false

theorem accounts_of_outcome {db : Db} {α : Type} {x : Except StoreError α × Db}
    (herr : ∀ e db', x = (.error e, db') → db' = db)
    (hok : ∀ a db', x = (.ok a, db') → db'.toAccounts = db.toAccounts) : x.2.toAccounts = db.toAccounts :=
  left_of_outcome (P := fun s => s.toAccounts = db.toAccounts) rfl herr hok

theorem createItemsBulk_accounts (now : Time) (ids : List Id) (owner : Id) (ins : List ItemInput) (db : Db) :
    (createItemsBulk now ids owner ins db).2.toAccounts = db.toAccounts := by
  refine accounts_of_outcome (fun _ _ => createItemsBulk_error) fun items db' h => ?_
  obtain ⟨t, -, -, rfl, -⟩ := insertItems_ok (createItemsBulk_ok h).2
  rfl

theorem onVault_accounts {c : Command} (hc : c.onVault = true) (db : Db) :
    (c.run db).toAccounts = db.toAccounts := by
  cases c with
  | createItem now id owner inp =>
    simp only [Command.run]
    rw [createItem_vault]
    exact createItemsBulk_accounts now [id] owner [inp] db
  | createItemsBulk now ids owner ins => exact createItemsBulk_accounts now ids owner ins db
  | updateItem now id expected inp =>
    simp only [Command.run]
    refine accounts_of_outcome (fun _ _ => updateItem_error) fun item db' h => ?_
    obtain ⟨_, -, -, -, -, -, rfl⟩ := updateItemTx_ok (updateItem_ok h).2
    rfl
  | deleteItem now id =>
    simp only [Command.run]
    refine accounts_of_outcome (fun _ _ => deleteItem_error) fun item db' h => ?_
    obtain ⟨_, -, -, -, rfl⟩ := deleteItemTx_ok (deleteItem_ok h)
    rfl
  | createFolder now id userID name =>
    simp only [Command.run]
    refine accounts_of_outcome (fun _ _ => createFolder_error) fun folder db' h => ?_
    obtain ⟨_, -, -, -, -, -, -, -, rfl⟩ := createFolder_ok h
    rfl
  | updateFolder now id expected name =>
    simp only [Command.run]
    refine accounts_of_outcome (fun _ _ => updateFolder_error) fun folder db' h => ?_
    obtain ⟨_, -, -, -, -, rfl⟩ := updateFolderTx_ok (updateFolder_ok h)
    rfl
  | deleteFolder now id =>
    simp only [Command.run]
    refine accounts_of_outcome (fun _ _ => deleteFolder_error) fun folder db' h => ?_
    obtain ⟨_, -, -, -, rfl⟩ := deleteFolderTx_ok (deleteFolder_ok h)
    rfl
  | createCollection now id auditID name by_ key =>
    simp only [Command.run]
    refine accounts_of_outcome (fun _ _ => createCollection_error) fun row db' h => ?_
    obtain ⟨_, _, _, _, _, -, -, -, -, -, -, -, rfl⟩ := createCollection_ok h
    rfl
  | deleteCollection id =>
    simp only [Command.run]
    rw [deleteCollection_eq]
    split <;> rfl
  | fulfilGrantOrAdd now auditID c u key role by_ =>
    simp only [Command.run]
    refine accounts_of_outcome (fun _ _ => fulfilGrantOrAdd_error) fun _ db' h => ?_
    obtain ⟨_, _, -, -, -, -, rfl⟩ := fulfilGrantOrAdd_ok h
    rfl
  | removeMember now auditID c u by_ =>
    simp only [Command.run]
    refine accounts_of_outcome (fun _ _ => removeMember_error) fun _ db' h => ?_
    obtain ⟨-, _, rfl⟩ := removeMember_ok h
    rfl
  | createPendingGrant now auditID c u role by_ =>
    obtain ⟨g, a, h⟩ := createPendingGrant_frame now auditID c u role by_ db
    simp only [Command.run]
    rw [h]
  | fulfilGrant now auditID c u key by_ =>
    simp only [Command.run]
    refine accounts_of_outcome (fun _ _ => fulfilGrant_error) fun _ db' h => ?_
    obtain ⟨_, _, _, _, -, -, -, -, -, rfl⟩ := fulfilGrant_ok h
    rfl
  | purgeTombstones now auditID olderThan =>
    obtain ⟨a, h⟩ := purgeTombstones_vault now auditID olderThan db
    simp only [Command.run]
    rw [h]
  | _ => cases hc

theorem onVault_mark {c : Command} (hc : c.onVault = true) (db : Db) : c.mark db = none := by
  cases c <;> first | rfl | cases hc

/-! ## Every command -/

section
variable {db : Db} {now : Time}

theorem completeEnrollment_account (invite : Invite) (inp : EnrollmentInput) :
    AccountEffect db (.completeEnrollment now invite inp) (Command.mark db (.completeEnrollment now invite inp))
      (Command.run (.completeEnrollment now invite inp) db).toAccounts := by
  simp only [Command.mark, Command.run]
  rcases Prog.transact_cases (completeEnrollmentTx now invite inp) db with ⟨r, db', h, ht⟩ | ⟨e, ht⟩
  · rw [ht]
    obtain ⟨inv, u, hi, hused, hu, hs, rfl, rfl⟩ := completeEnrollmentTx_ok h
    exact .enrolled hi hused hu hs
  · rw [ht]
    exact .still _

theorem completeRecovery_account (auditID : Id) (rt : RecoveryToken) (password : PasswordRotation)
    (recovery : RecoveryRotation) :
    AccountEffect db (.completeRecovery now auditID rt password recovery)
      (Command.mark db (.completeRecovery now auditID rt password recovery))
      (Command.run (.completeRecovery now auditID rt password recovery) db).toAccounts := by
  simp only [Command.mark, Command.run]
  rcases Prog.transact_cases (completeRecoveryTx now auditID rt password recovery) db with
    ⟨r, db', h, ht⟩ | ⟨e, ht⟩
  · rw [ht]
    obtain ⟨t, u, a, hg, hused, hu, hs, rfl⟩ := completeRecoveryTx_ok h
    exact .recovered hg hused hu hs
  · rw [ht]
    exact .still _

theorem rotatePassword_account (auditID userID : Id) (inp : PasswordRotation) (keep : Id) :
    AccountEffect db (.rotatePassword now auditID userID inp keep)
      (Command.mark db (.rotatePassword now auditID userID inp keep))
      (Command.run (.rotatePassword now auditID userID inp keep) db).toAccounts := by
  simp only [Command.mark, Command.run]
  cases hv : inp.validate with
  | error e =>
    have h : rotatePassword now auditID userID inp keep db = (.error e, db) := by simp only [rotatePassword, hv]
    rw [h]
    exact .still _
  | ok u =>
    have h : rotatePassword now auditID userID inp keep db =
        (rotatePasswordTx now auditID userID inp keep).transact db := by
      simp only [rotatePassword, hv]
    rw [h]
    rcases Prog.transact_cases (rotatePasswordTx now auditID userID inp keep) db with ⟨r, db', hx, ht⟩ | ⟨e, ht⟩
    · rw [ht]
      obtain ⟨u, a, hu, hs, rfl⟩ := rotatePasswordTx_ok hx
      exact .passwordRotated hu hs hv
    · rw [ht]
      exact .still _

theorem resetUser_account (inviteID auditID : Id) (token : String) (userID actorID : Id) :
    AccountEffect db (.resetUser now inviteID auditID token userID actorID)
      (Command.mark db (.resetUser now inviteID auditID token userID actorID))
      (Command.run (.resetUser now inviteID auditID token userID actorID) db).toAccounts := by
  simp only [Command.mark, Command.run]
  rcases Prog.transact_cases (resetUserTx now inviteID auditID token userID actorID) db with
    ⟨r, db', h, ht⟩ | ⟨e, ht⟩
  · have h' : resetUser now inviteID auditID token userID actorID db = (.ok r, db') := ht
    rw [h']
    obtain ⟨-, u, invites, a, hu, hi, -, -, rfl⟩ := resetUserTx_ok h
    exact .reset hu hi
  · have h' : resetUser now inviteID auditID token userID actorID db = (.error e, db) := ht
    rw [h']
    exact .still _

theorem parseStatus_some {text : String} {status : UserStatus} (h : parseStatus text = some status) :
    status = .active ∨ status = .disabled := by
  unfold parseStatus at h
  split at h
  · cases h
    exact Or.inl rfl
  · split at h
    · cases h
      exact Or.inr rfl
    · cases h

theorem setUserStatus_account (auditID userID : Id) (text : String) (actorID : Id) :
    AccountEffect db (.setUserStatus now auditID userID text actorID)
      (Command.mark db (.setUserStatus now auditID userID text actorID))
      (Command.run (.setUserStatus now auditID userID text actorID) db).toAccounts := by
  simp only [Command.mark, Command.run]
  cases hp : parseStatus text with
  | none =>
    have h : setUserStatus now auditID userID text actorID db =
        (.error (.validation "status" "must be active or disabled"), db) := by simp only [setUserStatus, hp]
    rw [h]
    exact .still _
  | some status =>
    have h : setUserStatus now auditID userID text actorID db =
        (setUserStatusTx now auditID userID status text actorID).transact db := by simp only [setUserStatus, hp]
    rw [h]
    rcases Prog.transact_cases (setUserStatusTx now auditID userID status text actorID) db with
      ⟨r, db', hx, ht⟩ | ⟨e, ht⟩
    · rw [ht]
      obtain ⟨u, a, hu, hadmin, rfl⟩ := setUserStatusTx_ok hx
      rcases parseStatus_some hp with rfl | rfl
      · exact .enabled hu hp
      · exact .disabled hu (hadmin rfl)
    · rw [ht]
      exact .still _

theorem rotateRecovery_account (auditID userID : Id) (inp : RecoveryRotation) :
    AccountEffect db (.rotateRecovery now auditID userID inp)
      (Command.mark db (.rotateRecovery now auditID userID inp))
      (Command.run (.rotateRecovery now auditID userID inp) db).toAccounts := by
  simp only [Command.mark, Command.run]
  cases hv : inp.validate with
  | error e =>
    have h : rotateRecovery now auditID userID inp db = (.error e, db) := by simp only [rotateRecovery, hv]
    rw [h]
    exact .still _
  | ok u =>
    have h : rotateRecovery now auditID userID inp db =
      (rotateRecoveryProg now auditID userID inp).autocommit db := by
      simp only [rotateRecovery, hv]
    rw [h, rotateRecoveryProg, Prog.autocommit_bind]
    have hzero := updateUserRow_zero db (fun user => user.id = userID && user.status = .active)
      (fun user => user.recoveryRotated now inp) fun _ => rfl
    rcases guarded_cases (e := .notFound) hzero with ⟨hx, ha⟩ | ⟨hx, ha⟩
    · have hx' : (writeRecoveryCredential now userID inp).exec db = _ := hx
      have ha' : (writeRecoveryCredential now userID inp).autocommit db = _ := ha
      rw [hx', ha']
      obtain ⟨user, hu, hs, hdb⟩ := writeRecoveryCredential_ok hx'
      obtain ⟨t, ht⟩ := autocommit_appendAudit auditID now userID "account.recovery.rotate" ("user:" ++ userID) []
        (updateUserRow (fun user => user.id = userID && user.status = .active)
          (fun user => user.recoveryRotated now inp) (fun _ => rfl) db).2
      simp only [ht]
      rw [hdb]
      exact .recoveryRotated hu hs hv
    · have hx' : (writeRecoveryCredential now userID inp).exec db = _ := hx
      have ha' : (writeRecoveryCredential now userID inp).autocommit db = _ := ha
      rw [hx', ha']
      exact .still _

theorem rotateSessionRow_zero {session : Session} {refresh newAccess newRefresh : String} {db' : Db}
    (h : rotateSessionRow now session.id refresh newAccess newRefresh db = .ok (0, db')) : db' = db := by
  unfold rotateSessionRow at h
  simp only at h
  split at h
  · simp only [Except.ok.injEq, Prod.mk.injEq] at h
    obtain ⟨hn, rfl⟩ := h
    exact congrArg (fun sessions => { db with sessions }) (Table.update_of_count hn)
  · cases h

theorem rotateSession_cases (now : Time) (session : Session) (refresh newAccess newRefresh : String) (db : Db) :
    (∃ s', (rotateSessionTx now session refresh newAccess newRefresh).exec db =
        .ok (s', ((rotateSessionTx now session refresh newAccess newRefresh).autocommit db).2) ∧
      ((rotateSessionTx now session refresh newAccess newRefresh).autocommit db).1 = .ok s') ∨
    ∃ e, (rotateSessionTx now session refresh newAccess newRefresh).autocommit db = (.error e, db) := by
  cases h : (rotateSessionTx now session refresh newAccess newRefresh).autocommit db with
  | mk r db' =>
    cases r with
    | ok s' => exact Or.inl ⟨s', Prog.autocommit_ok.mp h, rfl⟩
    | error e =>
      right
      refine ⟨e, ?_⟩
      rw [rotateSessionTx, Prog.autocommit_bind] at h
      simp only [sql, Prog.autocommit] at h
      cases hr : rotateSessionRow now session.id refresh newAccess newRefresh db with
      | error e' =>
        simp only [hr] at h
        cases h
        rfl
      | ok r =>
        obtain ⟨n, db₁⟩ := r
        simp only [hr] at h
        rw [Prog.autocommit_bind] at h
        by_cases hn : n = 0
        · subst hn
          cases rotateSessionRow_zero hr
          simp [require, Prog.autocommit] at h
          rw [h.2]
        · simp [require, Prog.autocommit, hn, pure] at h

theorem rotateSession_account (session : Session) (refresh newAccess newRefresh : String) :
    AccountEffect db (.rotateSession now session refresh newAccess newRefresh)
      (Command.mark db (.rotateSession now session refresh newAccess newRefresh))
      (Command.run (.rotateSession now session refresh newAccess newRefresh) db).toAccounts := by
  simp only [Command.mark, Command.run]
  rcases rotateSession_cases now session refresh newAccess newRefresh db with ⟨s', hx, hr⟩ | ⟨e, h⟩
  · obtain ⟨s, hs, hh, hv, -, -, hdb⟩ := rotateSessionTx_ok hx
    rw [hr, hdb]
    exact .sessionRotated hs hh hv
  · rw [h]
    exact .still _

theorem createPendingUser_account (id : Id) (email name role : String) :
    AccountEffect db (.createPendingUser now id email name role) none
      (createPendingUser now id email name role db).2.toAccounts := by
  unfold createPendingUser
  split
  · exact .still _
  · rename_i role' hr
    split
    · exact .still _
    · split
      · exact .still _
      · simp only
        rcases insert_cases classifyUserInsertError
          (insertUser (pendingUser now id email (Go.trimSpace name) role')) _ db with ⟨db', h, ha⟩ | ⟨e, ha⟩
        · rw [ha]
          obtain ⟨users, hi, rfl⟩ := insertUser_ok h
          exact .userCreated _ rfl rfl hi rfl ⟨rfl, rfl, rfl⟩
        · rw [ha]
          exact .still _

theorem createInvite_account (id : Id) (token : String) (userID : Id) (ttl : Time) :
    AccountEffect db (.createInvite now id token userID ttl) none
      (createInvite now id token userID ttl db).2.toAccounts := by
  unfold createInvite createInviteTx
  rcases insert_cases (wrap "insert invite") (insertInvite (newInvite now id token userID ttl)) token db with
    ⟨db', h, ha⟩ | ⟨e, ha⟩
  · rw [ha]
    obtain ⟨invites, hi, -, -, rfl⟩ := insertInvite_ok h
    exact .inviteCreated hi
  · rw [ha]
    exact .still _

theorem createSession_account (id : Id) (access refresh : String) (userID : Id) (label : String) :
    AccountEffect db (.createSession now id access refresh userID label) none
      (createSession now id access refresh userID label db).2.toAccounts := by
  unfold createSession createSessionTx
  rcases insert_cases (wrap "insert session")
    (insertSession (newSession now id access refresh userID label)) _ db with
    ⟨db', h, ha⟩ | ⟨e, ha⟩
  · rw [ha]
    obtain ⟨sessions, hi, -, -, rfl⟩ := insertSession_ok h
    exact .sessionCreated hi
  · rw [ha]
    exact .still _

theorem createRecoveryToken_account (id : Id) (token : String) (userID : Id) (ttl : Time) :
    AccountEffect db (.createRecoveryToken now id token userID ttl) none
      (createRecoveryToken now id token userID ttl db).2.toAccounts := by
  unfold createRecoveryToken createRecoveryTokenTx
  rcases insert_cases (wrap "insert recovery token")
    (insertRecoveryToken (newRecoveryToken now id token userID ttl))
    token db with ⟨db', h, ha⟩ | ⟨e, ha⟩
  · rw [ha]
    obtain ⟨recoveryTokens, hi, -, -, rfl⟩ := insertRecoveryToken_ok h
    exact .tokenCreated hi
  · rw [ha]
    exact .still _

theorem deleteUser_account (auditID userID actorID : Id) :
    AccountEffect db (.deleteUser now auditID userID actorID) none
      (deleteUser now auditID userID actorID db).2.toAccounts := by
  rcases Prog.transact_cases (deleteUserTx now auditID userID actorID) db with ⟨r, db', h, ht⟩ | ⟨e, ht⟩
  · have h' : deleteUser now auditID userID actorID db = (.ok r, db') := ht
    rw [h']
    obtain ⟨a, hd, rfl⟩ := deleteUserTx_ok h
    exact .userDeleted hd
  · have h' : deleteUser now auditID userID actorID db = (.error e, db) := ht
    rw [h']
    exact .still _

theorem revokeSessionTx_account (c : Command) (which : Session → Bool) :
    AccountEffect db c none ((revokeSessionTx now which).autocommit db).2.toAccounts := by
  have hzero : (revokeSessions now which db).1 = 0 → (revokeSessions now which db).2 = db := by
    intro h
    exact congrArg (fun sessions => { db with sessions }) (Table.update_of_count h)
  rcases guarded_cases (e := .notFound) hzero with ⟨-, ha⟩ | ⟨-, ha⟩
  · have ha' : (revokeSessionTx now which).autocommit db = _ := ha
    rw [ha']
    exact .sessionsRevoked c which
  · have ha' : (revokeSessionTx now which).autocommit db = _ := ha
    rw [ha']
    exact .still c

theorem account_effect (c : Command) (db : Db) : AccountEffect db c (c.mark db) (c.run db).toAccounts := by
  by_cases hc : c.onVault = true
  · rw [onVault_accounts hc db, onVault_mark hc db]
    exact .still c
  · cases c with
    | createPendingUser now id email name role => exact createPendingUser_account id email name role
    | createInvite now id token userID ttl => exact createInvite_account id token userID ttl
    | completeEnrollment now invite inp => exact completeEnrollment_account invite inp
    | createSession now id access refresh userID label => exact createSession_account id access refresh userID label
    | rotateSession now session refresh access' refresh' =>
      exact rotateSession_account session refresh access' refresh'
    | touchSession now id => exact .sessionTouched
    | revokeSession now id => exact revokeSessionTx_account _ _
    | revokeSessionForUser now id userID => exact revokeSessionTx_account _ _
    | rotatePassword now auditID userID inp keep => exact rotatePassword_account auditID userID inp keep
    | rotateRecovery now auditID userID inp => exact rotateRecovery_account auditID userID inp
    | createRecoveryToken now id token userID ttl => exact createRecoveryToken_account id token userID ttl
    | completeRecovery now auditID rt password recovery =>
      exact completeRecovery_account auditID rt password recovery
    | setUserStatus now auditID userID status actor => exact setUserStatus_account auditID userID status actor
    | resetUser now inviteID auditID token userID actor =>
      exact resetUser_account inviteID auditID token userID actor
    | deleteUser now auditID userID actor => exact deleteUser_account auditID userID actor
    | _ => exact absurd rfl hc

end

end Keyhole.Store
