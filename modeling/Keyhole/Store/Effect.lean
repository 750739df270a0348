import Keyhole.Store.Command

/-!
# What a command can do to the vault tables

One inversion lemma for all commands: whatever is proved of every run is
proved by the cases of `Effect`. A failed command and every command on
accounts and sessions is `still`.
-/

namespace Keyhole.Store
open Sql

/-- The membership a command writes, with the role it was asked for or the one the grant says. -/
def Command.Adds (db : Db) (m : Membership) : Command → Prop
  | fulfilGrantOrAdd _ _ collectionID userID _ role _ =>
    m.collectionID = collectionID ∧ m.userID = userID ∧ validRole role = some m.role
  | fulfilGrant _ _ collectionID userID _ _ => m.collectionID = collectionID ∧ m.userID = userID ∧
    ∃ grant, db.pendingGrants.get? (collectionID, userID) = some grant ∧ validRole grant.role = some m.role
  | _ => False

inductive Effect (db : Db) : Command → Vault → Prop
  | still (c : Command) : Effect db c db.toVault
  | created {c : Command} {v' : Vault} (new : List Item)
      (hv : v' = { db.toVault with items := v'.items, revisionSequence := v'.revisionSequence })
      (hm : ∀ x, x ∈ v'.items ↔ x ∈ db.items ∨ x ∈ new)
      (hn : ∀ x ∈ new, db.items.get? x.id = none ∧ x.id ∈ c.draws ∧ x.deletedAt = none ∧
        x.collectionID.all db.hasCollection = true ∧ db.revisionSequence < x.revision ∧
        x.revision ≤ v'.revisionSequence)
      (hs : db.revisionSequence ≤ v'.revisionSequence) (hk : c.createsItems = true) : Effect db c v'
  | itemUpdated {now : Time} {id : Id} {inp : ItemInput} (hv : inp.validate = .ok ()) (current : Item)
      (hg : db.items.get? id = some current)
      (hd : current.deletedAt = none) (hc : inp.collectionID.all db.hasCollection = true) :
      Effect db (.updateItem now id current.revision inp) { db.toVault with
        items := db.items.upsert (current.updated now (db.revisionSequence + 1) inp)
        revisionSequence := db.revisionSequence + 1 }
  | itemDeleted {now : Time} {id : Id} (current : Item) (hg : db.items.get? id = some current)
      (hd : current.deletedAt = none) : Effect db (.deleteItem now id) { db.toVault with
        items := db.items.upsert (current.deleted now (db.revisionSequence + 1))
        revisionSequence := db.revisionSequence + 1 }
  | folderCreated {now : Time} {id userID : Id} {name : String} (folder : Folder) {folders : Table Folder.id}
      (hi : db.folders.insert? folder = some folders) (hid : folder.id = id)
      (hr : folder.revision = db.revisionSequence + 1) (hd : folder.deletedAt = none) :
      Effect db (.createFolder now id userID name) { db.toVault with
        folders, revisionSequence := db.revisionSequence + 1 }
  | folderUpdated {now : Time} {id : Id} {name : String} (current : Folder)
      (hg : db.folders.get? id = some current) (hd : current.deletedAt = none) :
      Effect db (.updateFolder now id current.revision name) { db.toVault with
        folders := db.folders.upsert (current.renamed now (db.revisionSequence + 1) name)
        revisionSequence := db.revisionSequence + 1 }
  | folderDeleted {now : Time} {id : Id} (current : Folder) (hg : db.folders.get? id = some current)
      (hd : current.deletedAt = none) : Effect db (.deleteFolder now id) { db.toVault with
        folders := db.folders.upsert (current.deleted now (db.revisionSequence + 1))
        revisionSequence := db.revisionSequence + 1 }
  | collectionCreated {now : Time} {id auditID : Id} {name : String} {by_ : Id} {key : String} (row : Collection)
      (m : Membership) {collections : Table Collection.id} {memberships : Table Membership.key} (hid : row.id = id)
      (hc : db.collections.insert? row = some collections) (hmc : m.collectionID = id) (hmu : m.userID = by_)
      (hr : m.grantedRevision = db.revisionSequence + 1) (hm : db.memberships.insert? m = some memberships)
      (hrole : m.role = .manager) : Effect db (.createCollection now id auditID name by_ key) { db.toVault with
        collections, memberships, revisionSequence := db.revisionSequence + 1 }
  | collectionDeleted {id : Id} (h : db.hasCollection id = true) :
      Effect db (.deleteCollection id) (cascadeCollection id db).toVault
  | memberAdded {c : Command} (m : Membership) (hr : m.grantedRevision = db.revisionSequence + 1)
    (ha : c.Adds db m) :
      Effect db c { db.toVault with
        memberships := db.memberships.upsert m, revisionSequence := db.revisionSequence + 1 }
  | memberRemoved {now : Time} {auditID collectionID userID by_ : Id}
      (h : removable collectionID userID by_ db = true) :
      Effect db (.removeMember now auditID collectionID userID by_) { db.toVault with
        memberships := db.memberships.delete fun m => m.collectionID = collectionID && m.userID = userID }
  | reset {now : Time} {inviteID auditID : Id} {token : String} {userID actorID : Id} (u : User)
      (hu : db.users.get? userID = some u) (ha : actorID = "" ∨ db.hasUser actorID = true) :
      Effect db (.resetUser now inviteID auditID token userID actorID) { db.toVault with
        items := db.items.delete fun item => item.ownerUserID = userID && item.collectionID = none
        folders := db.folders.delete fun folder => folder.userID = userID
        memberships := db.memberships.delete fun m => m.userID = userID }
  | userDeleted {now : Time} {auditID userID actorID : Id} (h : deletable userID actorID db = true) :
      Effect db (.deleteUser now auditID userID actorID) (cascadeUser userID db).toVault
  | purged {now : Time} {auditID : Id} {olderThan : Time} :
      Effect db (.purgeTombstones now auditID olderThan) { db.toVault with
        items := db.items.delete fun item => expiredTombstone (stamp (now - olderThan)) item.deletedAt
        folders := db.folders.delete fun folder => expiredTombstone (stamp (now - olderThan)) folder.deletedAt }

/-! ## Programs that leave the vault alone -/

def VaultKept (a b : Db) : Prop := b.toVault = a.toVault

theorem VaultKept.refl (a : Db) : VaultKept a a := rfl

theorem VaultKept.trans (a b c : Db) (h : VaultKept a b) (h' : VaultKept b c) : VaultKept a c := Eq.trans h' h

/-- A statement on accounts that deletes no user, or an audit entry under one of `ids`. -/
inductive AccountWrite (ids : List Id) (db : Db) : Db → Prop
  | still : AccountWrite ids db db
  | accounts (a : Accounts) (hu : ∀ id, db.hasUser id = true → a.hasUser id = true) :
      AccountWrite ids db { db with toAccounts := a }
  | audited {row : AuditEntry} {auditLog : Table AuditEntry.id} (hi : db.auditLog.insert? row = some auditLog)
      (hid : row.id ∈ ids) : AccountWrite ids db { db with auditLog }

theorem AccountWrite.vault {ids : List Id} {a b : Db} (h : AccountWrite ids a b) : VaultKept a b := by
  cases h <;> rfl

theorem hasUser_of_rows {a a' : Accounts} (h : ∀ u ∈ a.users, ∃ u' ∈ a'.users, u'.id = u.id) (id : Id)
    (hid : a.hasUser id = true) : a'.hasUser id = true := by
  obtain ⟨u, hu, rfl⟩ := Table.get?_isSome.mp hid
  obtain ⟨u', hu', hid⟩ := h u hu
  exact Table.get?_isSome.mpr ⟨u', hu', hid⟩

section
variable {now : Time} {ids : List Id}
open Prog

theorem appendAudit_keeps {id : Id} (hid : id ∈ ids) (actor action target : String) (md : List (String × String)) :
    (appendAudit id now actor action target md).Keeps (AccountWrite ids) := by
  apply keeps_sql
  intro db u db' h
  obtain ⟨t, hi, -, rfl⟩ := insertAudit_ok h
  exact .audited hi hid

theorem updateUserRow_keeps (p : User → Bool) (f : User → User) (hf : ∀ u, (f u).id = u.id) :
    (write (updateUserRow p f hf)).Keeps (AccountWrite ids) := by
  apply keeps_write
  intro db
  refine .accounts { db.toAccounts with users := db.users.update p f hf } (hasUser_of_rows fun u hu => ?_)
  cases hp : p u with
  | true => exact ⟨f u, (@Table.mem_update _ _ _ db.users p f hf _).mpr (Or.inr ⟨u, hu, hp, rfl⟩), hf u⟩
  | false => exact ⟨u, (@Table.mem_update _ _ _ db.users p f hf _).mpr (Or.inl ⟨hu, hp⟩), rfl⟩

theorem revokeSessions_keeps (which : Session → Bool) :
    (write (revokeSessions now which)).Keeps (AccountWrite ids) :=
  keeps_write fun _ => .accounts _ fun _ h => h

theorem insertUser_keeps (row : User) :
    (sql classifyUserInsertError (insertUser row)).Keeps (AccountWrite ids) := by
  apply keeps_sql
  intro db u db' h
  obtain ⟨users, hi, rfl⟩ := insertUser_ok h
  refine .accounts { db.toAccounts with users } (hasUser_of_rows fun u hu => ?_)
  exact ⟨u, (Table.mem_insert? hi).mpr (Or.inl hu), rfl⟩

theorem createInviteTx_keeps (id : Id) (token : String) (userID : Id) (ttl : Time) :
    (createInviteTx now id token userID ttl).Keeps (AccountWrite ids) := by
  refine keeps_bind (keeps_sql ?_) fun _ => keeps_pure _
  intro db u db' h
  obtain ⟨t, -, -, -, rfl⟩ := insertInvite_ok h
  exact .accounts _ fun _ h => h

theorem createRecoveryTokenTx_keeps (id : Id) (token : String) (userID : Id) (ttl : Time) :
    (createRecoveryTokenTx now id token userID ttl).Keeps (AccountWrite ids) := by
  refine keeps_bind (keeps_sql ?_) fun _ => keeps_pure _
  intro db u db' h
  obtain ⟨t, -, -, -, rfl⟩ := insertRecoveryToken_ok h
  exact .accounts _ fun _ h => h

theorem createSessionTx_keeps (id : Id) (access refresh : String) (userID : Id) (label : String) :
    (createSessionTx now id access refresh userID label).Keeps (AccountWrite ids) := by
  refine keeps_bind (keeps_sql ?_) fun _ => keeps_pure _
  intro db u db' h
  obtain ⟨t, -, -, -, rfl⟩ := insertSession_ok h
  exact .accounts _ fun _ h => h

theorem completeEnrollmentTx_keeps (invite : Invite) (inp : EnrollmentInput) :
    (completeEnrollmentTx now invite inp).Keeps (AccountWrite ids) := by
  refine keeps_bind (keeps_write fun _ => .accounts _ fun _ h => h) fun _ =>
    keeps_bind (keeps_require _ _) fun _ => ?_
  refine keeps_bind (updateUserRow_keeps _ _ _) fun _ => keeps_bind (keeps_require _ _) fun _ => ?_
  refine keeps_bind (keeps_query (fun _ => .still) _) fun found => ?_
  cases found with
  | none => exact keeps_fail _
  | some user => exact keeps_pure _

theorem rotateSessionTx_keeps (session : Session) (refresh newAccess newRefresh : String) :
    (rotateSessionTx now session refresh newAccess newRefresh).Keeps (AccountWrite ids) := by
  refine keeps_bind (keeps_sql ?_) fun _ => keeps_bind (keeps_require _ _) fun _ => keeps_pure _
  intro db n db' h
  unfold rotateSessionRow at h
  simp only at h
  split at h
  · cases h
    exact .accounts _ fun _ h => h
  · cases h

theorem revokeSessionTx_keeps (which : Session → Bool) : (revokeSessionTx now which).Keeps (AccountWrite ids) :=
  keeps_bind (revokeSessions_keeps which) fun _ => keeps_require _ _

theorem writePasswordCredential_keeps (userID : Id) (inp : PasswordRotation) (keep : Id) :
    (writePasswordCredential now userID inp keep).Keeps (AccountWrite ids) := by
  refine keeps_bind (updateUserRow_keeps _ _ _) fun _ => keeps_bind (keeps_require _ _) fun _ => ?_
  exact keeps_bind (revokeSessions_keeps _) fun _ => keeps_pure _

theorem writeRecoveryCredential_keeps (userID : Id) (inp : RecoveryRotation) :
    (writeRecoveryCredential now userID inp).Keeps (AccountWrite ids) :=
  keeps_bind (updateUserRow_keeps _ _ _) fun _ => keeps_require _ _

theorem rotatePasswordTx_keeps {auditID : Id} (hid : auditID ∈ ids) (userID : Id) (inp : PasswordRotation)
    (keep : Id) :
    (rotatePasswordTx now auditID userID inp keep).Keeps (AccountWrite ids) :=
  keeps_bind (writePasswordCredential_keeps userID inp keep) fun _ => appendAudit_keeps hid _ _ _ _

theorem rotateRecoveryProg_keeps {auditID : Id} (hid : auditID ∈ ids) (userID : Id) (inp : RecoveryRotation) :
    (rotateRecoveryProg now auditID userID inp).Keeps (AccountWrite ids) :=
  keeps_bind (writeRecoveryCredential_keeps userID inp) fun _ => appendAudit_keeps hid _ _ _ _

theorem completeRecoveryTx_keeps {auditID : Id} (hid : auditID ∈ ids) (rt : RecoveryToken)
    (password : PasswordRotation) (recovery : RecoveryRotation) :
    (completeRecoveryTx now auditID rt password recovery).Keeps (AccountWrite ids) := by
  refine keeps_bind (keeps_write fun _ => .accounts _ fun _ h => h) fun _ =>
    keeps_bind (keeps_require _ _) fun _ => ?_
  refine keeps_bind (keeps_write fun _ => .accounts _ fun _ h => h) fun _ => ?_
  refine keeps_bind (writePasswordCredential_keeps _ _ _) fun _ => ?_
  exact keeps_bind (writeRecoveryCredential_keeps _ _) fun _ => appendAudit_keeps hid _ _ _ _

theorem notLastAdmin_keeps (userID : Id) : (notLastAdmin userID).Keeps (AccountWrite ids) := by
  refine keeps_bind (keeps_query (fun _ => .still) _) fun found => ?_
  cases found with
  | none => exact keeps_fail _
  | some user => exact keeps_bind (keeps_query (fun _ => .still) _) fun _ => keeps_require _ _

theorem revokeSessionsOf_keeps (userID : Id) : (revokeSessionsOf now userID).Keeps (AccountWrite ids) :=
  keeps_bind (revokeSessions_keeps _) fun _ => keeps_pure _

theorem setUserStatusTx_keeps {auditID : Id} (hid : auditID ∈ ids) (userID : Id) (status : UserStatus)
    (text : String) (actorID : Id) :
    (setUserStatusTx now auditID userID status text actorID).Keeps (AccountWrite ids) := by
  refine keeps_bind ?_ fun _ => keeps_bind (updateUserRow_keeps _ _ _) fun _ => ?_
  · split
    · exact notLastAdmin_keeps userID
    · exact keeps_pure _
  · refine keeps_bind (keeps_require _ _) fun _ => keeps_bind ?_ fun _ => appendAudit_keeps hid _ _ _ _
    split
    · exact revokeSessionsOf_keeps userID
    · exact keeps_pure _

end

section
variable {db : Db} {α : Type} {p : Txn α}

theorem still_transact (ids : List Id) (c : Command) (h : p.Keeps (AccountWrite ids)) :
    Effect db c (p.transact db).2.toVault := by
  have hk : (p.transact db).2.toVault = db.toVault :=
    Prog.transact_keeps VaultKept.refl VaultKept.trans (h.mono fun _ _ => AccountWrite.vault) db
  rw [hk]
  exact .still c

theorem still_autocommit (ids : List Id) (c : Command) (h : p.Keeps (AccountWrite ids)) :
    Effect db c (p.autocommit db).2.toVault := by
  have hk : (p.autocommit db).2.toVault = db.toVault :=
    Prog.autocommit_keeps VaultKept.refl VaultKept.trans (h.mono fun _ _ => AccountWrite.vault) db
  rw [hk]
  exact .still c

end

section
variable {db : Db} {α : Type} {x : Except StoreError α × Db}

/-- What holds of the database an operation finds and of every one it succeeds with holds of the one it leaves. -/
theorem left_of_outcome {P : Db → Prop} (hstill : P db) (herr : ∀ e db', x = (.error e, db') → db' = db)
    (hok : ∀ a db', x = (.ok a, db') → P db') : P x.2 := by
  obtain ⟨r, db'⟩ := x
  cases r with
  | error e =>
    rw [herr e db' rfl]
    exact hstill
  | ok a => exact hok a db' rfl

theorem effect_of_outcome {c : Command} (herr : ∀ e db', x = (.error e, db') → db' = db)
    (hok : ∀ a db', x = (.ok a, db') → Effect db c db'.toVault) : Effect db c x.2.toVault :=
  left_of_outcome (P := fun s => Effect db c s.toVault) (.still c) herr hok

end

/-! ## Every command -/

theorem createItemsBulk_effect {c : Command} {now : Time} {ids : List Id} {owner : Id} {ins : List ItemInput}
    {db : Db} (hd : ∀ id ∈ ids, id ∈ c.draws) (hk : c.createsItems = true) :
    Effect db c (createItemsBulk now ids owner ins db).2.toVault := by
  refine effect_of_outcome (fun _ _ => createItemsBulk_error) fun items db' h => ?_
  obtain ⟨t, rfl, -, rfl, hm, hx⟩ := insertItems_ok (createItemsBulk_ok h).2
  refine .created (createdItems now owner db.revisionSequence ids ins) rfl hm ?_ (by simp only; omega) hk
  intro x hx'
  obtain ⟨id, hid, inp, -, r, hr, hr', rfl⟩ := mem_createdItems hx'
  obtain ⟨hn, -, hc⟩ := hx _ hx'
  exact ⟨hn, hd id hid, rfl, hc, hr, hr'⟩

theorem createItem_vault (now : Time) (id owner : Id) (inp : ItemInput) (db : Db) :
    (createItem now id owner inp db).2 = (createItemsBulk now [id] owner [inp] db).2 := by
  unfold createItem
  split <;> rename_i h <;> rw [h]

theorem createItem_effect (now : Time) (id owner : Id) (inp : ItemInput) (db : Db) :
    Effect db (.createItem now id owner inp) (createItem now id owner inp db).2.toVault := by
  rw [createItem_vault]
  exact createItemsBulk_effect (by simp [Command.draws]) rfl

theorem updateItem_effect (now : Time) (id : Id) (expected : Int) (inp : ItemInput) (db : Db) :
    Effect db (.updateItem now id expected inp) (updateItem now id expected inp db).2.toVault := by
  refine effect_of_outcome (fun _ _ => updateItem_error) fun item db' h => ?_
  obtain ⟨current, hg, hd, rfl, hc, rfl, rfl⟩ := updateItemTx_ok (updateItem_ok h).2
  exact .itemUpdated (updateItem_ok h).1 current hg hd hc

theorem deleteItem_effect (now : Time) (id : Id) (db : Db) :
    Effect db (.deleteItem now id) (deleteItem now id db).2.toVault := by
  refine effect_of_outcome (fun _ _ => deleteItem_error) fun item db' h => ?_
  obtain ⟨current, hg, hd, rfl, rfl⟩ := deleteItemTx_ok (deleteItem_ok h)
  exact .itemDeleted current hg hd

theorem createFolder_effect (now : Time) (id userID : Id) (name : String) (db : Db) :
    Effect db (.createFolder now id userID name) (createFolder now id userID name db).2.toVault := by
  refine effect_of_outcome (fun _ _ => createFolder_error) fun folder db' h => ?_
  obtain ⟨folders, hi, hid, -, -, hr, hd, -, rfl⟩ := createFolder_ok h
  exact .folderCreated folder hi hid hr hd

theorem updateFolder_effect (now : Time) (id : Id) (expected : Int) (name : String) (db : Db) :
    Effect db (.updateFolder now id expected name) (updateFolder now id expected name db).2.toVault := by
  refine effect_of_outcome (fun _ _ => updateFolder_error) fun folder db' h => ?_
  obtain ⟨current, hg, hd, rfl, rfl, rfl⟩ := updateFolderTx_ok (updateFolder_ok h)
  exact .folderUpdated current hg hd

theorem deleteFolder_effect (now : Time) (id : Id) (db : Db) :
    Effect db (.deleteFolder now id) (deleteFolder now id db).2.toVault := by
  refine effect_of_outcome (fun _ _ => deleteFolder_error) fun folder db' h => ?_
  obtain ⟨current, hg, hd, rfl, rfl⟩ := deleteFolderTx_ok (deleteFolder_ok h)
  exact .folderDeleted current hg hd

theorem createCollection_effect (now : Time) (id auditID : Id) (name : String) (by_ : Id) (key : String) (db : Db) :
    Effect db (.createCollection now id auditID name by_ key)
      (createCollection now id auditID name by_ key db).2.toVault := by
  refine effect_of_outcome (fun _ _ => createCollection_error) fun row db' h => ?_
  obtain ⟨row, m, cs, ms, a, hid, hc, hmc, hmu, hr, hm, hrole, rfl⟩ := createCollection_ok h
  exact .collectionCreated row m hid hc hmc hmu hr hm hrole

theorem deleteCollection_effect (id : Id) (db : Db) :
    Effect db (.deleteCollection id) (deleteCollection id db).2.toVault := by
  rw [deleteCollection_eq]
  split
  · rename_i h
    exact .collectionDeleted h
  · exact .still _

theorem fulfilGrantOrAdd_effect (now : Time) (auditID c u : Id) (key role : String) (by_ : Id) (db : Db) :
    Effect db (.fulfilGrantOrAdd now auditID c u key role by_)
      (fulfilGrantOrAdd now auditID c u key role by_ db).2.toVault := by
  refine effect_of_outcome (fun _ _ => fulfilGrantOrAdd_error) fun _ db' h => ?_
  obtain ⟨m, a, hc, hu, hrole, hr, rfl⟩ := fulfilGrantOrAdd_ok h
  exact .memberAdded m hr ⟨hc, hu, hrole⟩

theorem removeMember_effect (now : Time) (auditID c u by_ : Id) (db : Db) :
    Effect db (.removeMember now auditID c u by_) (removeMember now auditID c u by_ db).2.toVault := by
  refine effect_of_outcome (fun _ _ => removeMember_error) fun _ db' h => ?_
  obtain ⟨hr, a, rfl⟩ := removeMember_ok h
  exact .memberRemoved hr

theorem createPendingGrant_effect (now : Time) (auditID c u role by_ : Id) (db : Db) :
    Effect db (.createPendingGrant now auditID c u role by_)
      (createPendingGrant now auditID c u role by_ db).2.toVault := by
  obtain ⟨g, a, h⟩ := createPendingGrant_frame now auditID c u role by_ db
  rw [h]
  exact .still _

theorem fulfilGrant_effect (now : Time) (auditID c u : Id) (key : String) (by_ : Id) (db : Db) :
    Effect db (.fulfilGrant now auditID c u key by_) (fulfilGrant now auditID c u key by_ db).2.toVault := by
  refine effect_of_outcome (fun _ _ => fulfilGrant_error) fun _ db' h => ?_
  obtain ⟨m, a, g, grant, hc, hu, hg, hrole, hr, rfl⟩ := fulfilGrant_ok h
  exact .memberAdded m hr ⟨hc, hu, grant, hg, hrole⟩

theorem setUserStatus_effect (now : Time) (auditID u : Id) (status : String) (actor : Id) (db : Db) :
    Effect db (.setUserStatus now auditID u status actor)
      (setUserStatus now auditID u status actor db).2.toVault := by
  unfold setUserStatus
  split
  · exact .still _
  · exact still_transact [auditID] _ (setUserStatusTx_keeps (List.mem_singleton_self auditID) _ _ _ _)

theorem resetUser_effect (now : Time) (inviteID auditID : Id) (token : String) (u actor : Id) (db : Db) :
    Effect db (.resetUser now inviteID auditID token u actor)
      (resetUser now inviteID auditID token u actor db).2.toVault := by
  unfold resetUser
  cases h : (resetUserTx now inviteID auditID token u actor).exec db with
  | error e => rw [Prog.transact_of_error h]; exact .still _
  | ok r =>
    rw [Prog.transact_of_exec h]
    obtain ⟨-, user, i, a, hu, -, -, ha, hdb⟩ := resetUserTx_ok h
    rw [hdb]
    exact .reset user hu ha

theorem deleteUser_effect (now : Time) (auditID u actor : Id) (db : Db) :
    Effect db (.deleteUser now auditID u actor) (deleteUser now auditID u actor db).2.toVault := by
  unfold deleteUser
  cases h : (deleteUserTx now auditID u actor).exec db with
  | error e => rw [Prog.transact_of_error h]; exact .still _
  | ok r =>
    rw [Prog.transact_of_exec h]
    obtain ⟨a, hr, hdb⟩ := deleteUserTx_ok h
    rw [hdb]
    exact .userDeleted hr

theorem purgeTombstones_effect (now : Time) (auditID : Id) (olderThan : Time) (db : Db) :
    Effect db (.purgeTombstones now auditID olderThan) (purgeTombstones now auditID olderThan db).2.toVault := by
  obtain ⟨a, h⟩ := purgeTombstones_vault now auditID olderThan db
  rw [h]
  exact .purged

theorem createPendingUser_effect (now : Time) (id : Id) (email name role : String) (db : Db) :
    Effect db (.createPendingUser now id email name role)
      (createPendingUser now id email name role db).2.toVault := by
  unfold createPendingUser
  split
  · exact .still _
  · split
    · exact .still _
    · split
      · exact .still _
      · exact still_autocommit [] _ (Prog.keeps_bind (insertUser_keeps _) fun _ => Prog.keeps_pure _)

theorem rotatePassword_effect (now : Time) (auditID u : Id) (inp : PasswordRotation) (keep : Id) (db : Db) :
    Effect db (.rotatePassword now auditID u inp keep) (rotatePassword now auditID u inp keep db).2.toVault := by
  unfold rotatePassword
  split
  · exact .still _
  · exact still_transact [auditID] _ (rotatePasswordTx_keeps (List.mem_singleton_self auditID) u inp keep)

theorem rotateRecovery_effect (now : Time) (auditID u : Id) (inp : RecoveryRotation) (db : Db) :
    Effect db (.rotateRecovery now auditID u inp) (rotateRecovery now auditID u inp db).2.toVault := by
  unfold rotateRecovery
  split
  · exact .still _
  · exact still_autocommit [auditID] _ (rotateRecoveryProg_keeps (List.mem_singleton_self auditID) u inp)

theorem command_effect (c : Command) (db : Db) : Effect db c (c.run db).toVault := by
  cases c with
  | createItem now id owner inp => exact createItem_effect now id owner inp db
  | createItemsBulk now ids owner ins => exact createItemsBulk_effect (by simp [Command.draws]) rfl
  | updateItem now id expected inp => exact updateItem_effect now id expected inp db
  | deleteItem now id => exact deleteItem_effect now id db
  | createFolder now id userID name => exact createFolder_effect now id userID name db
  | updateFolder now id expected name => exact updateFolder_effect now id expected name db
  | deleteFolder now id => exact deleteFolder_effect now id db
  | createCollection now id auditID name by_ key => exact createCollection_effect now id auditID name by_ key db
  | deleteCollection id => exact deleteCollection_effect id db
  | fulfilGrantOrAdd now auditID c u key role by_ => exact fulfilGrantOrAdd_effect now auditID c u key role by_ db
  | removeMember now auditID c u by_ => exact removeMember_effect now auditID c u by_ db
  | createPendingGrant now auditID c u role by_ => exact createPendingGrant_effect now auditID c u role by_ db
  | fulfilGrant now auditID c u key by_ => exact fulfilGrant_effect now auditID c u key by_ db
  | setUserStatus now auditID u status actor => exact setUserStatus_effect now auditID u status actor db
  | resetUser now inviteID auditID token u actor => exact resetUser_effect now inviteID auditID token u actor db
  | deleteUser now auditID u actor => exact deleteUser_effect now auditID u actor db
  | purgeTombstones now auditID olderThan => exact purgeTombstones_effect now auditID olderThan db
  | createPendingUser now id email name role => exact createPendingUser_effect now id email name role db
  | createInvite now id token u ttl => exact still_autocommit [] _ (createInviteTx_keeps id token u ttl)
  | completeEnrollment now invite inp => exact still_transact [] _ (completeEnrollmentTx_keeps invite inp)
  | createSession now id access refresh u label =>
    exact still_autocommit [] _ (createSessionTx_keeps id access refresh u label)
  | rotateSession now session refresh access' refresh' =>
    exact still_autocommit [] _ (rotateSessionTx_keeps session refresh access' refresh')
  | touchSession now id => exact .still _
  | revokeSession now id => exact still_autocommit [] _ (revokeSessionTx_keeps _)
  | revokeSessionForUser now id u => exact still_autocommit [] _ (revokeSessionTx_keeps _)
  | rotatePassword now auditID u inp keep => exact rotatePassword_effect now auditID u inp keep db
  | rotateRecovery now auditID u inp => exact rotateRecovery_effect now auditID u inp db
  | createRecoveryToken now id token u ttl =>
    exact still_autocommit [] _ (createRecoveryTokenTx_keeps id token u ttl)
  | completeRecovery now auditID rt password recovery =>
    exact still_transact [auditID] _
      (completeRecoveryTx_keeps (List.mem_singleton_self auditID) rt password recovery)

end Keyhole.Store
