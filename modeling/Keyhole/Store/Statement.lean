import Keyhole.Store.Operation

/-!
# What one statement can do

The inversion lemma under every operation: the rows a statement writes and
those it takes away, with the foreign keys it checked and the ids it used.
What every statement keeps is kept by a run of them under any faults.
-/

namespace Keyhole.Store
open Sql Operation

/-- One statement of an operation that draws `ids`. -/
inductive Statement (ids : List Id) (db : Db) : Db → Prop
  | account {db' : Db} (h : AccountWrite ids db db') : Statement ids db db'
  | counted : Statement ids db { db with revisionSequence := db.revisionSequence + 1 }
  | rows (items : Table Item.id) (folders : Table Folder.id) : Statement ids db { db with items, folders }
  | collected {row : Collection} {collections : Table Collection.id}
      (hi : db.collections.insert? row = some collections) : Statement ids db { db with collections }
  | joined (memberships : Table Membership.key)
      (hm : ∀ m ∈ memberships, m ∈ db.memberships ∨ refersTo db m.collectionID m.userID m.grantedBy = true) :
      Statement ids db { db with memberships }
  | requested (g : PendingGrant) (hr : (validRole g.role).isSome = true)
      (hg : refersTo db g.collectionID g.userID g.requestedBy = true) :
      Statement ids db { db with pendingGrants := db.pendingGrants.upsert g }
  | settled (p : PendingGrant → Bool) : Statement ids db { db with pendingGrants := db.pendingGrants.delete p }
  | uncollected (id : Id) : Statement ids db (cascadeCollection id db)
  | departed (userID : Id) (hr : userReferenced userID (cascadeUser userID db) = false) :
      Statement ids db (cascadeUser userID db)

section
open Prog

variable {now : Time} {ids : List Id}

theorem Statement.still (db : Db) : Statement ids db db := .account .still

theorem keeps_account {α : Type} {p : Txn α} (h : p.Keeps (AccountWrite ids)) : p.Keeps (Statement ids) :=
  h.mono fun _ _ => .account

theorem nextRevision_keeps : nextRevision.Keeps (Statement ids) :=
  keeps_bind (keeps_write fun _ => .counted) fun _ => keeps_query Statement.still _

theorem audit_keeps {id : Id} (hid : id ∈ ids) (actor action target : String) (md : List (String × String)) :
    (appendAudit id now actor action target md).Keeps (Statement ids) :=
  keeps_account (appendAudit_keeps hid actor action target md)

theorem insertItems_keeps (owner : Id) (itemIDs : List Id) (ins : List ItemInput) :
    (insertItems now owner itemIDs ins).Keeps (Statement ids) := by
  induction ins generalizing itemIDs with
  | nil => cases itemIDs <;> exact keeps_pure _
  | cons inp ins ih =>
    cases itemIDs with
    | nil => exact keeps_fail _
    | cons id itemIDs =>
      refine keeps_bind nextRevision_keeps fun n => keeps_bind (keeps_sql ?_) fun _ => ?_
      · intro db u db' h
        obtain ⟨t, -, -, -, rfl⟩ := insertItem_ok h
        exact .rows t db.folders
      · exact keeps_bind (ih itemIDs) fun _ => keeps_pure _

theorem updateItemTx_keeps (id : Id) (expected : Int) (inp : ItemInput) :
    (updateItemTx now id expected inp).Keeps (Statement ids) := by
  refine keeps_bind nextRevision_keeps fun n => keeps_bind (keeps_query Statement.still _) fun found => ?_
  cases found with
  | none => exact keeps_fail _
  | some current =>
    refine keeps_bind (keeps_require _ _) fun _ => keeps_bind (keeps_require _ _) fun _ => ?_
    refine keeps_bind (keeps_sql ?_) fun _ => keeps_bind (keeps_require _ _) fun _ => keeps_pure _
    intro db k db' h
    unfold updateItemRow at h
    simp only at h
    split at h
    · cases h
      exact .rows _ db.folders
    · cases h

theorem deleteItemTx_keeps (id : Id) : (deleteItemTx now id).Keeps (Statement ids) := by
  refine keeps_bind nextRevision_keeps fun n => keeps_bind (keeps_query Statement.still _) fun found => ?_
  cases found with
  | none => exact keeps_fail _
  | some current =>
    refine keeps_bind (keeps_require _ _) fun _ => keeps_bind (keeps_write fun db => .rows _ db.folders) fun _ => ?_
    exact keeps_bind (keeps_require _ _) fun _ => keeps_pure _

theorem createFolderTx_keeps (id userID : Id) (name : String) :
    (createFolderTx now id userID name).Keeps (Statement ids) := by
  refine keeps_bind nextRevision_keeps fun n => keeps_bind (keeps_sql ?_) fun _ => keeps_pure _
  intro db u db' h
  obtain ⟨t, -, -, rfl⟩ := insertFolder_ok h
  exact .rows db.items t

theorem updateFolderTx_keeps (id : Id) (expected : Int) (name : String) :
    (updateFolderTx now id expected name).Keeps (Statement ids) := by
  refine keeps_bind nextRevision_keeps fun n => keeps_bind (keeps_query Statement.still _) fun found => ?_
  cases found with
  | none => exact keeps_fail _
  | some current =>
    refine keeps_bind (keeps_require _ _) fun _ => keeps_bind (keeps_require _ _) fun _ => ?_
    refine keeps_bind (keeps_write fun db => .rows db.items _) fun _ => ?_
    exact keeps_bind (keeps_require _ _) fun _ => keeps_pure _

theorem deleteFolderTx_keeps (id : Id) : (deleteFolderTx now id).Keeps (Statement ids) := by
  refine keeps_bind nextRevision_keeps fun n => keeps_bind (keeps_query Statement.still _) fun found => ?_
  cases found with
  | none => exact keeps_fail _
  | some current =>
    refine keeps_bind (keeps_require _ _) fun _ => keeps_bind (keeps_write fun db => .rows db.items _) fun _ => ?_
    exact keeps_bind (keeps_require _ _) fun _ => keeps_pure _

theorem createCollectionTx_keeps {auditID : Id} (hid : auditID ∈ ids) (id : Id) (name : String) (by_ : Id)
    (key : String) : (createCollectionTx now id auditID name by_ key).Keeps (Statement ids) := by
  refine keeps_bind (keeps_sql ?_) fun _ => keeps_bind nextRevision_keeps fun n => ?_
  · intro db u db' h
    obtain ⟨t, hi, -, rfl⟩ := insertCollection_ok h
    exact .collected hi
  · refine keeps_bind (keeps_sql ?_) fun _ => keeps_bind (audit_keeps hid _ _ _ _) fun _ => keeps_pure _
    intro db u db' h
    obtain ⟨t, hi, hr, rfl⟩ := insertMembership_ok h
    refine .joined t fun m hm => ?_
    rcases (Table.mem_insert? hi).mp hm with hm | rfl
    · exact Or.inl hm
    · exact Or.inr hr

theorem addMemberTx_keeps {auditID : Id} (hid : auditID ∈ ids) (c u : Id) (key : String) (role : MemberRole)
    (by_ : Id) : (addMemberTx now auditID c u key role by_).Keeps (Statement ids) := by
  refine keeps_bind nextRevision_keeps fun n => keeps_bind (keeps_sql ?_) fun _ => audit_keeps hid _ _ _ _
  intro db r db' h
  unfold upsertMembership at h
  split at h
  · rename_i hr
    cases h
    refine .joined _ fun m hm => ?_
    rcases Table.mem_upsert.mp hm with ⟨hm, -⟩ | rfl
    · exact Or.inl hm
    · exact Or.inr hr
  · cases h

theorem deleteMemberships_keeps (p : Membership → Bool) :
    (write fun db => ((), { db with memberships := db.memberships.delete p })).Keeps (Statement ids) :=
  keeps_write fun _ => .joined _ fun _ hm => Or.inl (Table.mem_delete.mp hm).1

theorem removeMemberTx_keeps {auditID : Id} (hid : auditID ∈ ids) (c u by_ : Id) :
    (removeMemberTx now auditID c u by_).Keeps (Statement ids) := by
  refine keeps_bind (keeps_query Statement.still _) fun found => ?_
  cases found with
  | none => exact keeps_fail _
  | some m =>
    refine keeps_bind (keeps_query Statement.still _) fun _ => keeps_bind (keeps_require _ _) fun _ => ?_
    exact keeps_bind (deleteMemberships_keeps _) fun _ => audit_keeps hid _ _ _ _

theorem createPendingGrantProg_keeps {auditID role : Id} (hid : auditID ∈ ids) (hr : (validRole role).isSome = true)
    (c u by_ : Id) : (createPendingGrantProg now auditID c u role by_).Keeps (Statement ids) := by
  refine keeps_bind (keeps_sql ?_) fun _ => audit_keeps hid _ _ _ _
  intro db r db' h
  unfold upsertPendingGrant at h
  split at h
  · rename_i hg
    cases h
    exact .requested _ hr hg
  · cases h

theorem fulfilGrantTx_keeps {auditID : Id} (hid : auditID ∈ ids) (c u : Id) (key : String) (by_ : Id) :
    (fulfilGrantTx now auditID c u key by_).Keeps (Statement ids) := by
  refine keeps_bind (keeps_query Statement.still _) fun found => ?_
  cases found with
  | none => exact keeps_fail _
  | some grant =>
    simp only
    split
    · exact keeps_fail _
    · exact keeps_bind (addMemberTx_keeps hid _ _ _ _ _) fun _ => keeps_write fun _ => .settled _

theorem deleteCollectionTx_keeps (id : Id) : (deleteCollectionTx id).Keeps (Statement ids) := by
  refine keeps_bind (keeps_write fun db => ?_) fun _ => keeps_require _ _
  unfold deleteCollectionRow
  split
  · exact .uncollected id
  · exact .still db

theorem resetUserTx_keeps {auditID : Id} (hid : auditID ∈ ids) (inviteID : Id) (token : String) (u actor : Id) :
    (resetUserTx now inviteID auditID token u actor).Keeps (Statement ids) := by
  refine keeps_bind (keeps_account (updateUserRow_keeps _ _ _)) fun _ => keeps_bind (keeps_require _ _) fun _ => ?_
  refine keeps_bind (keeps_write fun db => .rows _ db.folders) fun _ => ?_
  refine keeps_bind (keeps_write fun db => .rows db.items _) fun _ => ?_
  refine keeps_bind (deleteMemberships_keeps _) fun _ => keeps_bind (keeps_write fun _ => .settled _) fun _ => ?_
  refine keeps_bind (keeps_account (revokeSessionsOf_keeps u)) fun _ => ?_
  refine keeps_bind (keeps_account (createInviteTx_keeps _ _ _ _)) fun _ => ?_
  exact keeps_bind (audit_keeps hid _ _ _ _) fun _ => keeps_pure _

theorem deleteUserTx_keeps {auditID : Id} (hid : auditID ∈ ids) (u actor : Id) :
    (deleteUserTx now auditID u actor).Keeps (Statement ids) := by
  refine keeps_bind (keeps_account (notLastAdmin_keeps u)) fun _ => ?_
  refine keeps_bind (keeps_sql ?_) fun _ => audit_keeps hid _ _ _ _
  intro db r db' h
  unfold deleteUserRow at h
  split at h
  · cases h
  · rename_i hr
    cases h
    exact .departed u (by simpa using hr)

theorem purgeTombstonesTx_keeps (cutoff : Time) : (purgeTombstonesTx cutoff).Keeps (Statement ids) := by
  refine keeps_bind (keeps_write fun db => .rows _ db.folders) fun _ => ?_
  exact keeps_bind (keeps_write fun db => .rows db.items _) fun _ => keeps_pure _

theorem createPendingUserProg_keeps (id : Id) (email name : String) (role : UserRole) :
    (createPendingUserProg now id email name role).Keeps (AccountWrite ids) := by
  refine keeps_bind (insertUser_keeps _) fun _ => keeps_bind (keeps_query (fun _ => .still) _) fun found => ?_
  cases found with
  | error e => exact keeps_fail _
  | ok user => exact keeps_pure _

theorem createInviteProg_keeps (id : Id) (token : String) (u : Id) (ttl : Time) :
    (createInviteProg now id token u ttl).Keeps (AccountWrite ids) := by
  refine keeps_bind (createInviteTx_keeps _ _ _ _) fun _ =>
    keeps_bind (keeps_query (fun _ => .still) _) fun found => ?_
  cases found with
  | none => exact keeps_fail _
  | some inv => exact keeps_pure _

theorem touchSessionProg_keeps (id : Id) : (touchSessionProg now id).Keeps (AccountWrite ids) :=
  keeps_write fun _ => .accounts _ fun _ h => h

end

/-! ## Every operation -/

section
variable {R : Db → Db → Prop} {ids : List Id}

theorem keeps_checked {valid : Except StoreError Unit} {op : Op} (h : op.Keeps R) : (checked valid op).Keeps R := by
  cases valid with
  | error e => exact keeps_done _
  | ok _ => exact h

theorem keeps_lookup (hr : ∀ db, R db db) {β : Type} {find : Db → Except StoreError β} {k : β → Op}
    (h : ∀ b, (k b).Keeps R) : (lookup find k).Keeps R := by
  refine ⟨Prog.keeps_query hr _, ?_⟩
  intro found
  cases found with
  | error e => exact keeps_done _
  | ok b => exact h b

theorem createItemsBulkOp_keeps (now : Time) (itemIDs : List Id) (owner : Id) (ins : List ItemInput) :
    (createItemsBulkOp now itemIDs owner ins).Keeps (Statement ids) := by
  unfold createItemsBulkOp
  split
  · exact keeps_done _
  · exact keeps_checked (keeps_once (insertItems_keeps owner itemIDs ins))

theorem command_statements (c : Command) : c.op.Keeps (Statement c.draws) := by
  have hmem : ∀ {id : Id} {ids : List Id}, id ∈ id :: ids := List.mem_cons_self
  cases c with
  | createItem now id owner inp => exact createItemsBulkOp_keeps now [id] owner [inp]
  | createItemsBulk now itemIDs owner ins => exact createItemsBulkOp_keeps now itemIDs owner ins
  | updateItem => exact keeps_checked (keeps_once (updateItemTx_keeps _ _ _))
  | deleteItem => exact keeps_once (deleteItemTx_keeps _)
  | createFolder =>
    simp only [Command.op]
    split
    · exact keeps_done _
    · exact keeps_once (createFolderTx_keeps _ _ _)
  | updateFolder =>
    simp only [Command.op]
    split
    · exact keeps_done _
    · exact keeps_once (updateFolderTx_keeps _ _ _)
  | deleteFolder => exact keeps_once (deleteFolderTx_keeps _)
  | createCollection =>
    simp only [Command.op]
    split
    · exact keeps_done _
    · split
      · exact keeps_done _
      · exact keeps_once (createCollectionTx_keeps (List.mem_cons_of_mem _ hmem) _ _ _ _)
  | deleteCollection => exact keeps_plain (deleteCollectionTx_keeps _)
  | fulfilGrantOrAdd =>
    simp only [Command.op]
    split
    · exact keeps_done _
    · split
      · exact keeps_done _
      · exact keeps_once (addMemberTx_keeps hmem _ _ _ _ _)
  | removeMember => exact keeps_once (removeMemberTx_keeps hmem _ _ _)
  | createPendingGrant =>
    simp only [Command.op]
    split
    · exact keeps_done _
    · rename_i hr
      exact keeps_plain (createPendingGrantProg_keeps hmem (by rw [hr]; rfl) _ _ _)
  | fulfilGrant =>
    simp only [Command.op]
    split
    · exact keeps_done _
    · exact keeps_once (fulfilGrantTx_keeps hmem _ _ _ _)
  | setUserStatus =>
    simp only [Command.op]
    split
    · exact keeps_done _
    · exact keeps_once (keeps_account (setUserStatusTx_keeps hmem _ _ _ _))
  | resetUser => exact keeps_once (resetUserTx_keeps (List.mem_cons_of_mem _ hmem) _ _ _ _)
  | deleteUser => exact keeps_once (deleteUserTx_keeps hmem _ _)
  | purgeTombstones =>
    refine ⟨purgeTombstonesTx_keeps _, fun total => ?_⟩
    unfold purgeLogged
    split
    · exact keeps_plain (audit_keeps hmem _ _ _ _)
    · exact keeps_done _
  | createPendingUser =>
    simp only [Command.op]
    split
    · exact keeps_done _
    · split
      · exact keeps_done _
      · split
        · exact keeps_done _
        · exact keeps_plain (keeps_account (createPendingUserProg_keeps _ _ _ _))
  | createInvite => exact keeps_plain (keeps_account (createInviteProg_keeps _ _ _ _))
  | completeEnrollment => exact keeps_once (keeps_account (completeEnrollmentTx_keeps _ _))
  | createSession => exact keeps_plain (keeps_account (createSessionTx_keeps _ _ _ _ _))
  | rotateSession => exact keeps_plain (keeps_account (rotateSessionTx_keeps _ _ _ _))
  | touchSession => exact keeps_plain (keeps_account (touchSessionProg_keeps _))
  | revokeSession => exact keeps_plain (keeps_account (revokeSessionTx_keeps _))
  | revokeSessionForUser => exact keeps_plain (keeps_account (revokeSessionTx_keeps _))
  | rotatePassword => exact keeps_checked (keeps_once (keeps_account (rotatePasswordTx_keeps hmem _ _ _)))
  | rotateRecovery => exact keeps_checked (keeps_plain (keeps_account (rotateRecoveryProg_keeps hmem _ _)))
  | createRecoveryToken => exact keeps_plain (keeps_account (createRecoveryTokenTx_keeps _ _ _ _))
  | completeRecovery => exact keeps_once (keeps_account (completeRecoveryTx_keeps hmem _ _ _))

theorem mutation_statements (m : Mutation) : ∃ ids, m.op.Keeps (Statement ids) := by
  cases m with
  | command c => exact ⟨c.draws, command_statements c⟩
  | completeEnrollment =>
    refine ⟨[], keeps_checked (keeps_lookup Statement.still fun _ => ?_)⟩
    exact keeps_once (keeps_account (completeEnrollmentTx_keeps _ _))
  | completeRecovery now auditID =>
    refine ⟨[auditID], keeps_checked (keeps_checked (keeps_lookup Statement.still fun _ => ?_))⟩
    exact keeps_once (keeps_account (completeRecoveryTx_keeps (List.mem_singleton_self auditID) _ _ _))
  | rotateSession =>
    refine ⟨[], keeps_lookup Statement.still fun _ => ?_⟩
    exact keeps_plain (keeps_account (rotateSessionTx_keeps _ _ _ _))
  | appendAudit now id => exact ⟨[id], keeps_plain (audit_keeps (List.mem_singleton_self id) _ _ _ _)⟩

theorem command_keeps {c : Command} (h : ∀ a b, Statement c.draws a b → R a b) (hr : ∀ a, R a a)
    (ht : ∀ a b c, R a b → R b c → R a c) (db : Db) : R db (c.run db) := by
  rw [← run_op .notFound db c]
  exact run_keeps _ hr ht ((command_statements c).mono h) none db

end

end Keyhole.Store
