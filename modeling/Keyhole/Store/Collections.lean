import Mathlib.Data.List.Sort
import Keyhole.Go
import Keyhole.Store.Items

/-!
# Collections and their members

A membership carries `grantedRevision`, drawn from the sequence items draw
from. `DeleteCollection` cascades to the memberships, the pending grants and
the items of the collection, and draws nothing.
-/

namespace Keyhole.Store
open Sql

structure CollectionWithMembership extends Collection where
  role : MemberRole
  sealedCollectionKey : String
  grantedAt : Time
  deriving DecidableEq, Repr

def MemberRole.text : MemberRole → String
  | .member => "member"
  | .manager => "manager"

def validRole (role : String) : Option MemberRole :=
  if role = "member" then some .member
  else if role = "manager" then some .manager
  else none

def collectionByID (id : Id) (db : Db) : Except StoreError Collection :=
  match db.collections.get? id with
  | some collection => .ok collection
  | none => .error .notFound

def membershipFor (collectionID userID : Id) (db : Db) : Except StoreError Membership :=
  match db.memberships.get? (collectionID, userID) with
  | some m => .ok m
  | none => .error .notFound

def Vault.isMember (v : Vault) (userID collectionID : Id) : Bool :=
  v.memberships.any fun m => m.collectionID = collectionID && m.userID = userID

/-! ## Statements -/

def insertCollection (row : Collection) (db : Db) : Except SqlError (Unit × Db) :=
  match db.collections.insert? row with
  | none => .error .primaryKey
  | some collections => if db.hasUser row.createdBy then .ok ((), { db with collections }) else .error .foreignKey

def refersTo (db : Db) (collectionID userID by_ : Id) : Bool :=
  db.hasCollection collectionID && db.hasUser userID && db.hasUser by_

def insertMembership (row : Membership) (db : Db) : Except SqlError (Unit × Db) :=
  match db.memberships.insert? row with
  | none => .error .primaryKey
  | some memberships =>
    if refersTo db row.collectionID row.userID row.grantedBy then .ok ((), { db with memberships })
    else .error .foreignKey

/-- `INSERT … ON CONFLICT (collection_id, user_id) DO UPDATE`. -/
def upsertMembership (row : Membership) (db : Db) : Except SqlError (Unit × Db) :=
  if refersTo db row.collectionID row.userID row.grantedBy then
    .ok ((), { db with memberships := db.memberships.upsert row })
  else .error .foreignKey

def upsertPendingGrant (row : PendingGrant) (db : Db) : Except SqlError (Unit × Db) :=
  if refersTo db row.collectionID row.userID row.requestedBy then
    .ok ((), { db with pendingGrants := db.pendingGrants.upsert row })
  else .error .foreignKey

def deleteMembershipRow (collectionID userID : Id) (db : Db) : Unit × Db :=
  ((), { db with memberships := db.memberships.delete fun m => m.collectionID = collectionID && m.userID = userID })

def deletePendingGrantRow (collectionID userID : Id) (db : Db) : Unit × Db :=
  ((), { db with
    pendingGrants := db.pendingGrants.delete fun g => g.collectionID = collectionID && g.userID = userID })

def cascadeCollection (id : Id) (db : Db) : Db :=
  { db with
    collections := db.collections.delete fun c => c.id = id
    memberships := db.memberships.delete fun m => m.collectionID = id
    pendingGrants := db.pendingGrants.delete fun g => g.collectionID = id
    items := db.items.delete fun item => item.collectionID = some id }

def deleteCollectionRow (id : Id) (db : Db) : Nat × Db :=
  if db.hasCollection id then (1, cascadeCollection id db) else (0, db)

/-! ## Operations -/

def createCollectionTx (now : Time) (id auditID : Id) (name : String) (createdBy : Id) (sealedKey : String) :
    Txn Collection := do
  let collection : Collection := { id, name, createdBy, createdAt := stamp now }
  sql (wrap "insert collection") (insertCollection collection)
  let granted ← nextRevision
  sql (wrap "insert creator membership") <| insertMembership {
    collectionID := id, userID := createdBy, sealedCollectionKey := sealedKey, role := .manager
    grantedBy := createdBy, grantedAt := stamp now, grantedRevision := granted }
  appendAudit auditID now createdBy "collection.create" ("collection:" ++ id) [("name", name)]
  return { collection with createdAt := now }

def createCollection (now : Time) (id auditID : Id) (name : String) (createdBy : Id) (sealedKeyForCreator : String)
    (db : Db) : Except StoreError Collection × Db :=
  if Go.trimSpace name = "" then (.error (.validation "name" ""), db)
  else if sealedKeyForCreator = "" then (.error (.validation "sealedCollectionKey" ""), db)
  else (createCollectionTx now id auditID (Go.trimSpace name) createdBy sealedKeyForCreator).transact db

def deleteCollectionTx (id : Id) : Txn Unit := do
  let affected ← write (deleteCollectionRow id)
  require (affected ≠ 0) .notFound

def deleteCollection (id : Id) (db : Db) : Except StoreError Unit × Db := (deleteCollectionTx id).autocommit db

def addMemberTx (now : Time) (auditID : Id) (collectionID userID : Id) (sealedKey : String) (role : MemberRole)
    (grantedBy : Id) : Txn Unit := do
  let granted ← nextRevision
  sql (wrap "insert membership") <| upsertMembership {
    collectionID, userID, role, grantedBy
    sealedCollectionKey := sealedKey, grantedAt := stamp now, grantedRevision := granted }
  appendAudit auditID now grantedBy "collection.member.add" ("collection:" ++ collectionID)
    [("userId", userID), ("role", role.text)]

def fulfilGrantOrAdd (now : Time) (auditID : Id) (collectionID userID : Id) (sealedKey role : String)
    (grantedBy : Id) (db : Db) : Except StoreError Unit × Db :=
  match validRole role with
  | none => (.error (.validation "role" ""), db)
  | some role =>
    if sealedKey = "" then (.error (.validation "sealedCollectionKey" ""), db)
    else (addMemberTx now auditID collectionID userID sealedKey role grantedBy).transact db

def countManagers (collectionID : Id) (db : Db) : Nat :=
  db.memberships.count fun m => m.collectionID = collectionID && m.role = .manager

def removable (collectionID userID removedBy : Id) (db : Db) : Bool :=
  (db.memberships.get? (collectionID, userID)).any
      (fun m => !(m.role = .manager && countManagers collectionID db ≤ 1)) &&
    (removedBy = "" || db.hasUser removedBy)

def removeMemberTx (now : Time) (auditID : Id) (collectionID userID removedBy : Id) : Txn Unit := do
  let found ← Prog.query (·.memberships.get? (collectionID, userID))
  match found with
  | none => .fail .notFound
  | some m =>
    let managers ← Prog.query (countManagers collectionID)
    -- the last manager stays: nobody else could fulfil a pending grant
    require (!(m.role = .manager && managers ≤ 1)) (.validation "userId" "")
    write (deleteMembershipRow collectionID userID)
    appendAudit auditID now removedBy "collection.member.remove" ("collection:" ++ collectionID)
      [("userId", userID)]

def removeMember (now : Time) (auditID : Id) (collectionID userID removedBy : Id) (db : Db) :
    Except StoreError Unit × Db :=
  (removeMemberTx now auditID collectionID userID removedBy).transact db

/-- Two statements and no transaction: the grant stays when its audit entry fails. -/
def createPendingGrantProg (now : Time) (auditID : Id) (collectionID userID role requestedBy : Id) : Txn Unit := do
  sql (wrap "insert pending grant") <| upsertPendingGrant {
    collectionID, userID, role, requestedBy, createdAt := stamp now }
  appendAudit auditID now requestedBy "collection.grant.request" ("collection:" ++ collectionID)
    [("userId", userID), ("role", role)]

def createPendingGrant (now : Time) (auditID : Id) (collectionID userID role requestedBy : Id) (db : Db) :
    Except StoreError Unit × Db :=
  match validRole role with
  | none => (.error (.validation "role" ""), db)
  | some _ => (createPendingGrantProg now auditID collectionID userID role requestedBy).autocommit db

def fulfilGrantTx (now : Time) (auditID : Id) (collectionID userID : Id) (sealedKey : String) (grantedBy : Id) :
    Txn Unit := do
  let found ← Prog.query (·.pendingGrants.get? (collectionID, userID))
  match found with
  | none => .fail .notFound
  | some grant =>
    match validRole grant.role with
    | none => .fail (.validation "role" "")
    | some role =>
      addMemberTx now auditID collectionID userID sealedKey role grantedBy
      write (deletePendingGrantRow collectionID userID)

def fulfilGrant (now : Time) (auditID : Id) (collectionID userID : Id) (sealedKey : String) (grantedBy : Id)
    (db : Db) : Except StoreError Unit × Db :=
  if sealedKey = "" then (.error (.validation "sealedCollectionKey" ""), db)
  else (fulfilGrantTx now auditID collectionID userID sealedKey grantedBy).transact db

def Vault.collectionsForUser (v : Vault) (userID : Id) : List CollectionWithMembership :=
  let joined := v.memberships.rows.filterMap fun m =>
    if m.userID = userID then
      (v.collections.get? m.collectionID).map fun c =>
        ({ c with role := m.role, sealedCollectionKey := m.sealedCollectionKey, grantedAt := m.grantedAt } :
          CollectionWithMembership)
    else none
  joined.insertionSort fun a b => a.name ≤ b.name

/-! ## What each of them does -/

theorem insertCollection_ok {row : Collection} {db db' : Db} {u : Unit}
    (h : insertCollection row db = .ok (u, db')) :
    ∃ collections, db.collections.insert? row = some collections ∧ db.hasUser row.createdBy = true ∧
      db' = { db with collections } := by
  unfold insertCollection at h
  split at h
  · cases h
  · rename_i t ht
    split at h
    · rename_i hu; cases h; exact ⟨t, ht, hu, rfl⟩
    · cases h

theorem insertMembership_ok {row : Membership} {db db' : Db} {u : Unit}
    (h : insertMembership row db = .ok (u, db')) :
    ∃ memberships, db.memberships.insert? row = some memberships ∧
      refersTo db row.collectionID row.userID row.grantedBy = true ∧ db' = { db with memberships } := by
  unfold insertMembership at h
  split at h
  · cases h
  · rename_i t ht
    split at h
    · rename_i hr; cases h; exact ⟨t, ht, hr, rfl⟩
    · cases h

theorem createCollection_ok {now : Time} {id auditID : Id} {name : String} {createdBy : Id} {sealedKey : String}
    {db db' : Db} {c : Collection}
    (h : createCollection now id auditID name createdBy sealedKey db = (.ok c, db')) :
    ∃ row m collections memberships auditLog, row.id = id ∧ db.collections.insert? row = some collections ∧
      m.collectionID = id ∧ m.userID = createdBy ∧ m.grantedRevision = db.revisionSequence + 1 ∧
      db.memberships.insert? m = some memberships ∧ m.role = .manager ∧
      db' = { db with collections, memberships, auditLog, revisionSequence := db.revisionSequence + 1 } := by
  unfold createCollection at h
  split at h
  · cases h
  · split at h
    · cases h
    · have ht := Prog.transact_ok (congrArg Prod.fst h)
      rw [h] at ht
      simp only [createCollectionTx, Prog.exec_bind_ok, exec_sql_ok, exec_nextRevision] at ht
      obtain ⟨_, db₁, h₁, n, db₂, h₂, _, db₃, h₃, _, db₄, h₄, h₅⟩ := ht
      obtain ⟨cs, hcs, -, rfl⟩ := insertCollection_ok h₁
      cases h₂
      obtain ⟨ms, hms, -, rfl⟩ := insertMembership_ok h₃
      obtain ⟨a, rfl⟩ := exec_appendAudit h₄
      cases h₅
      exact ⟨_, _, cs, ms, a, rfl, hcs, rfl, rfl, rfl, hms, rfl, rfl⟩

theorem createCollection_error {now : Time} {id auditID : Id} {name : String} {createdBy : Id}
    {sealedKey : String} {db db' : Db} {e : StoreError}
    (h : createCollection now id auditID name createdBy sealedKey db = (.error e, db')) :
    db' = db := by
  unfold createCollection at h
  split at h
  · cases h; rfl
  · split at h
    · cases h; rfl
    · have ht := Prog.transact_error (congrArg Prod.fst h)
      rwa [h] at ht

theorem deleteCollection_eq (id : Id) (db : Db) : deleteCollection id db =
    if db.hasCollection id then (.ok (), cascadeCollection id db) else (.error .notFound, db) := by
  unfold deleteCollection deleteCollectionTx deleteCollectionRow
  by_cases hc : db.hasCollection id = true
  · rw [if_pos hc]
    apply Prog.autocommit_ok.mpr
    simp [Prog.exec_bind, hc]
  · rw [if_neg hc, Prog.autocommit_bind]
    simp only [write, Prog.autocommit, if_neg hc]
    rfl

theorem addMemberTx_ok {now : Time} {auditID collectionID userID : Id} {sealedKey : String} {role : MemberRole}
    {grantedBy : Id} {db db' : Db} {r : Unit}
    (h : (addMemberTx now auditID collectionID userID sealedKey role grantedBy).exec db = .ok (r, db')) :
    ∃ m auditLog, m.collectionID = collectionID ∧ m.userID = userID ∧ m.role = role ∧
      m.grantedRevision = db.revisionSequence + 1 ∧ db' = { db with
        memberships := db.memberships.upsert m, auditLog, revisionSequence := db.revisionSequence + 1 } := by
  simp only [addMemberTx, Prog.exec_bind_ok, exec_sql_ok, exec_nextRevision] at h
  obtain ⟨n, db₁, h₁, _, db₂, h₂, h₃⟩ := h
  cases h₁
  unfold upsertMembership at h₂
  split at h₂
  · cases h₂
    obtain ⟨a, rfl⟩ := exec_appendAudit h₃
    exact ⟨_, a, rfl, rfl, rfl, rfl, rfl⟩
  · cases h₂

theorem fulfilGrantOrAdd_ok {now : Time} {auditID collectionID userID : Id} {sealedKey role : String}
    {grantedBy : Id} {db db' : Db} {r : Unit}
    (h : fulfilGrantOrAdd now auditID collectionID userID sealedKey role grantedBy db = (.ok r, db')) :
    ∃ m auditLog, m.collectionID = collectionID ∧ m.userID = userID ∧ validRole role = some m.role ∧
      m.grantedRevision = db.revisionSequence + 1 ∧ db' = { db with
        memberships := db.memberships.upsert m, auditLog, revisionSequence := db.revisionSequence + 1 } := by
  unfold fulfilGrantOrAdd at h
  split at h
  · cases h
  · rename_i granted hrole
    split at h
    · cases h
    · have ht := Prog.transact_ok (congrArg Prod.fst h)
      rw [h] at ht
      obtain ⟨m, a, hc, hu, rfl, hr, rfl⟩ := addMemberTx_ok ht
      exact ⟨m, a, hc, hu, hrole, hr, rfl⟩

theorem fulfilGrantOrAdd_error {now : Time} {auditID collectionID userID : Id} {sealedKey role : String}
    {grantedBy : Id} {db db' : Db} {e : StoreError}
    (h : fulfilGrantOrAdd now auditID collectionID userID sealedKey role grantedBy db = (.error e, db')) :
    db' = db := by
  unfold fulfilGrantOrAdd at h
  split at h
  · cases h; rfl
  · split at h
    · cases h; rfl
    · have ht := Prog.transact_error (congrArg Prod.fst h)
      rwa [h] at ht

theorem removeMember_ok {now : Time} {auditID collectionID userID removedBy : Id} {db db' : Db} {r : Unit}
    (h : removeMember now auditID collectionID userID removedBy db = (.ok r, db')) :
    removable collectionID userID removedBy db = true ∧ ∃ auditLog, db' = { db with
      memberships := db.memberships.delete fun m => m.collectionID = collectionID && m.userID = userID
      auditLog } := by
  have ht := Prog.transact_ok (congrArg Prod.fst h)
  rw [show (removeMemberTx now auditID collectionID userID removedBy).transact db = _ from h] at ht
  simp only [removeMemberTx, Prog.exec_bind, Prog.exec_query] at ht
  cases hm : db.memberships.get? (collectionID, userID) with
  | none => simp [hm] at ht
  | some m =>
    rw [hm] at ht
    simp only [Prog.exec_bind_ok, Prog.exec_query, exec_require_ok, exec_write, Except.ok.injEq,
      Prod.mk.injEq] at ht
    obtain ⟨_, _, ⟨rfl, rfl⟩, _, _, ⟨hman, rfl⟩, _, db₁, h₁, h₂⟩ := ht
    cases h₁
    have hactor := appendAudit_actor h₂
    refine ⟨?_, exec_appendAudit h₂⟩
    unfold removable
    rw [hm, Option.any_some, hman, Bool.true_and, Bool.or_eq_true, decide_eq_true_eq]
    exact hactor

theorem removeMember_error {now : Time} {auditID collectionID userID removedBy : Id} {db db' : Db} {e : StoreError}
    (h : removeMember now auditID collectionID userID removedBy db = (.error e, db')) : db' = db := by
  have ht := Prog.transact_error (congrArg Prod.fst h)
  rwa [show (removeMemberTx now auditID collectionID userID removedBy).transact db = _ from h] at ht

theorem createPendingGrant_frame (now : Time) (auditID collectionID userID role requestedBy : Id) (db : Db) :
    ∃ pendingGrants auditLog,
      (createPendingGrant now auditID collectionID userID role requestedBy db).2 =
        { db with pendingGrants, auditLog } := by
  unfold createPendingGrant
  split
  · exact ⟨_, _, rfl⟩
  · unfold createPendingGrantProg
    rw [Prog.autocommit_bind]
    simp only [sql, Prog.autocommit, upsertPendingGrant]
    by_cases hr : refersTo db collectionID userID requestedBy = true
    · rw [if_pos hr]
      obtain ⟨a, ha⟩ := autocommit_appendAudit auditID now requestedBy "collection.grant.request"
        ("collection:" ++ collectionID) [("userId", userID), ("role", role)]
        { db with
          pendingGrants := db.pendingGrants.upsert
            { collectionID, userID, role, requestedBy, createdAt := stamp now } }
      exact ⟨_, a, ha⟩
    · rw [if_neg hr]
      exact ⟨_, _, rfl⟩

theorem fulfilGrant_ok {now : Time} {auditID collectionID userID : Id} {sealedKey : String} {grantedBy : Id}
    {db db' : Db} {r : Unit}
    (h : fulfilGrant now auditID collectionID userID sealedKey grantedBy db = (.ok r, db')) :
    ∃ m auditLog pendingGrants grant, m.collectionID = collectionID ∧ m.userID = userID ∧
      db.pendingGrants.get? (collectionID, userID) = some grant ∧ validRole grant.role = some m.role ∧
      m.grantedRevision = db.revisionSequence + 1 ∧
      db' = { db with
        memberships := db.memberships.upsert m, auditLog, pendingGrants
        revisionSequence := db.revisionSequence + 1 } := by
  unfold fulfilGrant at h
  split at h
  · cases h
  · have ht := Prog.transact_ok (congrArg Prod.fst h)
    rw [h] at ht
    simp only [fulfilGrantTx, Prog.exec_bind, Prog.exec_query] at ht
    cases hg : db.pendingGrants.get? (collectionID, userID) with
    | none => simp [hg] at ht
    | some grant =>
      rw [hg] at ht
      simp only at ht
      split at ht
      · cases ht
      · rename_i role hrole
        rw [Prog.exec_bind_ok] at ht
        obtain ⟨_, db₁, h₁, h₂⟩ := ht
        obtain ⟨m, a, hc, hu, rfl, hr, rfl⟩ := addMemberTx_ok h₁
        cases h₂
        exact ⟨m, a, _, grant, hc, hu, rfl, hrole, hr, rfl⟩

theorem fulfilGrant_error {now : Time} {auditID collectionID userID : Id} {sealedKey : String} {grantedBy : Id}
    {db db' : Db} {e : StoreError}
    (h : fulfilGrant now auditID collectionID userID sealedKey grantedBy db = (.error e, db')) : db' = db := by
  unfold fulfilGrant at h
  split at h
  · cases h; rfl
  · have ht := Prog.transact_error (congrArg Prod.fst h)
    rwa [h] at ht

end Keyhole.Store
