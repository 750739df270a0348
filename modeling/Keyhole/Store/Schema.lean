import Keyhole.Auth
import Keyhole.Lib.Table
import Keyhole.Lib.Prog

/-!
# The database

Its rows and tables after the five migrations, the errors of the store, and
the statements the store's transactions are made of. A foreign key is a
check where a row is written and a cascade where one is deleted. What the
source draws at random (`NewID`, a token, a salt) is an argument here.
-/

namespace Keyhole.Store
open Sql

abbrev Id := String

abbrev Time := Nat

def second : Time := 1000000000

/-- A timestamp as its column holds it: RFC 3339 text has whole seconds. -/
def stamp (t : Time) : Time := t / second * second

/-! ## Rows -/

inductive UserRole | admin | user
  deriving DecidableEq, Repr

inductive UserStatus | pending | active | disabled
  deriving DecidableEq, Repr

structure User where
  id : Id
  email : String
  name : String
  role : UserRole
  status : UserStatus
  kdfSalt : Option String
  kdfParams : Option String
  authHash : Option AuthHash
  protectedUserKey : Option String
  recoveryProtectedUserKey : Option String
  recoverySalt : Option String
  recoveryKDFParams : Option String
  recoveryAuthHash : Option AuthHash
  publicKey : Option String
  encryptedPrivateKey : Option String
  revision : Int
  createdAt : Time
  updatedAt : Time
  deriving DecidableEq, Repr

structure Invite where
  id : Id
  userID : Id
  tokenHash : TokenHash
  createdAt : Time
  expiresAt : Time
  usedAt : Option Time
  deriving DecidableEq, Repr

structure RecoveryToken where
  id : Id
  userID : Id
  tokenHash : TokenHash
  createdAt : Time
  expiresAt : Time
  usedAt : Option Time
  deriving DecidableEq, Repr

structure Session where
  id : Id
  userID : Id
  tokenHash : TokenHash
  refreshHash : TokenHash
  deviceLabel : String
  createdAt : Time
  lastSeenAt : Time
  expiresAt : Time
  revokedAt : Option Time
  deriving DecidableEq, Repr

structure Collection where
  id : Id
  name : String
  createdBy : Id
  createdAt : Time
  deriving DecidableEq, Repr

inductive MemberRole | member | manager
  deriving DecidableEq, Repr

structure Membership where
  collectionID : Id
  userID : Id
  sealedCollectionKey : String
  role : MemberRole
  grantedBy : Id
  grantedAt : Time
  grantedRevision : Int
  deriving DecidableEq, Repr

def Membership.key (m : Membership) : Id × Id := (m.collectionID, m.userID)

/-- The role column has no CHECK constraint, so it is a string. -/
structure PendingGrant where
  collectionID : Id
  userID : Id
  role : String
  requestedBy : Id
  createdAt : Time
  deriving DecidableEq, Repr

def PendingGrant.key (g : PendingGrant) : Id × Id := (g.collectionID, g.userID)

/-- `collectionID` is `none` for a personal item. -/
structure Item where
  id : Id
  ownerUserID : Id
  collectionID : Option Id
  ciphertext : String
  wrappedItemKey : String
  revision : Int
  createdAt : Time
  updatedAt : Time
  deletedAt : Option Time
  deriving DecidableEq, Repr

structure Folder where
  id : Id
  userID : Id
  encryptedName : String
  revision : Int
  createdAt : Time
  updatedAt : Time
  deletedAt : Option Time
  deriving DecidableEq, Repr

structure AuditEntry where
  id : Id
  actorUserID : Option Id
  action : String
  target : String
  metadata : List (String × String)
  createdAt : Time
  deriving DecidableEq, Repr

structure Vault where
  collections : Table Collection.id
  memberships : Table Membership.key
  items : Table Item.id
  folders : Table Folder.id
  revisionSequence : Int
  deriving DecidableEq

structure Accounts where
  users : Table User.id
  invites : Table Invite.id
  recoveryTokens : Table RecoveryToken.id
  sessions : Table Session.id
  deriving DecidableEq

structure Db extends Vault, Accounts where
  pendingGrants : Table PendingGrant.key
  auditLog : Table AuditEntry.id
  deriving DecidableEq

def Db.fresh : Db where
  collections := ∅
  memberships := ∅
  items := ∅
  folders := ∅
  revisionSequence := 0
  users := ∅
  invites := ∅
  recoveryTokens := ∅
  sessions := ∅
  pendingGrants := ∅
  auditLog := ∅

def Accounts.hasUser (a : Accounts) (id : Id) : Bool := (a.users.get? id).isSome

theorem hasUser_of_get? {a : Accounts} {id : Id} {u : User} (h : a.users.get? id = some u) :
    a.hasUser id = true := by
  unfold Accounts.hasUser
  rw [h]
  rfl

theorem hasUser_upsert {a : Accounts} {u : User} {k id : Id} (h : a.users.get? k = some u) (u' : User)
    (hid : u'.id = u.id) : Accounts.hasUser { a with users := a.users.upsert u' } id = a.hasUser id := by
  unfold Accounts.hasUser
  rw [Table.get?_upsert]
  split
  · rename_i hk
    have : a.users.get? id = some u := Table.get?_eq_some.mpr ⟨(Table.get?_eq_some.mp h).1, hid.symm.trans hk⟩
    rw [this]
    rfl
  · rfl

def Vault.hasCollection (v : Vault) (id : Id) : Bool := (v.collections.get? id).isSome

/-! ## Errors and statements -/

/-- `ErrRevisionConflict` carries the row `UpdateItem` and `UpdateFolder`
return beside it. `internal` is any error a handler answers with a 500. -/
inductive StoreError
  | notFound
  | emailTaken
  | itemConflict (current : Item)
  | folderConflict (current : Folder)
  | userReferenced
  | lastAdmin
  | validation (field message : String)
  | internal (what : String)
  deriving DecidableEq, Repr

inductive SqlError | primaryKey | unique | foreignKey
  deriving DecidableEq, Repr

abbrev Txn := Prog Db StoreError

/-- A statement; `wrap` is what its caller makes of a broken constraint. -/
def sql {β : Type} (wrap : SqlError → StoreError) (s : Db → Except SqlError (β × Db)) : Txn β :=
  .stmt (fun db => match s db with
    | .ok r => .ok r
    | .error e => .error (wrap e)) .done

def write {β : Type} (s : Db → β × Db) : Txn β := .stmt (fun db => .ok (s db)) .done

def wrap (what : String) : SqlError → StoreError := fun _ => .internal what

def require (c : Bool) (e : StoreError) : Txn Unit := if c then pure () else .fail e

def requireOneRow (affected : Nat) (what : String) : Txn Unit := require (affected = 1) (.internal what)

theorem exec_sql_ok {β : Type} {w : SqlError → StoreError} {s : Db → Except SqlError (β × Db)} {db db' : Db}
    {b : β} : (sql w s).exec db = .ok (b, db') ↔ s db = .ok (b, db') := by
  simp only [sql, Prog.exec]
  cases s db <;> simp

@[simp] theorem exec_write {β : Type} (s : Db → β × Db) (db : Db) : (write s).exec db = .ok (s db) := rfl

@[simp] theorem exec_require (c : Bool) (e : StoreError) (db : Db) :
    (require c e).exec db = if c then .ok ((), db) else .error e := by
  unfold require; split <;> rfl

theorem exec_require_ok {c : Bool} {e : StoreError} {db db' : Db} {u : Unit} :
    (require c e).exec db = .ok (u, db') ↔ c = true ∧ db' = db := by
  rw [exec_require]
  split <;> simp_all [eq_comm]

theorem exec_guarded {β : Type} {s : Db → Nat × Db} {e : StoreError} {f : Unit → Txn β} {db : Db}
    (hn : (s db).1 ≠ 0) :
    (write s >>= fun n => require (n ≠ 0) e >>= f).exec db = (f ()).exec (s db).2 := by
  rw [Prog.exec_bind, exec_write]
  simp only
  rw [Prog.exec_bind, exec_require, if_pos (decide_eq_true hn)]

theorem guarded_cases {s : Db → Nat × Db} {e : StoreError} {db : Db} (hs : (s db).1 = 0 → (s db).2 = db) :
    ((write s >>= fun n => require (n ≠ 0) e).exec db = .ok ((), (s db).2) ∧
      (write s >>= fun n => require (n ≠ 0) e).autocommit db = (.ok (), (s db).2)) ∨
    (write s >>= fun n => require (n ≠ 0) e).exec db = .error e ∧
      (write s >>= fun n => require (n ≠ 0) e).autocommit db = (.error e, db) := by
  by_cases hn : (s db).1 = 0
  · right
    have hdb := hs hn
    rw [Prog.exec_bind, Prog.autocommit_bind]
    simp [write, Prog.exec, Prog.autocommit, require, hn, hdb]
  · left
    rw [Prog.exec_bind, Prog.autocommit_bind]
    simp [write, Prog.exec, Prog.autocommit, require, hn, pure]

theorem insert_cases {β : Type} (w : SqlError → StoreError) (s : Db → Except SqlError (Unit × Db)) (b : β)
    (db : Db) :
    (∃ db', s db = .ok ((), db') ∧ (do sql w s; return b : Txn β).autocommit db = (.ok b, db')) ∨
    ∃ e, (do sql w s; return b : Txn β).autocommit db = (.error e, db) := by
  rw [Prog.autocommit_bind]
  simp only [sql, Prog.autocommit]
  cases s db with
  | ok r => exact Or.inl ⟨r.2, rfl, rfl⟩
  | error e => exact Or.inr ⟨w e, rfl⟩

section
variable {R : Db → Db → Prop}

theorem keeps_sql {β : Type} {w : SqlError → StoreError} {s : Db → Except SqlError (β × Db)}
    (h : ∀ db b db', s db = .ok (b, db') → R db db') : (sql w s).Keeps R := by
  refine ⟨?_, fun _ => trivial⟩
  intro db b db' hs
  simp only at hs
  split at hs
  · rename_i r hr
    cases hs
    exact h db b db' hr
  · cases hs

theorem keeps_write {β : Type} {s : Db → β × Db} (h : ∀ db, R db (s db).2) : (write s).Keeps R := by
  refine ⟨?_, fun _ => trivial⟩
  intro db b db' hs
  have := h db
  rw [Except.ok.inj hs] at this
  exact this

theorem keeps_require (c : Bool) (e : StoreError) : (require c e).Keeps R := by
  unfold require
  split <;> trivial

end

/-! ## The audit log -/

def insertAudit (row : AuditEntry) (db : Db) : Except SqlError (Unit × Db) :=
  match db.auditLog.insert? row with
  | none => .error .primaryKey
  | some auditLog =>
    if row.actorUserID.all db.hasUser then .ok ((), { db with auditLog }) else .error .foreignKey

theorem insertAudit_ok {row : AuditEntry} {db db' : Db} {u : Unit} (h : insertAudit row db = .ok (u, db')) :
    ∃ auditLog, db.auditLog.insert? row = some auditLog ∧ row.actorUserID.all db.hasUser = true ∧
      db' = { db with auditLog } := by
  unfold insertAudit at h
  split at h
  · cases h
  · rename_i t ht
    split at h
    · rename_i ha; cases h; exact ⟨t, ht, ha, rfl⟩
    · cases h

def appendAudit (id : Id) (now : Time) (actorUserID action target : String)
    (metadata : List (String × String)) : Txn Unit :=
  sql (wrap "append audit entry") <| insertAudit {
    id, action, target, metadata
    actorUserID := if actorUserID = "" then none else some actorUserID
    createdAt := stamp now }

theorem exec_appendAudit {id : Id} {now : Time} {actor action target : String} {md : List (String × String)}
    {db db' : Db} {u : Unit} (h : (appendAudit id now actor action target md).exec db = .ok (u, db')) :
    ∃ auditLog, db' = { db with auditLog } := by
  obtain ⟨t, -, -, ht⟩ := insertAudit_ok (exec_sql_ok.mp h)
  exact ⟨t, ht⟩

theorem appendAudit_actor {id : Id} {now : Time} {actor action target : String} {md : List (String × String)}
    {db db' : Db} {u : Unit} (h : (appendAudit id now actor action target md).exec db = .ok (u, db')) :
    actor = "" ∨ db.hasUser actor = true := by
  obtain ⟨t, -, ha, -⟩ := insertAudit_ok (exec_sql_ok.mp h)
  by_cases hn : actor = ""
  · exact Or.inl hn
  · right
    simpa [hn] using ha

theorem appendAudit_able {id : Id} {now : Time} {actor action target : String} {md : List (String × String)}
    {db : Db} (hid : db.auditLog.get? id = none) (hactor : actor = "" ∨ db.hasUser actor = true) :
    ∃ r, (appendAudit id now actor action target md).exec db = .ok r := by
  suffices h : ∀ row : AuditEntry, row.id = id → row.actorUserID.all db.hasUser = true →
      ∃ db', insertAudit row db = .ok ((), db') by
    have hrow : (if actor = "" then none else some actor).all db.hasUser = true := by
      split
      · rfl
      · rename_i hn
        exact hactor.resolve_left hn
    obtain ⟨db', hdb⟩ := h ⟨id, if actor = "" then none else some actor, action, target, md, stamp now⟩ rfl hrow
    exact ⟨((), db'), exec_sql_ok.mpr hdb⟩
  rintro row rfl hrow
  cases hi : db.auditLog.insert? row with
  | none =>
    rw [Table.insert?_eq_none, hid] at hi
    cases hi
  | some auditLog =>
    refine ⟨{ db with auditLog }, ?_⟩
    simp only [insertAudit, hi, hrow, if_true]

theorem autocommit_appendAudit (id : Id) (now : Time) (actor action target : String) (md : List (String × String))
    (db : Db) :
    ∃ auditLog, ((appendAudit id now actor action target md).autocommit db).2 = { db with auditLog } := by
  cases h : (appendAudit id now actor action target md).autocommit db with
  | mk r db' =>
    cases r with
    | ok u => exact exec_appendAudit (Prog.autocommit_ok.mp h)
    | error e =>
      refine ⟨db.auditLog, ?_⟩
      unfold appendAudit sql at h
      simp only [Prog.autocommit] at h
      split at h <;> cases h
      rfl

end Keyhole.Store
