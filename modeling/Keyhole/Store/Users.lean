import Keyhole.Go
import Keyhole.Store.Schema

/-!
# Users, invites and enrollment

An address arrives here as `NormalizeEmail` leaves it, so the index on
`lower(email)` is uniqueness of the text. `CompleteEnrollment` looks its
invite up before it opens a transaction; the lookup and the transaction are
two definitions.
-/

namespace Keyhole.Store
open Sql

def userByID (id : Id) (db : Db) : Except StoreError User :=
  match db.users.get? id with
  | some user => .ok user
  | none => .error .notFound

def userByEmail (email : String) (db : Db) : Except StoreError User :=
  match db.users.find? fun user => user.email = email with
  | some user => .ok user
  | none => .error .notFound

def insertUser (row : User) (db : Db) : Except SqlError (Unit × Db) :=
  if db.users.any fun user => user.email = row.email then .error .unique
  else match db.users.insert? row with
    | none => .error .primaryKey
    | some users => .ok ((), { db with users })

def classifyUserInsertError : SqlError → StoreError
  | .unique => .emailTaken
  | _ => .internal "insert user"

def parseRole (role : String) : Option UserRole :=
  if role = "admin" then some .admin
  else if role = "user" then some .user
  else none

def pendingUser (now : Time) (id : Id) (email name : String) (role : UserRole) : User := {
  id, email, name, role, status := .pending
  kdfSalt := none, kdfParams := none, authHash := none, protectedUserKey := none
  recoveryProtectedUserKey := none, recoverySalt := none, recoveryKDFParams := none, recoveryAuthHash := none
  publicKey := none, encryptedPrivateKey := none
  revision := 0, createdAt := stamp now, updatedAt := stamp now }

def createPendingUser (now : Time) (id : Id) (email name role : String) (db : Db) : Except StoreError User × Db :=
  match parseRole role with
  | none => (.error (.internal "invalid role"), db)
  | some role =>
    if email = "" || '@' ∉ email.toList then (.error (.internal "invalid email"), db)
    else if Go.trimSpace name = "" then (.error (.internal "name must not be empty"), db)
    else
      let user := pendingUser now id email (Go.trimSpace name) role
      (do sql classifyUserInsertError (insertUser user); return user : Txn User).autocommit db

def updateUserRow (p : User → Bool) (f : User → User) (hf : ∀ u, (f u).id = u.id := by intro _; rfl) (db : Db) :
    Nat × Db :=
  (db.users.count p, { db with users := db.users.update p f hf })

/-! ## Invites -/

def inviteTTL : Time := 72 * 3600 * second

def insertInvite (row : Invite) (db : Db) : Except SqlError (Unit × Db) :=
  if db.invites.any fun inv => inv.tokenHash = row.tokenHash then .error .unique
  else match db.invites.insert? row with
    | none => .error .primaryKey
    | some invites => if db.hasUser row.userID then .ok ((), { db with invites }) else .error .foreignKey

def newInvite (now : Time) (id : Id) (token : String) (userID : Id) (ttl : Time) : Invite := {
  id, userID, tokenHash := hashToken token, createdAt := stamp now, expiresAt := stamp (now + ttl), usedAt := none }

def createInviteTx (now : Time) (id : Id) (token : String) (userID : Id) (ttl : Time) : Txn String := do
  sql (wrap "insert invite") (insertInvite (newInvite now id token userID ttl))
  return token

def createInvite (now : Time) (id : Id) (token : String) (userID : Id) (ttl : Time) (db : Db) :
    Except StoreError String × Db :=
  (createInviteTx now id token userID ttl).autocommit db

def inviteByToken (now : Time) (token : String) (db : Db) : Except StoreError Invite :=
  match db.invites.find? fun inv => inv.tokenHash = hashToken token && inv.usedAt.isNone with
  | none => .error .notFound
  | some inv => if inv.expiresAt < now then .error .notFound else .ok inv

/-! ## Enrollment -/

structure EnrollmentInput where
  kdfSalt : String
  kdfParams : String
  authHash : AuthHash
  protectedUserKey : String
  publicKey : String
  encryptedPrivateKey : String
  recoverySalt : String
  recoveryProtectedUserKey : String
  recoveryKDFParams : String
  recoveryAuthHash : AuthHash
  deriving DecidableEq, Repr

/-- The first empty field. The source ranges over a map: which empty field it
reports is not determined, that it reports one is. -/
def firstMissing (required : List (String × Bool)) : Option StoreError :=
  (required.find? (·.2)).map fun field => .validation field.1 ""

def pinned (field params : String) : Except StoreError Unit :=
  if params = defaultKDFParamsJSON then .ok ()
  else .error (.validation field "must match the server's current KDF parameters exactly")

def EnrollmentInput.validate (inp : EnrollmentInput) : Except StoreError Unit :=
  match firstMissing [("kdfSalt", inp.kdfSalt = ""), ("params", inp.kdfParams = ""),
      ("authHash", inp.authHash.isEmpty), ("protectedUserKey", inp.protectedUserKey = ""),
      ("publicKey", inp.publicKey = ""), ("encryptedPrivateKey", inp.encryptedPrivateKey = ""),
      ("recoverySalt", inp.recoverySalt = ""), ("recoveryProtectedUserKey", inp.recoveryProtectedUserKey = ""),
      ("recoveryKdfParams", inp.recoveryKDFParams = ""), ("recoveryAuthHash", inp.recoveryAuthHash.isEmpty)] with
  | some e => .error e
  | none =>
    match pinned "params" inp.kdfParams with
    | .error e => .error e
    | .ok () => pinned "recoveryKdfParams" inp.recoveryKDFParams

def User.enrolled (user : User) (now : Time) (inp : EnrollmentInput) : User :=
  { user with
    status := .active
    kdfSalt := some inp.kdfSalt, kdfParams := some inp.kdfParams, authHash := some inp.authHash
    protectedUserKey := some inp.protectedUserKey
    publicKey := some inp.publicKey, encryptedPrivateKey := some inp.encryptedPrivateKey
    recoverySalt := some inp.recoverySalt
    recoveryProtectedUserKey := some inp.recoveryProtectedUserKey
    recoveryKDFParams := some inp.recoveryKDFParams, recoveryAuthHash := some inp.recoveryAuthHash
    revision := user.revision + 1, updatedAt := stamp now }

def Invite.spent (inv : Invite) (now : Time) : Invite := { inv with usedAt := some (stamp now) }

def spendInviteRow (now : Time) (id : Id) (db : Db) : Nat × Db :=
  let p : Invite → Bool := fun inv => inv.id = id && inv.usedAt.isNone
  (db.invites.count p, { db with invites := db.invites.update p (·.spent now) })

def completeEnrollmentTx (now : Time) (invite : Invite) (inp : EnrollmentInput) : Txn User := do
  let affected ← write (spendInviteRow now invite.id)
  require (affected ≠ 0) .notFound
  let affected ← write <|
    updateUserRow (fun user => user.id = invite.userID && user.status = .pending) (·.enrolled now inp)
  require (affected ≠ 0) .notFound
  let found ← Prog.query (·.users.get? invite.userID)
  match found with
  | none => .fail (.internal "reload enrolled user")
  | some user => return user

def completeEnrollment (now : Time) (token : String) (inp : EnrollmentInput) (db : Db) :
    Except StoreError User × Db :=
  match inp.validate with
  | .error e => (.error e, db)
  | .ok () =>
    match inviteByToken now token db with
    | .error e => (.error e, db)
    | .ok invite => (completeEnrollmentTx now invite inp).transact db

/-! ## What each of them does -/

theorem insertUser_ok {row : User} {db db' : Db} {u : Unit} (h : insertUser row db = .ok (u, db')) :
    ∃ users, db.users.insert? row = some users ∧ db' = { db with users } := by
  unfold insertUser at h
  split at h
  · cases h
  · split at h
    · cases h
    · rename_i t ht; cases h; exact ⟨t, ht, rfl⟩

theorem insertInvite_ok {row : Invite} {db db' : Db} {u : Unit} (h : insertInvite row db = .ok (u, db')) :
    ∃ invites, db.invites.insert? row = some invites ∧ (∀ inv ∈ db.invites, inv.tokenHash ≠ row.tokenHash) ∧
      db.hasUser row.userID = true ∧ db' = { db with invites } := by
  unfold insertInvite at h
  split at h
  · cases h
  · rename_i hu
    split at h
    · cases h
    · rename_i t ht
      split at h
      · rename_i hx
        cases h
        refine ⟨t, ht, ?_, hx, rfl⟩
        intro inv hinv hk
        exact hu (Table.any_eq_true.mpr ⟨inv, hinv, by simpa using hk⟩)
      · cases h

theorem createInviteTx_ok {now : Time} {id : Id} {token : String} {userID : Id} {ttl : Time} {db db' : Db}
    {t : String} (h : (createInviteTx now id token userID ttl).exec db = .ok (t, db')) :
    t = token ∧ ∃ invites, db.invites.insert? (newInvite now id token userID ttl) = some invites ∧
      (∀ inv ∈ db.invites, inv.tokenHash ≠ hashToken token) ∧ db.hasUser userID = true ∧
      db' = { db with invites } := by
  simp only [createInviteTx, Prog.exec_bind_ok, exec_sql_ok] at h
  obtain ⟨u, db₁, h₁, h₂⟩ := h
  cases h₂
  exact ⟨rfl, insertInvite_ok h₁⟩

theorem inviteByToken_ok {now : Time} {token : String} {db : Db} {inv : Invite}
    (h : inviteByToken now token db = .ok inv) :
    inv ∈ db.invites ∧ inv.tokenHash = hashToken token ∧ inv.usedAt = none ∧ now ≤ inv.expiresAt := by
  unfold inviteByToken at h
  split at h
  · cases h
  · rename_i inv' hf
    split at h
    · cases h
    · rename_i hx
      cases h
      have hp := Table.prop_of_find? hf
      simp only [Bool.and_eq_true, decide_eq_true_eq, Option.isNone_iff_eq_none] at hp
      exact ⟨Table.mem_of_find? hf, hp.1, hp.2, Nat.le_of_not_lt hx⟩

theorem updateUserRow_ok (id : Id) {p : User → Bool} {f : User → User} {hf : ∀ u, (f u).id = u.id} {db db' : Db}
    {n : Nat} (h : updateUserRow p f hf db = (n, db')) (hn : n ≠ 0) (hid : ∀ u, p u = true → u.id = id) :
    ∃ u, db.users.get? id = some u ∧ p u = true ∧ db' = { db with users := db.users.upsert (f u) } := by
  unfold updateUserRow at h
  simp only [Prod.mk.injEq] at h
  obtain ⟨rfl, rfl⟩ := h
  obtain ⟨u, hu, hp, hup⟩ := Table.update_one hid hn
  exact ⟨u, hu, hp, congrArg (fun users => { db with users }) hup⟩

theorem updateUserRow_zero (db : Db) (p : User → Bool) (f : User → User) (hf : ∀ u, (f u).id = u.id)
    (h : (updateUserRow p f hf db).1 = 0) : (updateUserRow p f hf db).2 = db :=
  congrArg (fun users => { db with users }) (Table.update_of_count h)

theorem spendInviteRow_ok {now : Time} {id : Id} {db db' : Db} {n : Nat}
    (h : spendInviteRow now id db = (n, db')) (hn : n ≠ 0) :
    ∃ inv, db.invites.get? id = some inv ∧ inv.usedAt = none ∧
      db' = { db with invites := db.invites.upsert (inv.spent now) } := by
  unfold spendInviteRow at h
  simp only [Prod.mk.injEq] at h
  obtain ⟨rfl, rfl⟩ := h
  obtain ⟨inv, hinv, hp, hup⟩ := Table.update_one (k := id) (by simp +contextual) hn
  simp only [Bool.and_eq_true, Option.isNone_iff_eq_none] at hp
  exact ⟨inv, hinv, hp.2, congrArg (fun invites => { db with invites }) hup⟩

/-- Enrollment spends the invite it was given and writes the whole of the new
state, both guarded in the statements themselves. -/
theorem completeEnrollmentTx_ok {now : Time} {invite : Invite} {inp : EnrollmentInput} {db db' : Db} {user : User}
    (h : (completeEnrollmentTx now invite inp).exec db = .ok (user, db')) :
    ∃ inv u, db.invites.get? invite.id = some inv ∧ inv.usedAt = none ∧
      db.users.get? invite.userID = some u ∧ u.status = .pending ∧ user = u.enrolled now inp ∧
      db' = { db with invites := db.invites.upsert (inv.spent now), users := db.users.upsert user } := by
  simp only [completeEnrollmentTx, Prog.exec_bind_ok, exec_write, exec_require_ok, Prog.exec_query,
    Except.ok.injEq, decide_eq_true_eq] at h
  obtain ⟨n, db₁, h₁, _, _, ⟨hn, rfl⟩, n', db₂, h₂, _, _, ⟨hn', rfl⟩, found, db₃, h₃, h⟩ := h
  obtain ⟨inv, hinv, hused, rfl⟩ := spendInviteRow_ok h₁ hn
  obtain ⟨u, hu, hp, rfl⟩ := updateUserRow_ok invite.userID h₂ hn' (by simp +contextual)
  simp only [Bool.and_eq_true, decide_eq_true_eq] at hp
  have hg : (db.users.upsert (u.enrolled now inp)).get? invite.userID = some (u.enrolled now inp) := by
    rw [Table.get?_upsert, if_pos]
    exact (Table.get?_eq_some.mp hu).2
  simp only [Prod.mk.injEq] at h₃
  obtain ⟨rfl, rfl⟩ := h₃
  rw [hg] at h
  cases h
  exact ⟨inv, u, hinv, hused, hu, hp.2, rfl, rfl⟩

theorem updateUserRow_get {p : User → Bool} {f : User → User} {id : Id} {db : Db} {u : User}
    (hf : ∀ u, (f u).id = u.id) (hu : db.users.get? id = some u) (hp : p u = true)
    (hid : ∀ u, p u = true → u.id = id) :
    (updateUserRow p f hf db).1 ≠ 0 ∧ (updateUserRow p f hf db).2.users.get? id = some (f u) := by
  have hmem := (Table.get?_eq_some.mp hu).1
  have hn : (updateUserRow p f hf db).1 ≠ 0 := Table.count_ne_zero hmem hp
  obtain ⟨u', hu', -, hdb⟩ := updateUserRow_ok id Prod.mk.eta.symm hn hid
  rw [hu] at hu'
  cases hu'
  refine ⟨hn, ?_⟩
  rw [hdb, Table.get?_upsert, hf]
  exact if_pos (Table.get?_eq_some.mp hu).2

/-- Nothing else can stop it. -/
theorem completeEnrollmentTx_able {invite inv : Invite} {db : Db} {u : User} (now : Time) (inp : EnrollmentInput)
    (hi : db.invites.get? invite.id = some inv) (hused : inv.usedAt = none)
    (hu : db.users.get? invite.userID = some u) (hs : u.status = .pending) :
    ∃ r, (completeEnrollmentTx now invite inp).exec db = .ok r := by
  obtain ⟨hinv, hid⟩ := Table.get?_eq_some.mp hi
  have hspend : (spendInviteRow now invite.id db).1 ≠ 0 :=
    Table.count_ne_zero hinv (by simp [hid, hused])
  have hu' : (spendInviteRow now invite.id db).2.users.get? invite.userID = some u := hu
  obtain ⟨hwrite, hreload⟩ := updateUserRow_get
    (p := fun user => user.id = invite.userID && user.status = .pending) (f := (·.enrolled now inp))
    (fun _ => rfl) hu' (by simp [(Table.get?_eq_some.mp hu).2, hs]) (by simp +contextual)
  unfold completeEnrollmentTx
  rw [exec_guarded hspend, exec_guarded hwrite, Prog.exec_bind, Prog.exec_query]
  simp only [hreload]
  exact ⟨_, rfl⟩

end Keyhole.Store
