import Keyhole.Lib.Await
import Keyhole.Http.Account
import Keyhole.Http.Grants

/-!
# The requests that manage collections and accounts

A handler awaits one call of the store at a time, and anything may happen
between two of them. The requests of these handlers run beside each other and
beside the store's other commands. A body that does not decode is the message
`DecodeJSON` writes for it.
-/

namespace Keyhole.Http.Managing
open Store Sql Await

structure MemberEntry where
  userID : Id
  name : String
  email : String
  role : MemberRole
  grantedAt : Time
  deriving DecidableEq, Repr

/-- What a handler writes when it comes to its end. -/
inductive Reply
  | collections (collections : List CollectionWithMembership) (pendingGrants : List ListedGrant)
  | pendingGrants (pendingGrants : List ListedGrant)
  | collection (collection : Collection) (role : MemberRole) (sealedCollectionKey : String)
  /-- 202: recorded, and waiting for a member's client. -/
  | pending
  /-- 201. -/
  | granted
  | members (members : List MemberEntry)
  | user (user : User)
  | invite (user : Option User) (token : String)
  | noContent
  deriving DecidableEq, Repr

/-! ## Calls of the store -/

/-- What a call draws, of which each takes what it needs. -/
structure Fresh where
  id : Id
  auditID : Id
  token : String
  deriving DecidableEq, Repr

/-- The commands no handler of this module gives. -/
def Elsewhere : Command → Bool
  | .createCollection .. | .deleteCollection .. | .fulfilGrantOrAdd .. | .removeMember .. | .createPendingGrant ..
  | .fulfilGrant .. | .setUserStatus .. | .resetUser .. | .deleteUser .. => false
  | _ => true

inductive Cmd
  | sessionByAccessToken (token : String)
  | userByID (id : Id)
  | touchSession (id : Id)
  | membershipFor (collectionID userID : Id)
  | collectionByID (id : Id)
  | membershipsOf (collectionID : Id)
  | collectionsForUser (userID : Id)
  | allPendingGrants
  | pendingGrantsFulfillableBy (userID : Id)
  | createCollection (name : String) (createdBy : Id) (sealedKey : String)
  | deleteCollection (id : Id)
  | createPendingGrant (collectionID userID : Id) (role : String) (requestedBy : Id)
  | fulfilGrantOrAdd (collectionID userID : Id) (sealedKey role : String) (grantedBy : Id)
  | removeMember (collectionID userID removedBy : Id)
  | fulfilGrant (collectionID userID : Id) (sealedKey : String) (grantedBy : Id)
  | createPendingUser (email name role : String)
  | createInvite (userID : Id)
  | setUserStatus (userID : Id) (status : String) (actorID : Id)
  | resetUser (userID actorID : Id)
  | deleteUser (userID actorID : Id)
  | appendAudit (actorID : Id) (action target : String)
  /-- What the rest of the program does. -/
  | run (c : Command)

namespace Cmd

@[reducible] def Value : Cmd → Type
  | sessionByAccessToken _ => Session
  | userByID _ | createPendingUser .. => User
  | membershipFor .. => Membership
  | collectionByID _ | createCollection .. => Collection
  | membershipsOf _ => List Membership
  | collectionsForUser _ => List CollectionWithMembership
  | allPendingGrants | pendingGrantsFulfillableBy _ => List ListedGrant
  | createInvite _ | resetUser .. => String
  | touchSession _ | deleteCollection _ | createPendingGrant .. | fulfilGrantOrAdd .. | removeMember ..
    | fulfilGrant ..
  | setUserStatus .. | deleteUser .. | appendAudit .. | run _ => Unit

@[reducible] def Answer (c : Cmd) : Type := Except StoreError c.Value

end Cmd

def membershipsOf (collectionID : Id) (db : Db) : List Membership :=
  (db.memberships.rows.filter fun m => m.collectionID = collectionID).insertionSort fun a b =>
    a.grantedAt ≤ b.grantedAt

def allPendingGrants (db : Db) : List ListedGrant :=
  let joined := db.pendingGrants.rows.filterMap fun g =>
    (db.collections.get? g.collectionID).map fun c => ({ g with collectionName := c.name } : ListedGrant)
  joined.insertionSort fun a b => a.createdAt ≤ b.createdAt

namespace Cmd

def perform (now : Time) (fresh : Fresh) : (c : Cmd) → Db → c.Answer × Db
  | sessionByAccessToken token, db => (Store.sessionByAccessToken now token db, db)
  | userByID id, db => (Store.userByID id db, db)
  | touchSession id, db => (.ok (), Store.touchSession now id db)
  | membershipFor c u, db => (Store.membershipFor c u db, db)
  | collectionByID id, db => (Store.collectionByID id db, db)
  | membershipsOf c, db => (.ok (Managing.membershipsOf c db), db)
  | collectionsForUser u, db => (.ok (db.collectionsForUser u), db)
  | allPendingGrants, db => (.ok (Managing.allPendingGrants db), db)
  | pendingGrantsFulfillableBy u, db => (.ok (db.pendingGrantsFulfillableBy u), db)
  | createCollection name by_ key, db => Store.createCollection now fresh.id fresh.auditID name by_ key db
  | deleteCollection id, db => Store.deleteCollection id db
  | createPendingGrant c u role by_, db => Store.createPendingGrant now fresh.auditID c u role by_ db
  | fulfilGrantOrAdd c u key role by_, db => Store.fulfilGrantOrAdd now fresh.auditID c u key role by_ db
  | removeMember c u by_, db => Store.removeMember now fresh.auditID c u by_ db
  | fulfilGrant c u key by_, db => Store.fulfilGrant now fresh.auditID c u key by_ db
  | createPendingUser email name role, db => Store.createPendingUser now fresh.id email name role db
  | createInvite u, db => Store.createInvite now fresh.id fresh.token u inviteTTL db
  | setUserStatus u status actor, db => Store.setUserStatus now fresh.auditID u status actor db
  | resetUser u actor, db => Store.resetUser now fresh.id fresh.auditID fresh.token u actor db
  | deleteUser u actor, db => Store.deleteUser now fresh.auditID u actor db
  | appendAudit actor action target, db =>
    (Store.appendAudit fresh.auditID now actor action target []).autocommit db
  | run c, db => (.ok (), c.run db)

def draws (fresh : Fresh) : Cmd → List String
  | createCollection .. => [fresh.id, fresh.auditID]
  | createPendingGrant .. | fulfilGrantOrAdd .. | removeMember .. | fulfilGrant .. | setUserStatus ..
    | deleteUser ..
  | appendAudit .. => [fresh.auditID]
  | createPendingUser .. => [fresh.id]
  | createInvite _ => [fresh.id, fresh.token]
  | resetUser .. => [fresh.id, fresh.auditID, fresh.token]
  | run c => c.draws
  | sessionByAccessToken _ | userByID _ | touchSession _ | membershipFor .. | collectionByID _ | membershipsOf _
  | collectionsForUser _ | allPendingGrants | pendingGrantsFulfillableBy _ | deleteCollection _ => []

end Cmd

/-- The command of the store a call is, where it is one. -/
def Cmd.command (now : Time) (fresh : Fresh) : Cmd → Option Command
  | touchSession id => some (.touchSession now id)
  | createCollection name by_ key => some (.createCollection now fresh.id fresh.auditID name by_ key)
  | deleteCollection id => some (.deleteCollection id)
  | createPendingGrant c u role by_ => some (.createPendingGrant now fresh.auditID c u role by_)
  | fulfilGrantOrAdd c u key role by_ => some (.fulfilGrantOrAdd now fresh.auditID c u key role by_)
  | removeMember c u by_ => some (.removeMember now fresh.auditID c u by_)
  | fulfilGrant c u key by_ => some (.fulfilGrant now fresh.auditID c u key by_)
  | createPendingUser email name role => some (.createPendingUser now fresh.id email name role)
  | createInvite u => some (.createInvite now fresh.id fresh.token u inviteTTL)
  | setUserStatus u status actor => some (.setUserStatus now fresh.auditID u status actor)
  | resetUser u actor => some (.resetUser now fresh.id fresh.auditID fresh.token u actor)
  | deleteUser u actor => some (.deleteUser now fresh.auditID u actor)
  | run c => some c
  | sessionByAccessToken _ | userByID _ | membershipFor .. | collectionByID _ | membershipsOf _
    | collectionsForUser _
  | allPendingGrants | pendingGrantsFulfillableBy _ | appendAudit .. => none

theorem perform_command (now : Time) (fresh : Fresh) (c : Cmd) (db : Db) :
    (∃ cmd, c.command now fresh = some cmd ∧ (c.perform now fresh db).2 = cmd.run db) ∨
      c.command now fresh = none ∧ ∃ auditLog, (c.perform now fresh db).2 = { db with auditLog } := by
  cases c with
  | sessionByAccessToken | userByID | membershipFor | collectionByID | membershipsOf | collectionsForUser
  | allPendingGrants | pendingGrantsFulfillableBy => exact .inr ⟨rfl, db.auditLog, rfl⟩
  | appendAudit actor action target => exact .inr ⟨rfl, autocommit_appendAudit _ _ _ _ _ _ db⟩
  | _ => exact .inl ⟨_, rfl, rfl⟩

/-- What may come of a call: what it does, at some time, or an error that leaves everything as it was. -/
inductive Exec : Server → (c : Cmd) → Except Response c.Answer → Server → Prop
  | performed {s : Server} {c : Cmd} (now : Time) (fresh : Fresh) : Server.Draws s.issued (c.draws fresh) →
      Exec s c (.ok (c.perform now fresh s.db).1) ⟨(c.perform now fresh s.db).2, c.draws fresh ++ s.issued⟩
  | failed {s : Server} {c : Cmd} (what : String) : Exec s c (.ok (.error (.internal what))) s

/-- A handler stops at the error it writes. -/
abbrev Task (α : Type) : Type := Proc Cmd.Answer Response α

def call (c : Cmd) : Task c.Answer := .perform c

/-! ## Who asks -/

def forbidden (message : String) : Response := .error 403 "forbidden" message

def notFound (message : String) : Response := .error 404 "not_found" message

def conflict (message : String) : Response := .error 409 "conflict" message

def authenticationRequired : Response := unauthorized "authentication required"

def requireAuth {α : Type} (token : Option String) (next : User → Task α) : Task α :=
  match token with
  | none | some "" => .throw authenticationRequired
  | some token => do
    match ← call (.sessionByAccessToken token) with
    | .error _ => .throw authenticationRequired
    | .ok session =>
      match ← call (.userByID session.userID) with
      | .error _ => .throw authenticationRequired
      | .ok user =>
        if user.status ≠ .active then .throw authenticationRequired
        else do
          let _ ← call (.touchSession session.id)
          next user

def requireAdmin {α : Type} (token : Option String) (next : User → Task α) : Task α :=
  requireAuth token fun user =>
    if user.role ≠ .admin then .throw (forbidden "this action requires an administrator") else next user

def noSuchCollection : Response := notFound "no such collection"

def requireManager (user : User) (collectionID : Id) : Task Unit := do
  match ← call (.membershipFor collectionID user.id) with
  | .ok membership =>
    if membership.role = .manager ∨ user.role = .admin then pure ()
    else .throw (forbidden "only a manager of this collection can change its membership")
  | .error .notFound =>
    if user.role ≠ .admin then .throw noSuchCollection
    else
      match ← call (.collectionByID collectionID) with
      | .error e => .throw (writeStoreError e)
      | .ok _ => pure ()
  | .error e => .throw (writeStoreError e)

/-! ## The handlers -/

def decodeJSON {α : Type} (body : Except String α) : Task α :=
  match body with
  | .ok req => pure req
  | .error message => .throw (badRequest message)

/-- `if err != nil { s.writeStoreError(…); return }` -/
def orStoreError {α : Type} (result : Except StoreError α) : Task α :=
  match result with
  | .ok a => pure a
  | .error e => .throw (writeStoreError e)

structure CreateCollectionRequest where
  name : String
  sealedCollectionKey : String
  deriving DecidableEq, Repr

def handleCreateCollection (body : Except String CreateCollectionRequest) (user : User) : Task Reply := do
  let req ← decodeJSON body
  let collection ← orStoreError (← call (.createCollection req.name user.id req.sealedCollectionKey))
  pure (.collection collection .manager req.sealedCollectionKey)

def pendingGrantsFor (user : User) : Task (List ListedGrant) := do
  if user.role = .admin then orStoreError (← call .allPendingGrants)
  else orStoreError (← call (.pendingGrantsFulfillableBy user.id))

def handleListCollections (user : User) : Task Reply := do
  let collections ← orStoreError (← call (.collectionsForUser user.id))
  let grants ← pendingGrantsFor user
  pure (.collections collections grants)

def handleListPendingGrants (user : User) : Task Reply := do
  let grants ← pendingGrantsFor user
  pure (.pendingGrants grants)

/-- An audit entry that cannot be written is logged. -/
def audit (actorID : Id) (action target : String) : Task Unit := do
  let _ ← call (.appendAudit actorID action target)
  pure ()

def handleDeleteCollection (id : Id) (user : User) : Task Reply := do
  orStoreError (← call (.deleteCollection id))
  audit user.id "collection.delete" ("collection:" ++ id)
  pure .noContent

structure AddMemberRequest where
  userID : Id
  role : String
  sealedCollectionKey : String
  deriving DecidableEq, Repr

def AddMemberRequest.roleOrMember (req : AddMemberRequest) : String := if req.role = "" then "member" else req.role

def noSuchUser : Response := notFound "no such user"

def handleAddMember (collectionID : Id) (body : Except String AddMemberRequest) (actor : User) : Task Reply := do
  let req ← decodeJSON body
  requireManager actor collectionID
  match ← call (.userByID req.userID) with
  | .error _ => .throw noSuchUser
  | .ok target =>
    if target.status ≠ .active then .throw noSuchUser
    else if req.sealedCollectionKey = "" then do
      orStoreError (← call (.createPendingGrant collectionID req.userID req.roleOrMember actor.id))
      pure .pending
    else do
      let _ ← orStoreError (← call (.membershipFor collectionID actor.id))
      orStoreError (← call
        (.fulfilGrantOrAdd collectionID req.userID req.sealedCollectionKey req.roleOrMember actor.id))
      pure .granted

def handleRemoveMember (collectionID userID : Id) (actor : User) : Task Reply := do
  requireManager actor collectionID
  orStoreError (← call (.removeMember collectionID userID actor.id))
  pure .noContent

def handleFulfilGrant (collectionID : Id) (body : Except String FulfilGrantRequest) (actor : User) :
    Task Reply := do
  let req ← decodeJSON body
  match ← call (.membershipFor collectionID actor.id) with
  | .error .notFound => .throw noSuchCollection
  | .error e => .throw (writeStoreError e)
  | .ok membership =>
    if membership.role ≠ .manager then .throw (forbidden "only a manager of this collection can fulfil grants")
    else do
      orStoreError (← call (.fulfilGrant collectionID req.userID req.sealedCollectionKey actor.id))
      pure .granted

def memberEntry (membership : Membership) : Task MemberEntry := do
  let member ← orStoreError (← call (.userByID membership.userID))
  pure ⟨member.id, member.name, member.email, membership.role, membership.grantedAt⟩

def memberEntries : List Membership → Task (List MemberEntry)
  | [] => pure []
  | membership :: rest => do
    let entry ← memberEntry membership
    let entries ← memberEntries rest
    pure (entry :: entries)

def handleListMembers (collectionID : Id) (user : User) : Task Reply := do
  match ← call (.membershipFor collectionID user.id) with
  | .error .notFound => if user.role ≠ .admin then .throw noSuchCollection else pure ()
  | .error e => .throw (writeStoreError e)
  | .ok _ => pure ()
  let memberships ← orStoreError (← call (.membershipsOf collectionID))
  let entries ← memberEntries memberships
  pure (.members entries)

structure CreateUserRequest where
  email : String
  name : String
  role : String
  deriving DecidableEq, Repr

def CreateUserRequest.roleOrUser (req : CreateUserRequest) : String := if req.role = "" then "user" else req.role

def handleAdminCreateUser (body : Except String CreateUserRequest) (actor : User) : Task Reply := do
  let req ← decodeJSON body
  match ← call (.createPendingUser req.email req.name req.roleOrUser) with
  | .error .emailTaken => .throw (conflict "an account already exists for that email")
  | .error _ => .throw (badRequest "email, name, and role must be valid")
  | .ok user => do
    let token ← orStoreError (← call (.createInvite user.id))
    audit actor.id "user.create" ("user:" ++ user.id)
    pure (.invite (some user) token)

def handleAdminReissueInvite (id : Id) (actor : User) : Task Reply := do
  let user ← orStoreError (← call (.userByID id))
  if user.status ≠ .pending then
    .throw (conflict "this account has already been set up; use reset to start it over")
  else do
    let token ← orStoreError (← call (.createInvite id))
    audit actor.id "user.invite.reissue" ("user:" ++ id)
    pure (.invite none token)

def onlyAdministrator : Response := conflict "this is the only administrator; promote another account first"

def handleAdminPatchUser (id : Id) (body : Except String String) (actor : User) : Task Reply := do
  let status ← decodeJSON body
  match ← call (.setUserStatus id status actor.id) with
  | .error .lastAdmin => .throw onlyAdministrator
  | .error e => .throw (writeStoreError e)
  | .ok () => do
    let user ← orStoreError (← call (.userByID id))
    pure (.user user)

/-- `confirmEmail` is as `NormalizeEmail` leaves it. -/
def handleAdminResetUser (id : Id) (body : Except String String) (actor : User) : Task Reply := do
  let confirmEmail ← decodeJSON body
  let user ← orStoreError (← call (.userByID id))
  if confirmEmail ≠ user.email then .throw (badRequest "confirmEmail does not match this account")
  else do
    let token ← orStoreError (← call (.resetUser id actor.id))
    pure (.invite none token)

def userReferencedMessage : String :=
  "this account created a collection or granted a membership. " ++
    "Delete or reassign those collections first, or disable the account instead."

def handleAdminDeleteUser (id : Id) (actor : User) : Task Reply := do
  match ← call (.deleteUser id actor.id) with
  | .error .lastAdmin => .throw onlyAdministrator
  | .error .userReferenced => .throw (conflict userReferencedMessage)
  | .error e => .throw (writeStoreError e)
  | .ok () => pure .noContent

/-! ## Requests side by side -/

inductive Request
  | createCollection (body : Except String CreateCollectionRequest)
  | listCollections
  | listPendingGrants
  | deleteCollection (id : Id)
  | listMembers (collectionID : Id)
  | addMember (collectionID : Id) (body : Except String AddMemberRequest)
  | removeMember (collectionID userID : Id)
  | fulfilGrant (collectionID : Id) (body : Except String FulfilGrantRequest)
  | adminCreateUser (body : Except String CreateUserRequest)
  | adminReissueInvite (id : Id)
  | adminPatchUser (id : Id) (body : Except String String)
  | adminResetUser (id : Id) (body : Except String String)
  | adminDeleteUser (id : Id)

/-- As the routes have it. -/
def Request.serve (token : Option String) : Request → Task Reply
  | createCollection body => requireAdmin token (handleCreateCollection body)
  | listCollections => requireAuth token handleListCollections
  | listPendingGrants => requireAuth token handleListPendingGrants
  | deleteCollection id => requireAdmin token (handleDeleteCollection id)
  | listMembers c => requireAuth token (handleListMembers c)
  | addMember c body => requireAuth token (handleAddMember c body)
  | removeMember c u => requireAuth token (handleRemoveMember c u)
  | fulfilGrant c body => requireAuth token (handleFulfilGrant c body)
  | adminCreateUser body => requireAdmin token (handleAdminCreateUser body)
  | adminReissueInvite id => requireAdmin token (handleAdminReissueInvite id)
  | adminPatchUser id body => requireAdmin token (handleAdminPatchUser id body)
  | adminResetUser id body => requireAdmin token (handleAdminResetUser id body)
  | adminDeleteUser id => requireAdmin token (handleAdminDeleteUser id)

inductive Job
  | request (token : Option String) (request : Request)
  | other (c : Command) (elsewhere : Elsewhere c = true)

def Job.body : Job → Task Reply
  | request token req => req.serve token
  | other c _ => do
    let _ ← call (.run c)
    pure .noContent

abbrev Pool : Type := Await.Pool Server Job Cmd.Answer Response Reply

abbrev Event : Type := Await.Event Job Cmd.Answer Response

abbrev Step : Pool → Event → Pool → Prop := Await.Step Exec Job.body

def start : Pool := ⟨Server.fresh, fun _ => none⟩

end Keyhole.Http.Managing
