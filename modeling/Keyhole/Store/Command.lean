import Keyhole.Lib.Run
import Keyhole.Store.Admin
import Keyhole.Store.Recovery
import Keyhole.Store.Sync

/-!
# The server as a state machine

A command is one write of the store, with the time it runs at and what it
draws at random. SQLite admits one writer, so a run of the server is a list
of commands. Enrollment, recovery and refresh are here as the write that
follows their lookup.
-/

namespace Keyhole.Store

inductive Command
  | createItem (now : Time) (id ownerUserID : Id) (inp : ItemInput)
  | createItemsBulk (now : Time) (ids : List Id) (ownerUserID : Id) (ins : List ItemInput)
  | updateItem (now : Time) (id : Id) (expectedRevision : Int) (inp : ItemInput)
  | deleteItem (now : Time) (id : Id)
  | createFolder (now : Time) (id userID : Id) (encryptedName : String)
  | updateFolder (now : Time) (id : Id) (expectedRevision : Int) (encryptedName : String)
  | deleteFolder (now : Time) (id : Id)
  | createCollection (now : Time) (id auditID : Id) (name : String) (createdBy : Id) (sealedKey : String)
  | deleteCollection (id : Id)
  | fulfilGrantOrAdd (now : Time) (auditID collectionID userID : Id) (sealedKey role : String) (grantedBy : Id)
  | removeMember (now : Time) (auditID collectionID userID removedBy : Id)
  | createPendingGrant (now : Time) (auditID collectionID userID role requestedBy : Id)
  | fulfilGrant (now : Time) (auditID collectionID userID : Id) (sealedKey : String) (grantedBy : Id)
  | setUserStatus (now : Time) (auditID userID : Id) (status : String) (actorID : Id)
  | resetUser (now : Time) (inviteID auditID : Id) (token : String) (userID actorID : Id)
  | deleteUser (now : Time) (auditID userID actorID : Id)
  | purgeTombstones (now : Time) (auditID : Id) (olderThan : Time)
  | createPendingUser (now : Time) (id : Id) (email name role : String)
  | createInvite (now : Time) (id : Id) (token : String) (userID : Id) (ttl : Time)
  | completeEnrollment (now : Time) (invite : Invite) (inp : EnrollmentInput)
  | createSession (now : Time) (id : Id) (accessToken refreshToken : String) (userID : Id) (deviceLabel : String)
  | rotateSession (now : Time) (session : Session) (refreshToken newAccess newRefresh : String)
  | touchSession (now : Time) (id : Id)
  | revokeSession (now : Time) (id : Id)
  | revokeSessionForUser (now : Time) (id userID : Id)
  | rotatePassword (now : Time) (auditID userID : Id) (inp : PasswordRotation) (keepSessionID : Id)
  | rotateRecovery (now : Time) (auditID userID : Id) (inp : RecoveryRotation)
  | createRecoveryToken (now : Time) (id : Id) (token : String) (userID : Id) (ttl : Time)
  | completeRecovery (now : Time) (auditID : Id) (rt : RecoveryToken) (password : PasswordRotation)
      (recovery : RecoveryRotation)

namespace Command

def run : Command → Db → Db
  | createItem now id owner inp, db => (Store.createItem now id owner inp db).2
  | createItemsBulk now ids owner ins, db => (Store.createItemsBulk now ids owner ins db).2
  | updateItem now id expected inp, db => (Store.updateItem now id expected inp db).2
  | deleteItem now id, db => (Store.deleteItem now id db).2
  | createFolder now id userID name, db => (Store.createFolder now id userID name db).2
  | updateFolder now id expected name, db => (Store.updateFolder now id expected name db).2
  | deleteFolder now id, db => (Store.deleteFolder now id db).2
  | createCollection now id auditID name by_ key, db => (Store.createCollection now id auditID name by_ key db).2
  | deleteCollection id, db => (Store.deleteCollection id db).2
  | fulfilGrantOrAdd now auditID c u key role by_, db => (Store.fulfilGrantOrAdd now auditID c u key role by_ db).2
  | removeMember now auditID c u by_, db => (Store.removeMember now auditID c u by_ db).2
  | createPendingGrant now auditID c u role by_, db => (Store.createPendingGrant now auditID c u role by_ db).2
  | fulfilGrant now auditID c u key by_, db => (Store.fulfilGrant now auditID c u key by_ db).2
  | setUserStatus now auditID u status actor, db => (Store.setUserStatus now auditID u status actor db).2
  | resetUser now inviteID auditID token u actor, db => (Store.resetUser now inviteID auditID token u actor db).2
  | deleteUser now auditID u actor, db => (Store.deleteUser now auditID u actor db).2
  | purgeTombstones now auditID olderThan, db => (Store.purgeTombstones now auditID olderThan db).2
  | createPendingUser now id email name role, db => (Store.createPendingUser now id email name role db).2
  | createInvite now id token u ttl, db => (Store.createInvite now id token u ttl db).2
  | completeEnrollment now invite inp, db => ((completeEnrollmentTx now invite inp).transact db).2
  | createSession now id access refresh u label, db => (Store.createSession now id access refresh u label db).2
  | rotateSession now session refresh access' refresh', db =>
    ((rotateSessionTx now session refresh access' refresh').autocommit db).2
  | touchSession now id, db => Store.touchSession now id db
  | revokeSession now id, db => (Store.revokeSession now id db).2
  | revokeSessionForUser now id u, db => (Store.revokeSessionForUser now id u db).2
  | rotatePassword now auditID u inp keep, db => (Store.rotatePassword now auditID u inp keep db).2
  | rotateRecovery now auditID u inp, db => (Store.rotateRecovery now auditID u inp db).2
  | createRecoveryToken now id token u ttl, db => (Store.createRecoveryToken now id token u ttl db).2
  | completeRecovery now auditID rt password recovery, db =>
    ((completeRecoveryTx now auditID rt password recovery).transact db).2

def draws : Command → List String
  | createItem _ id _ _ => [id]
  | createItemsBulk _ ids _ _ => ids
  | createFolder _ id _ _ => [id]
  | createCollection _ id auditID _ _ _ => [id, auditID]
  | fulfilGrantOrAdd _ auditID _ _ _ _ _ => [auditID]
  | removeMember _ auditID _ _ _ => [auditID]
  | createPendingGrant _ auditID _ _ _ _ => [auditID]
  | fulfilGrant _ auditID _ _ _ _ => [auditID]
  | setUserStatus _ auditID _ _ _ => [auditID]
  | resetUser _ inviteID auditID token _ _ => [inviteID, auditID, token]
  | deleteUser _ auditID _ _ => [auditID]
  | purgeTombstones _ auditID _ => [auditID]
  | createPendingUser _ id _ _ _ => [id]
  | createInvite _ id token _ _ => [id, token]
  | createSession _ id access refresh _ _ => [id, access, refresh]
  | rotateSession _ _ _ access' refresh' => [access', refresh']
  | rotatePassword _ auditID _ _ _ => [auditID]
  | rotateRecovery _ auditID _ _ => [auditID]
  | createRecoveryToken _ id token _ _ => [id, token]
  | completeRecovery _ auditID _ _ _ => [auditID]
  | updateItem .. | deleteItem .. | updateFolder .. | deleteFolder .. | deleteCollection .. | completeEnrollment ..
  | touchSession .. | revokeSession .. | revokeSessionForUser .. => []

def createsItems : Command → Bool
  | createItem .. | createItemsBulk .. => true
  | _ => false

end Command

/-- `issued` is a ghost: every draw so far. -/
structure Server where
  db : Db
  issued : List String

namespace Server

def fresh : Server := ⟨Db.fresh, []⟩

/-- 128 random bits are taken never to repeat, and never to be empty. -/
def Draws (issued draws : List String) : Prop := draws.Nodup ∧ ∀ d ∈ draws, d ≠ "" ∧ d ∉ issued

instance (issued draws : List String) : Decidable (Draws issued draws) :=
  inferInstanceAs (Decidable (_ ∧ _))

def after (s : Server) (c : Command) : Server := ⟨c.run s.db, c.draws ++ s.issued⟩

def enabled (s : Server) (c : Command) : Prop := Draws s.issued c.draws

instance (s : Server) (c : Command) : Decidable (s.enabled c) := inferInstanceAs (Decidable (Draws _ _))

def step : Server → Command → Server → Prop := Lts.Stepwise enabled after

def init (s : Server) : Prop := s = fresh

def script (s : Server) (cs : List Command) : Server := cs.foldl after s

abbrev Playable : Server → List Command → Prop := Lts.Playable enabled after

theorem run_script {s : Server} {cs : List Command} (h : s.Playable cs) : Lts.Run step s cs (s.script cs) :=
  Lts.run_script h

theorem reachable_script {cs : List Command} (h : fresh.Playable cs) : Lts.Reachable init step (fresh.script cs) :=
  ⟨fresh, cs, rfl, run_script h⟩

end Server

/-! ## The account of a scene -/

def credentials : EnrollmentInput where
  kdfSalt := "kdf-salt"
  kdfParams := defaultKDFParamsJSON
  authHash := hashAuthHash "salt-1" "password-1"
  protectedUserKey := "protected-user-key"
  publicKey := "public-key"
  encryptedPrivateKey := "encrypted-private-key"
  recoverySalt := "recovery-salt"
  recoveryProtectedUserKey := "recovery-protected-user-key"
  recoveryKDFParams := defaultKDFParamsJSON
  recoveryAuthHash := hashAuthHash "salt-2" "code-1"

/-- The user is made and invited, and enrolls. -/
def enrolls (id role : String) : List Command := [
  .createPendingUser 0 id (id ++ "@home") id role,
  .createInvite 0 (id ++ "-invite") (id ++ "-link") id inviteTTL,
  .completeEnrollment 0 (newInvite 0 (id ++ "-invite") (id ++ "-link") id inviteTTL) credentials]

end Keyhole.Store
