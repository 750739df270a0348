import Keyhole.Http.Auth
import Keyhole.Http.Items

/-!
# The account requests, each in one piece

What a handler answers and what it leaves, with nothing in between. The
rate limits are left out.
-/

namespace Keyhole.Http
open Store Sql

abbrev Reply (α : Type) : Type := Except Response α × Db

/-- The salts are those of `HashAuthHash`. -/
structure Draw extends Drawn where
  authSalt : String
  recoverySalt : String
  deriving DecidableEq, Repr

def badRequest (message : String) : Response := .error 400 "bad_request" message

def unauthorized (message : String) : Response := .error 401 "unauthorized" message

def internalError (message : String) : Response := .error 500 "internal" message

def requiredField (field : String) : Response := badRequest ("field \"" ++ field ++ "\" is required")

def unpinned (field : String) : Response :=
  badRequest (field ++ " must match the server's current KDF parameters exactly")

/-! ## Signing in -/

/-- What the server answers for an address that cannot be unlocked, under its secret. -/
structure Decoys where
  salt : String → String
  recoverySalt : String → String

structure PreloginResponse where
  kdfSalt : String
  params : String
  deriving DecidableEq, Repr

def handlePrelogin (decoys : Decoys) (email : String) (db : Db) : PreloginResponse :=
  match userByEmail email db with
  | .ok user =>
    match user.status, user.kdfSalt, user.kdfParams with
    | .active, some kdfSalt, some params => ⟨kdfSalt, params⟩
    | _, _, _ => ⟨decoys.salt email, defaultKDFParamsJSON⟩
  | .error _ => ⟨decoys.salt email, defaultKDFParamsJSON⟩

structure LoginResponse where
  accessToken : String
  refreshToken : String
  protectedUserKey : String
  encryptedPrivateKey : String
  id : Id
  email : String
  name : String
  role : UserRole
  deriving DecidableEq, Repr

def handleLogin (email authHash deviceLabel : String) (now : Time) (draw : Draw) (db : Db) : Reply LoginResponse :=
  let found := (userByEmail email db).toOption
  let ok := verifyAuthHash authHash ((found.bind User.authHash).getD dummyAuthHash)
  match found with
  | none => (.error (unauthorized "email or master password is incorrect"), db)
  | some user =>
    if ok && user.status = .active then
      match createSession now draw.id draw.token draw.refresh user.id deviceLabel db with
      | (.ok _, db) =>
        (.ok {
          accessToken := draw.token
          refreshToken := draw.refresh
          protectedUserKey := user.protectedUserKey.getD ""
          encryptedPrivateKey := user.encryptedPrivateKey.getD ""
          id := user.id, email := user.email, name := user.name, role := user.role }, db)
      | (.error _, db) => (.error (internalError "could not start a session"), db)
    else (.error (unauthorized "email or master password is incorrect"), db)

structure RefreshResponse where
  accessToken : String
  refreshToken : String
  deriving DecidableEq, Repr

/-- The old refresh token is spent before the account behind it is looked at. -/
def handleRefresh (refreshToken : String) (now : Time) (draw : Draw) (db : Db) : Reply RefreshResponse :=
  match rotateSession now refreshToken draw.token draw.refresh db with
  | (.error .notFound, db) => (.error (unauthorized "this session is no longer valid"), db)
  | (.error _, db) => (.error (internalError "could not refresh the session"), db)
  | (.ok session, db) =>
    match userByID session.userID db with
    | .ok user =>
      if user.status = .active then (.ok ⟨draw.token, draw.refresh⟩, db)
      else (.error (unauthorized "this session is no longer valid"), db)
    | .error _ => (.error (unauthorized "this session is no longer valid"), db)

/-- `requireAuth` around a handler. -/
def withAuth {α : Type} (token : Option String) (now : Time) (db : Db) (next : User → Session → Db → Reply α) :
    Reply α :=
  match token with
  | none | some "" => (.error (unauthorized "authentication required"), db)
  | some token =>
    match requireAuth now token db with
    | none => (.error (unauthorized "authentication required"), db)
    | some (user, session) => next user session (touchSession now session.id db)

/-! ## Enrolling -/

structure EnrollRequest where
  kdfSalt : String
  params : String
  authHash : String
  protectedUserKey : String
  publicKey : String
  encryptedPrivateKey : String
  recoverySalt : String
  recoveryProtectedUserKey : String
  recoveryKdfParams : String
  recoveryAuthHash : String
  deriving DecidableEq, Repr

def EnrollRequest.input (req : EnrollRequest) (draw : Draw) : EnrollmentInput where
  kdfSalt := req.kdfSalt
  kdfParams := req.params
  authHash := hashAuthHash draw.authSalt req.authHash
  protectedUserKey := req.protectedUserKey
  publicKey := req.publicKey
  encryptedPrivateKey := req.encryptedPrivateKey
  recoverySalt := req.recoverySalt
  recoveryProtectedUserKey := req.recoveryProtectedUserKey
  recoveryKDFParams := req.recoveryKdfParams
  recoveryAuthHash := hashAuthHash draw.recoverySalt req.recoveryAuthHash

def setupLinkGone : Response := .error 404 "not_found" "this setup link is no longer valid"

def handleEnroll (token : String) (req : EnrollRequest) (now : Time) (draw : Draw) (db : Db) : Reply Id :=
  if token = "" then (.error (.error 404 "not_found" "invalid setup link"), db)
  else if req.authHash = "" then (.error (requiredField "authHash"), db)
  else if req.recoveryAuthHash = "" then (.error (requiredField "recoveryAuthHash"), db)
  else
    match inviteByToken now token db with
    | .error _ => (.error setupLinkGone, db)
    | .ok _ =>
      match completeEnrollment now token (req.input draw) db with
      | (.ok user, db) => (.ok user.id, db)
      | (.error .notFound, db) => (.error setupLinkGone, db)
      | (.error (.validation field message), db) => (.error (badRequest (validationMessage field message)), db)
      | (.error _, db) => (.error (internalError "could not complete setup"), db)

/-! ## Replacing a credential -/

def checkCurrentCredential (user : User) (currentAuthHash : String) : Except Response Unit :=
  if verifyCurrentCredential user currentAuthHash then .ok ()
  else .error (unauthorized "master password is incorrect")

def written (result : Except StoreError Unit × Db) : Reply Unit :=
  match result with
  | (.ok (), db) => (.ok (), db)
  | (.error e, db) => (.error (writeStoreError e), db)

structure RotatePasswordRequest where
  currentAuthHash : String
  kdfSalt : String
  params : String
  authHash : String
  protectedUserKey : String
  deriving DecidableEq, Repr

def RotatePasswordRequest.input (req : RotatePasswordRequest) (draw : Draw) : PasswordRotation where
  kdfSalt := req.kdfSalt
  kdfParams := req.params
  authHash := hashAuthHash draw.authSalt req.authHash
  protectedUserKey := req.protectedUserKey

def handleRotatePassword (req : RotatePasswordRequest) (token : Option String) (now : Time) (draw : Draw)
    (db : Db) :
    Reply Unit :=
  withAuth token now db fun user session db =>
    if req.authHash = "" then (.error (badRequest "authHash is required"), db)
    else if req.params ≠ defaultKDFParamsJSON then (.error (unpinned "params"), db)
    else
      match checkCurrentCredential user req.currentAuthHash with
      | .error r => (.error r, db)
      | .ok () => written (rotatePassword now draw.id user.id (req.input draw) session.id db)

structure RotateRecoveryRequest where
  currentAuthHash : String
  recoverySalt : String
  recoveryKdfParams : String
  recoveryProtectedUserKey : String
  recoveryAuthHash : String
  deriving DecidableEq, Repr

def RotateRecoveryRequest.input (req : RotateRecoveryRequest) (draw : Draw) : RecoveryRotation where
  recoverySalt := req.recoverySalt
  recoveryKDFParams := req.recoveryKdfParams
  recoveryProtectedUserKey := req.recoveryProtectedUserKey
  recoveryAuthHash := hashAuthHash draw.recoverySalt req.recoveryAuthHash

def handleRotateRecovery (req : RotateRecoveryRequest) (token : Option String) (now : Time) (draw : Draw)
    (db : Db) :
    Reply Unit :=
  withAuth token now db fun user _ db =>
    if req.recoveryAuthHash = "" then (.error (requiredField "recoveryAuthHash"), db)
    else if req.recoveryKdfParams ≠ defaultKDFParamsJSON then (.error (unpinned "recoveryKdfParams"), db)
    else
      match checkCurrentCredential user req.currentAuthHash with
      | .error r => (.error r, db)
      | .ok () => written (rotateRecovery now draw.id user.id (req.input draw) db)

/-! ## Redeeming a recovery code -/

structure RecoverPreloginResponse where
  recoverySalt : String
  recoveryKdfParams : String
  deriving DecidableEq, Repr

def handleRecoverPrelogin (decoys : Decoys) (email : String) (db : Db) : RecoverPreloginResponse :=
  match userByEmail email db with
  | .ok user =>
    match user.status, user.recoveryAuthHash, user.recoverySalt, user.recoveryKDFParams with
    | .active, some _, some recoverySalt, some params => ⟨recoverySalt, params⟩
    | _, _, _, _ => ⟨decoys.recoverySalt email, defaultKDFParamsJSON⟩
  | .error _ => ⟨decoys.recoverySalt email, defaultKDFParamsJSON⟩

structure RecoverResponse where
  recoveryProtectedUserKey : String
  encryptedPrivateKey : String
  recoveryToken : String
  expiresIn : Nat
  deriving DecidableEq, Repr

def handleRecover (email recoveryAuthHash : String) (now : Time) (draw : Draw) (db : Db) : Reply RecoverResponse :=
  let found := (userByEmail email db).toOption
  let ok := verifyAuthHash recoveryAuthHash ((found.bind User.recoveryAuthHash).getD dummyAuthHash)
  match found with
  | none => (.error (unauthorized "email or recovery code is incorrect"), db)
  | some user =>
    if ok && user.status = .active then
      match createRecoveryToken now draw.id draw.token user.id recoveryTokenTTL db with
      | (.ok token, db) =>
        (.ok {
          recoveryProtectedUserKey := user.recoveryProtectedUserKey.getD ""
          encryptedPrivateKey := user.encryptedPrivateKey.getD ""
          recoveryToken := token
          expiresIn := recoveryTokenTTL / second }, db)
      | (.error _, db) => (.error (internalError "could not start the recovery"), db)
    else (.error (unauthorized "email or recovery code is incorrect"), db)

structure RecoverCompleteRequest where
  recoveryToken : String
  kdfSalt : String
  params : String
  authHash : String
  protectedUserKey : String
  recoverySalt : String
  recoveryKdfParams : String
  recoveryProtectedUserKey : String
  recoveryAuthHash : String
  deriving DecidableEq, Repr

def RecoverCompleteRequest.password (req : RecoverCompleteRequest) (draw : Draw) : PasswordRotation where
  kdfSalt := req.kdfSalt
  kdfParams := req.params
  authHash := hashAuthHash draw.authSalt req.authHash
  protectedUserKey := req.protectedUserKey

def RecoverCompleteRequest.recovery (req : RecoverCompleteRequest) (draw : Draw) : RecoveryRotation where
  recoverySalt := req.recoverySalt
  recoveryKDFParams := req.recoveryKdfParams
  recoveryProtectedUserKey := req.recoveryProtectedUserKey
  recoveryAuthHash := hashAuthHash draw.recoverySalt req.recoveryAuthHash

def recoveryGone : Response := unauthorized "this recovery session is no longer valid"

def handleRecoverComplete (req : RecoverCompleteRequest) (now : Time) (draw : Draw) (db : Db) : Reply Unit :=
  if req.authHash = "" then (.error (requiredField "authHash"), db)
  else if req.recoveryAuthHash = "" then (.error (requiredField "recoveryAuthHash"), db)
  else if req.params ≠ defaultKDFParamsJSON then (.error (unpinned "params"), db)
  else if req.recoveryKdfParams ≠ defaultKDFParamsJSON then (.error (unpinned "recoveryKdfParams"), db)
  else
    match recoveryTokenByToken now req.recoveryToken db with
    | .error _ => (.error recoveryGone, db)
    | .ok _ =>
      match completeRecovery now draw.id req.recoveryToken (req.password draw) (req.recovery draw) db with
      | (.ok (), db) => (.ok (), db)
      | (.error .notFound, db) => (.error recoveryGone, db)
      | (.error (.validation field message), db) => (.error (badRequest (validationMessage field message)), db)
      | (.error _, db) => (.error (internalError "could not complete the recovery"), db)

/-! ## What each of them leaves -/

section
variable {now : Time} {draw : Draw} {db : Db}

theorem withAuth_cases {α : Type} (token : Option String) (now : Time) (db : Db)
    (next : User → Session → Db → Reply α) :
    (∃ r, withAuth token now db next = (.error r, db)) ∨
    ∃ t user session, token = some t ∧ session ∈ db.sessions ∧ session.tokenHash = hashToken t ∧
      db.users.get? session.userID = some user ∧ user.status = .active ∧
      withAuth token now db next = next user session (touchSession now session.id db) := by
  unfold withAuth
  split
  · exact Or.inl ⟨_, rfl⟩
  · exact Or.inl ⟨_, rfl⟩
  · rename_i t _
    cases ha : requireAuth now t db with
    | none => exact Or.inl ⟨_, rfl⟩
    | some found =>
      obtain ⟨user, session⟩ := found
      obtain ⟨hs, hu, hact⟩ := requireAuth_some ha
      obtain ⟨hm, hh, -⟩ := sessionByAccessToken_ok hs
      exact Or.inr ⟨t, user, session, rfl, hm, hh, hu, hact, rfl⟩

theorem handleLogin_cases (email authHash deviceLabel : String) (now : Time) (draw : Draw) (db : Db) :
    (∃ r, handleLogin email authHash deviceLabel now draw db = (.error r, db)) ∨
    ∃ user sessions, userByEmail email db = .ok user ∧
      verifyAuthHash authHash (user.authHash.getD dummyAuthHash) = true ∧ user.status = .active ∧
      db.sessions.insert? (newSession now draw.id draw.token draw.refresh user.id deviceLabel) = some sessions ∧
      hashesFree db (newSession now draw.id draw.token draw.refresh user.id deviceLabel) = true ∧
      handleLogin email authHash deviceLabel now draw db = (.ok {
        accessToken := draw.token
        refreshToken := draw.refresh
        protectedUserKey := user.protectedUserKey.getD ""
        encryptedPrivateKey := user.encryptedPrivateKey.getD ""
        id := user.id, email := user.email, name := user.name, role := user.role }, { db with sessions }) := by
  unfold handleLogin
  cases hu : userByEmail email db with
  | error e => exact Or.inl ⟨_, rfl⟩
  | ok user =>
    simp only [Except.toOption, Option.bind_some]
    by_cases hv : (verifyAuthHash authHash (user.authHash.getD dummyAuthHash) && user.status = .active) = true
    · simp only [hv, if_true]
      rw [Bool.and_eq_true, decide_eq_true_eq] at hv
      rcases insert_cases (wrap "insert session")
          (insertSession (newSession now draw.id draw.token draw.refresh user.id deviceLabel))
          (newSession now draw.id draw.token draw.refresh user.id deviceLabel) db with ⟨db', hi, hc⟩ | ⟨e, hc⟩
      · have hc' : createSession now draw.id draw.token draw.refresh user.id deviceLabel db = (.ok _, db') := hc
        obtain ⟨sessions, hins, hf, -, rfl⟩ := insertSession_ok hi
        rw [hc']
        exact Or.inr ⟨user, sessions, rfl, hv.1, hv.2, hins, hf, rfl⟩
      · have hc' : createSession now draw.id draw.token draw.refresh user.id deviceLabel db = (.error e, db) := hc
        rw [hc']
        exact Or.inl ⟨_, rfl⟩
    · simp only [hv]
      exact Or.inl ⟨_, rfl⟩

theorem handleRefresh_cases (refreshToken : String) (now : Time) (draw : Draw) (db : Db) :
    (∃ r, handleRefresh refreshToken now draw db = (.error r, db)) ∨
    ∃ s, s ∈ db.sessions ∧ s.refreshHash = hashToken refreshToken ∧
      hashesFree db (s.rotated now draw.token draw.refresh) = true ∧
      (handleRefresh refreshToken now draw db).2 =
        { db with sessions := db.sessions.upsert (s.rotated now draw.token draw.refresh) } ∧
      ∀ tokens, (handleRefresh refreshToken now draw db).1 = .ok tokens →
        tokens = ⟨draw.token, draw.refresh⟩ := by
  unfold handleRefresh rotateSession
  cases hs : sessionByRefreshToken now refreshToken db with
  | error e => cases e <;> exact Or.inl ⟨_, rfl⟩
  | ok session =>
    rcases rotateSession_cases now session refreshToken draw.token draw.refresh db with ⟨s', hx, hr⟩ | ⟨e, h⟩
    · obtain ⟨s, hg, hh, -, hf, -, hdb⟩ := rotateSessionTx_ok hx
      have h : (rotateSessionTx now session refreshToken draw.token draw.refresh).autocommit db =
          (.ok s', { db with sessions := db.sessions.upsert (s.rotated now draw.token draw.refresh) }) :=
        Prod.ext hr hdb
      simp only [h]
      right
      refine ⟨s, (Table.get?_eq_some.mp hg).1, hh, hf, ?_, ?_⟩
      · split
        · split <;> rfl
        · rfl
      · intro tokens ht
        split at ht
        · split at ht
          · cases ht; rfl
          · cases ht
        · cases ht
    · simp only [h]
      cases e <;> exact Or.inl ⟨_, rfl⟩

theorem checkCurrentCredential_cases (user : User) (currentAuthHash : String) :
    (∃ r, checkCurrentCredential user currentAuthHash = .error r) ∨
    verifyCurrentCredential user currentAuthHash = true ∧ checkCurrentCredential user currentAuthHash = .ok () := by
  unfold checkCurrentCredential
  by_cases hv : verifyCurrentCredential user currentAuthHash = true
  · exact Or.inr ⟨hv, by simp [hv]⟩
  · exact Or.inl ⟨_, by simp [hv]; rfl⟩

theorem rotatePassword_written (now : Time) (db : Db) (auditID userID : Id) (inp : PasswordRotation) (keep : Id) :
    (∃ r, written (rotatePassword now auditID userID inp keep db) = (.error r, db)) ∨
    ∃ u auditLog, db.users.get? userID = some u ∧
      written (rotatePassword now auditID userID inp keep db) = (.ok (), { db with
        users := db.users.upsert (u.passwordRotated now inp)
        sessions := endOtherSessions now userID keep db.sessions
        auditLog }) := by
  unfold rotatePassword
  cases inp.validate with
  | error e => exact Or.inl ⟨_, rfl⟩
  | ok _ =>
    rcases Prog.transact_cases (rotatePasswordTx now auditID userID inp keep) db with ⟨_, db', hx, ht⟩ | ⟨e, ht⟩
    · obtain ⟨u, auditLog, hu, -, rfl⟩ := rotatePasswordTx_ok hx
      simp only [ht]
      exact Or.inr ⟨u, auditLog, hu, rfl⟩
    · simp only [ht]
      exact Or.inl ⟨_, rfl⟩

theorem handleRotatePassword_cases (req : RotatePasswordRequest) (token : Option String) (now : Time) (draw : Draw)
    (db : Db) :
    (∃ r, handleRotatePassword req token now draw db = (.error r, db)) ∨
    ∃ t user session, token = some t ∧ session ∈ db.sessions ∧ session.tokenHash = hashToken t ∧
      db.users.get? session.userID = some user ∧
      ((∃ r, handleRotatePassword req token now draw db = (.error r, touchSession now session.id db)) ∨
      ∃ auditLog, handleRotatePassword req token now draw db = (.ok (), { db with
        users := db.users.upsert (user.passwordRotated now (req.input draw))
        sessions := endOtherSessions now user.id session.id (touchSession now session.id db).sessions
        auditLog })) := by
  unfold handleRotatePassword
  rcases withAuth_cases token now db _ with ⟨r, h⟩ | ⟨t, user, session, ht, hs, hh, hu, -, h⟩
  · exact Or.inl ⟨r, h⟩
  · right
    refine ⟨t, user, session, ht, hs, hh, hu, ?_⟩
    rw [h]
    by_cases ha : req.authHash = ""
    · simp only [ha, if_true]
      exact Or.inl ⟨_, rfl⟩
    · by_cases hp : req.params = defaultKDFParamsJSON
      · simp only [ha, hp, if_false, ne_eq, not_true_eq_false]
        rcases checkCurrentCredential_cases user req.currentAuthHash with ⟨r, hc⟩ | ⟨-, hc⟩
        · simp only [hc]
          exact Or.inl ⟨r, rfl⟩
        · simp only [hc]
          have hid : user.id = session.userID := (Table.get?_eq_some.mp hu).2
          rcases rotatePassword_written now (touchSession now session.id db) draw.id user.id
              (req.input draw) session.id with ⟨r, hw⟩ | ⟨u, auditLog, hg, hw⟩
          · exact Or.inl ⟨r, hw⟩
          · have hg' : db.users.get? user.id = some u := hg
            rw [hid, hu] at hg'
            cases hg'
            exact Or.inr ⟨auditLog, hw⟩
      · simp only [ha, hp, if_false, ne_eq, not_false_eq_true, if_true]
        exact Or.inl ⟨_, rfl⟩

theorem rotateRecovery_written (now : Time) (db : Db) (auditID userID : Id) (inp : RecoveryRotation) :
    (∃ r, written (rotateRecovery now auditID userID inp db) = (.error r, db)) ∨
    ∃ u auditLog answer, db.users.get? userID = some u ∧ u.status = .active ∧ inp.validate = .ok () ∧
      written (rotateRecovery now auditID userID inp db) = (answer, { db with
        users := db.users.upsert (u.recoveryRotated now inp)
        auditLog }) := by
  unfold rotateRecovery
  cases hv : inp.validate with
  | error e => exact Or.inl ⟨_, rfl⟩
  | ok _ =>
    simp only [rotateRecoveryProg, Prog.autocommit_bind]
    have hzero := updateUserRow_zero db (fun user => user.id = userID && user.status = .active)
      (fun user => user.recoveryRotated now inp) fun _ => rfl
    rcases guarded_cases (e := .notFound) hzero with ⟨hx, ha⟩ | ⟨-, ha⟩
    · have hx' : (writeRecoveryCredential now userID inp).exec db = _ := hx
      have ha' : (writeRecoveryCredential now userID inp).autocommit db = _ := ha
      obtain ⟨u, hu, hact, hdb⟩ := writeRecoveryCredential_ok hx'
      rw [hdb] at ha'
      obtain ⟨auditLog, ht⟩ :=
        autocommit_appendAudit auditID now userID "account.recovery.rotate" ("user:" ++ userID)
        [] { db with users := db.users.upsert (u.recoveryRotated now inp) }
      rw [ha']
      right
      refine ⟨u, auditLog, _, hu, hact, trivial, Prod.ext rfl ?_⟩
      rw [← ht]
      unfold written
      split
      · rename_i h; exact (congrArg Prod.snd h).symm
      · rename_i h; exact (congrArg Prod.snd h).symm
    · have ha' : (writeRecoveryCredential now userID inp).autocommit db = _ := ha
      rw [ha']
      exact Or.inl ⟨_, rfl⟩

theorem handleRotateRecovery_cases (req : RotateRecoveryRequest) (token : Option String) (now : Time) (draw : Draw)
    (db : Db) :
    (∃ r, handleRotateRecovery req token now draw db = (.error r, db)) ∨
    ∃ t user session, token = some t ∧ session ∈ db.sessions ∧ session.tokenHash = hashToken t ∧
      db.users.get? session.userID = some user ∧
      ((∃ r, handleRotateRecovery req token now draw db = (.error r, touchSession now session.id db)) ∨
      ∃ auditLog answer, handleRotateRecovery req token now draw db = (answer, { touchSession now session.id db with
        users := db.users.upsert (user.recoveryRotated now (req.input draw))
        auditLog })) := by
  unfold handleRotateRecovery
  rcases withAuth_cases token now db _ with ⟨r, h⟩ | ⟨t, user, session, ht, hs, hh, hu, -, h⟩
  · exact Or.inl ⟨r, h⟩
  · right
    refine ⟨t, user, session, ht, hs, hh, hu, ?_⟩
    rw [h]
    by_cases ha : req.recoveryAuthHash = ""
    · simp only [ha, if_true]
      exact Or.inl ⟨_, rfl⟩
    · by_cases hp : req.recoveryKdfParams = defaultKDFParamsJSON
      · simp only [ha, hp, if_false, ne_eq, not_true_eq_false]
        rcases checkCurrentCredential_cases user req.currentAuthHash with ⟨r, hc⟩ | ⟨-, hc⟩
        · simp only [hc]
          exact Or.inl ⟨r, rfl⟩
        · simp only [hc]
          have hid : user.id = session.userID := (Table.get?_eq_some.mp hu).2
          rcases rotateRecovery_written now (touchSession now session.id db) draw.id user.id
              (req.input draw) with ⟨r, hw⟩ | ⟨u, auditLog, answer, hg, -, -, hw⟩
          · exact Or.inl ⟨r, hw⟩
          · have hg' : db.users.get? user.id = some u := hg
            rw [hid, hu] at hg'
            cases hg'
            exact Or.inr ⟨auditLog, answer, hw⟩
      · simp only [ha, hp, if_false, ne_eq, not_false_eq_true, if_true]
        exact Or.inl ⟨_, rfl⟩

theorem handleRecover_cases (email recoveryAuthHash : String) (now : Time) (draw : Draw) (db : Db) :
    (∃ r, handleRecover email recoveryAuthHash now draw db = (.error r, db)) ∨
    ∃ user recoveryTokens, userByEmail email db = .ok user ∧
      db.recoveryTokens.insert? (newRecoveryToken now draw.id draw.token user.id recoveryTokenTTL) =
        some recoveryTokens ∧
      (∀ rt ∈ db.recoveryTokens, rt.tokenHash ≠ hashToken draw.token) ∧
      handleRecover email recoveryAuthHash now draw db = (.ok {
        recoveryProtectedUserKey := user.recoveryProtectedUserKey.getD ""
        encryptedPrivateKey := user.encryptedPrivateKey.getD ""
        recoveryToken := draw.token
        expiresIn := recoveryTokenTTL / second }, { db with recoveryTokens }) := by
  unfold handleRecover
  cases hu : userByEmail email db with
  | error e => exact Or.inl ⟨_, rfl⟩
  | ok user =>
    simp only [Except.toOption, Option.bind_some]
    by_cases hv : (verifyAuthHash recoveryAuthHash (user.recoveryAuthHash.getD dummyAuthHash) &&
        user.status = .active) = true
    · simp only [hv, if_true]
      rcases insert_cases (wrap "insert recovery token")
          (insertRecoveryToken (newRecoveryToken now draw.id draw.token user.id recoveryTokenTTL))
            draw.token db with
        ⟨db', hi, hc⟩ | ⟨e, hc⟩
      · have hc' : createRecoveryToken now draw.id draw.token user.id recoveryTokenTTL db = (.ok draw.token, db') :=
          hc
        obtain ⟨recoveryTokens, hins, hf, -, rfl⟩ := insertRecoveryToken_ok hi
        simp only [hc']
        exact Or.inr ⟨user, recoveryTokens, rfl, hins, hf, rfl⟩
      · have hc' : createRecoveryToken now draw.id draw.token user.id recoveryTokenTTL db = (.error e, db) := hc
        simp only [hc']
        exact Or.inl ⟨_, rfl⟩
    · simp only [hv]
      exact Or.inl ⟨_, rfl⟩

theorem handleRecoverComplete_cases (req : RecoverCompleteRequest) (now : Time) (draw : Draw) (db : Db) :
    (∃ r, handleRecoverComplete req now draw db = (.error r, db)) ∨
    ∃ rt u auditLog, rt ∈ db.recoveryTokens ∧ rt.tokenHash = hashToken req.recoveryToken ∧
      db.users.get? rt.userID = some u ∧
      handleRecoverComplete req now draw db = (.ok (), { db with
        recoveryTokens := retireTokens now rt.id rt.userID db.recoveryTokens
        users := db.users.upsert
          ((u.passwordRotated now (req.password draw)).recoveryRotated now (req.recovery draw))
        sessions := endOtherSessions now rt.userID "" db.sessions
        auditLog }) := by
  unfold handleRecoverComplete
  split
  · exact Or.inl ⟨_, rfl⟩
  split
  · exact Or.inl ⟨_, rfl⟩
  split
  · exact Or.inl ⟨_, rfl⟩
  split
  · exact Or.inl ⟨_, rfl⟩
  cases hrt : recoveryTokenByToken now req.recoveryToken db with
  | error e => exact Or.inl ⟨_, rfl⟩
  | ok rt =>
    unfold completeRecovery
    cases hp : (req.password draw).validate with
    | error e => left; cases e <;> exact ⟨_, rfl⟩
    | ok _ =>
      cases hr : (req.recovery draw).validate with
      | error e => left; cases e <;> exact ⟨_, rfl⟩
      | ok _ =>
        simp only [hrt]
        rcases Prog.transact_cases
          (completeRecoveryTx now draw.id rt (req.password draw) (req.recovery draw)) db with
          ⟨_, db', hx, ht⟩ | ⟨e, ht⟩
        · obtain ⟨_, u, auditLog, -, -, hu, -, rfl⟩ := completeRecoveryTx_ok hx
          obtain ⟨hm, hh, -, -⟩ := recoveryTokenByToken_ok hrt
          simp only [ht]
          exact Or.inr ⟨rt, u, auditLog, hm, hh, hu, rfl⟩
        · simp only [ht]
          left
          cases e <;> exact ⟨_, rfl⟩

theorem handleEnroll_cases (token : String) (req : EnrollRequest) (now : Time) (draw : Draw) (db : Db) :
    (∃ r, handleEnroll token req now draw db = (.error r, db)) ∨
    ∃ (invite inv : Invite) (u : User), inviteByToken now token db = .ok invite ∧
      db.users.get? invite.userID = some u ∧
      u.status = .pending ∧
      handleEnroll token req now draw db = (.ok u.id, { db with
        invites := db.invites.upsert (inv.spent now)
        users := db.users.upsert (u.enrolled now (req.input draw)) }) := by
  unfold handleEnroll
  split
  · exact Or.inl ⟨_, rfl⟩
  split
  · exact Or.inl ⟨_, rfl⟩
  split
  · exact Or.inl ⟨_, rfl⟩
  cases hi : inviteByToken now token db with
  | error e => exact Or.inl ⟨_, rfl⟩
  | ok invite =>
    unfold completeEnrollment
    cases (req.input draw).validate with
    | error e => left; cases e <;> exact ⟨_, rfl⟩
    | ok _ =>
      simp only [hi]
      rcases Prog.transact_cases (completeEnrollmentTx now invite (req.input draw)) db with
        ⟨_, db', hx, ht⟩ | ⟨e, ht⟩
      · obtain ⟨inv, u, -, -, hu, hs, rfl, rfl⟩ := completeEnrollmentTx_ok hx
        simp only [ht]
        exact Or.inr ⟨invite, inv, u, rfl, hu, hs, rfl⟩
      · simp only [ht]
        left
        cases e <;> exact ⟨_, rfl⟩

end

end Keyhole.Http
