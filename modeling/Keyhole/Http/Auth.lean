import Keyhole.Lib.Voucher
import Keyhole.Store.Credentials

/-!
# The requests that check a credential

A handler reads a row, compares hashes outside any transaction, and then
writes. Each of the three is a step here, any number of requests are in
flight at once, and the store's other commands run between them. Beside the
server the state keeps the history of what commits did to credentials, and
for each session, recovery token and invite the point of it they go back to.
-/

namespace Keyhole.Http
open Store Sql

inductive Rotation
  | password (inp : PasswordRotation)
  | recovery (inp : RecoveryRotation)
  deriving DecidableEq, Repr

inductive Request
  | login (email authHash deviceLabel : String)
  | refresh (refreshToken : String)
  | recover (email recoveryAuthHash : String)
  | recoverComplete (token : String) (password : PasswordRotation) (recovery : RecoveryRotation)
  | enroll (token : String) (inp : EnrollmentInput)
  | rotate (accessToken currentAuthHash : String) (rotation : Rotation)
  deriving DecidableEq, Repr

/-- What a request holds between two of its steps, named after the next one. -/
inductive Task
  | verifyLogin (found : Option User) (authHash deviceLabel : String)
  | createSession (user : User) (deviceLabel : String)
  | rotateSession (session : Session) (refreshToken : String)
  | verifyRecovery (found : Option User) (recoveryAuthHash : String)
  | createRecoveryToken (user : User)
  | completeRecovery (rt : RecoveryToken) (password : PasswordRotation) (recovery : RecoveryRotation)
  | completeEnrollment (invite : Invite) (inp : EnrollmentInput)
  | loadUser (session : Session) (currentAuthHash : String) (rotation : Rotation)
  | verifyCurrent (user : User) (session : Session) (currentAuthHash : String) (rotation : Rotation)
  | rotate (user : User) (session : Session) (rotation : Rotation)
  deriving DecidableEq, Repr

def requireAuth (now : Time) (token : String) (db : Db) : Option (User × Session) :=
  match sessionByAccessToken now token db with
  | .error _ => none
  | .ok session =>
    match userByID session.userID db with
    | .error _ => none
    | .ok user => if user.status = .active then some (user, session) else none

def Request.read (now : Time) (db : Db) : Request → Option Task
  | login email authHash deviceLabel => some (.verifyLogin (userByEmail email db).toOption authHash deviceLabel)
  | refresh refreshToken => (sessionByRefreshToken now refreshToken db).toOption.map (.rotateSession · refreshToken)
  | recover email recoveryAuthHash => some (.verifyRecovery (userByEmail email db).toOption recoveryAuthHash)
  | recoverComplete token password recovery =>
    if password.validate.isOk && recovery.validate.isOk then
      (recoveryTokenByToken now token db).toOption.map (.completeRecovery · password recovery)
    else none
  | enroll token inp =>
    if inp.validate.isOk then (inviteByToken now token db).toOption.map (.completeEnrollment · inp) else none
  | rotate accessToken currentAuthHash rotation =>
    (sessionByAccessToken now accessToken db).toOption.map (.loadUser · currentAuthHash rotation)

def verifyCurrentCredential (user : User) (currentAuthHash : String) : Bool :=
  currentAuthHash ≠ "" && user.authHash.any (verifyAuthHash currentAuthHash)

/-- A step of a request that writes nothing: a comparison, or the rest of `requireAuth`. -/
def Task.advance (db : Db) : Task → Option Task
  | verifyLogin found authHash deviceLabel =>
    let ok := verifyAuthHash authHash ((found.bind User.authHash).getD dummyAuthHash)
    match found with
    | none => none
    | some user => if ok && user.status = .active then some (.createSession user deviceLabel) else none
  | verifyRecovery found recoveryAuthHash =>
    let ok := verifyAuthHash recoveryAuthHash ((found.bind User.recoveryAuthHash).getD dummyAuthHash)
    match found with
    | none => none
    | some user => if ok && user.status = .active then some (.createRecoveryToken user) else none
  | loadUser session currentAuthHash rotation =>
    match userByID session.userID db with
    | .error _ => none
    | .ok user =>
      if user.status = .active then some (.verifyCurrent user session currentAuthHash rotation) else none
  | verifyCurrent user session currentAuthHash rotation =>
    if verifyCurrentCredential user currentAuthHash then some (.rotate user session rotation) else none
  | task => some task

inductive Request.Reads (now : Time) (db : Db) : Request → Task → Prop
  | login (email authHash label : String) :
      Reads now db (.login email authHash label) (.verifyLogin (userByEmail email db).toOption authHash label)
  | refresh {token : String} {session : Session} (h : sessionByRefreshToken now token db = .ok session) :
      Reads now db (.refresh token) (.rotateSession session token)
  | recover (email authHash : String) :
      Reads now db (.recover email authHash) (.verifyRecovery (userByEmail email db).toOption authHash)
  | recoverComplete {token : String} {rt : RecoveryToken} {password : PasswordRotation}
    {recovery : RecoveryRotation}
      (h : recoveryTokenByToken now token db = .ok rt) :
      Reads now db (.recoverComplete token password recovery) (.completeRecovery rt password recovery)
  | enroll {token : String} {invite : Invite} {inp : EnrollmentInput}
    (h : inviteByToken now token db = .ok invite) :
      Reads now db (.enroll token inp) (.completeEnrollment invite inp)
  | rotate {accessToken currentAuthHash : String} {rotation : Rotation} {session : Session}
      (h : sessionByAccessToken now accessToken db = .ok session) :
      Reads now db (.rotate accessToken currentAuthHash rotation) (.loadUser session currentAuthHash rotation)

theorem found_eq {α β : Type} {e : Except StoreError α} {f : α → β} {b : β} (h : e.toOption.map f = some b) :
    ∃ a, e = .ok a ∧ f a = b := by
  cases e with
  | error _ => cases h
  | ok a => exact ⟨a, rfl, Option.some.inj h⟩

theorem read_cases {req : Request} {now : Time} {db : Db} {t : Task} (h : req.read now db = some t) :
    req.Reads now db t := by
  cases req with
  | login email authHash label => cases h; exact .login email authHash label
  | recover email authHash => cases h; exact .recover email authHash
  | refresh token =>
    obtain ⟨session, hs, rfl⟩ := found_eq h
    exact .refresh hs
  | rotate accessToken currentAuthHash rotation =>
    obtain ⟨session, hs, rfl⟩ := found_eq h
    exact .rotate hs
  | recoverComplete token password recovery =>
    simp only [Request.read] at h
    split at h
    · obtain ⟨rt, hr, rfl⟩ := found_eq h
      exact .recoverComplete hr
    · cases h
  | enroll token inp =>
    simp only [Request.read] at h
    split at h
    · obtain ⟨invite, hi, rfl⟩ := found_eq h
      exact .enroll hi
    · cases h

inductive Task.Advances (db : Db) : Task → Task → Prop
  | login {user : User} {authHash label : String}
      (hv : verifyAuthHash authHash (user.authHash.getD dummyAuthHash) = true) (ha : user.status = .active) :
      Advances db (.verifyLogin (some user) authHash label) (.createSession user label)
  | recovery {user : User} {authHash : String}
      (hv : verifyAuthHash authHash (user.recoveryAuthHash.getD dummyAuthHash) = true)
      (ha : user.status = .active) :
      Advances db (.verifyRecovery (some user) authHash) (.createRecoveryToken user)
  | loaded {user : User} {session : Session} {currentAuthHash : String} {rotation : Rotation}
      (hu : db.users.get? session.userID = some user) (ha : user.status = .active) :
      Advances db (.loadUser session currentAuthHash rotation)
        (.verifyCurrent user session currentAuthHash rotation)
  | verified {user : User} {session : Session} {currentAuthHash : String} {rotation : Rotation}
      (hv : verifyCurrentCredential user currentAuthHash = true) :
      Advances db (.verifyCurrent user session currentAuthHash rotation) (.rotate user session rotation)
  | ready (t : Task) : Advances db t t

theorem userByID_ok {id : Id} {db : Db} {user : User} (h : userByID id db = .ok user) :
    db.users.get? id = some user := by
  unfold userByID at h
  split at h <;> cases h
  assumption

theorem requireAuth_some {now : Time} {token : String} {db : Db} {user : User} {session : Session}
    (h : requireAuth now token db = some (user, session)) :
    sessionByAccessToken now token db = .ok session ∧ db.users.get? session.userID = some user ∧
      user.status = .active := by
  unfold requireAuth at h
  split at h
  · cases h
  · rename_i session' hs
    split at h
    · cases h
    · rename_i user' hu
      split at h
      · rename_i ha
        cases h
        exact ⟨hs, userByID_ok hu, ha⟩
      · cases h

theorem advance_cases {t t' : Task} {db : Db} (h : t.advance db = some t') : t.Advances db t' := by
  cases t with
  | verifyLogin found authHash label =>
    cases found with
    | none => cases h
    | some user =>
      simp only [Task.advance, Option.bind_some] at h
      split at h
      · rename_i hv
        rw [Bool.and_eq_true, decide_eq_true_eq] at hv
        cases h
        exact .login hv.1 hv.2
      · cases h
  | verifyRecovery found authHash =>
    cases found with
    | none => cases h
    | some user =>
      simp only [Task.advance, Option.bind_some] at h
      split at h
      · rename_i hv
        rw [Bool.and_eq_true, decide_eq_true_eq] at hv
        cases h
        exact .recovery hv.1 hv.2
      · cases h
  | loadUser session currentAuthHash rotation =>
    simp only [Task.advance] at h
    split at h
    · cases h
    · rename_i user hu
      split at h
      · rename_i ha
        cases h
        exact .loaded (userByID_ok hu) ha
      · cases h
  | verifyCurrent user session currentAuthHash rotation =>
    simp only [Task.advance] at h
    split at h
    · rename_i hv
      cases h
      exact .verified hv
    · cases h
  | _ => cases h; exact .ready _

structure Drawn where
  id : Id
  token : String
  refresh : String
  deriving DecidableEq, Repr

def Task.command (now : Time) (drawn : Drawn) : Task → Option Command
  | createSession user deviceLabel =>
    some (.createSession now drawn.id drawn.token drawn.refresh user.id deviceLabel)
  | rotateSession session refreshToken => some (.rotateSession now session refreshToken drawn.token drawn.refresh)
  | createRecoveryToken user => some (.createRecoveryToken now drawn.id drawn.token user.id recoveryTokenTTL)
  | completeRecovery rt password recovery => some (.completeRecovery now drawn.id rt password recovery)
  | completeEnrollment invite inp => some (.completeEnrollment now invite inp)
  | rotate user session (.password inp) => some (.rotatePassword now drawn.id user.id inp session.id)
  | rotate user _ (.recovery inp) => some (.rotateRecovery now drawn.id user.id inp)
  | verifyLogin .. | verifyRecovery .. | loadUser .. | verifyCurrent .. => none

theorem command_createSession {t : Task} {now now' : Time} {drawn : Drawn} {id userID : Id}
    {access refresh label : String}
    (h : t.command now drawn = some (.createSession now' id access refresh userID label)) :
    ∃ user, t = .createSession user label ∧ user.id = userID ∧ drawn.id = id := by
  cases t with
  | createSession user label' => cases h; exact ⟨user, rfl, rfl, rfl⟩
  | rotate user session rotation => cases rotation <;> cases h
  | _ => cases h

theorem command_createRecoveryToken {t : Task} {now now' ttl : Time} {drawn : Drawn} {id userID : Id}
    {token : String} (h : t.command now drawn = some (.createRecoveryToken now' id token userID ttl)) :
    ∃ user, t = .createRecoveryToken user ∧ user.id = userID ∧ drawn.id = id := by
  cases t with
  | createRecoveryToken user => cases h; exact ⟨user, rfl, rfl, rfl⟩
  | rotate user session rotation => cases rotation <;> cases h
  | _ => cases h

def direct : Command → Bool
  | .createSession .. | .rotateSession .. | .createRecoveryToken .. | .completeRecovery .. | .completeEnrollment ..
  | .rotatePassword .. | .rotateRecovery .. => false
  | _ => true

def timeOf : Command → Option Time
  | .createItem now .. | .createItemsBulk now .. | .updateItem now .. | .deleteItem now .. | .createFolder now ..
  | .updateFolder now .. | .deleteFolder now .. | .createCollection now .. | .fulfilGrantOrAdd now ..
  | .removeMember now .. | .createPendingGrant now .. | .fulfilGrant now .. | .setUserStatus now ..
  | .resetUser now .. | .deleteUser now .. | .purgeTombstones now .. | .createPendingUser now ..
  | .createInvite now .. | .completeEnrollment now .. | .createSession now .. | .rotateSession now ..
  | .touchSession now .. | .revokeSession now .. | .revokeSessionForUser now .. | .rotatePassword now ..
  | .rotateRecovery now .. | .createRecoveryToken now .. | .completeRecovery now .. => some now
  | .deleteCollection _ => none

/-! ## The machine -/

/-- A request on its way. The row it holds was read after `readAt` marks of
the history, the hash compared after `verifiedAt`. -/
structure Flight where
  ticket : Nat
  readAt : Nat
  verifiedAt : Nat
  task : Task
  deriving DecidableEq, Repr

def Flight.advance (f : Flight) (n : Nat) (task : Task) : Flight where
  ticket := f.ticket
  readAt := match f.task with
    | .loadUser .. => n
    | _ => f.readAt
  verifiedAt := match f.task with
    | .verifyLogin .. | .verifyRecovery .. | .verifyCurrent .. => n
    | _ => f.verifiedAt
  task := task

structure Origin where
  userID : Id
  readAt : Nat
  verifiedAt : Nat
  deriving DecidableEq, Repr

def Flight.origin? (f : Flight) : Option Origin :=
  match f.task with
  | .createSession user _ | .createRecoveryToken user => some ⟨user.id, f.readAt, f.verifiedAt⟩
  | _ => none

/-- `clock` is the time of the last event that has one; `origins` goes by the
ids of sessions and recovery tokens, `invitedAt` by those of invites. -/
structure State where
  server : Server
  flights : Table Flight.ticket
  clock : Time
  log : List Mark
  origins : Id → Origin
  invitedAt : Id → Nat

inductive Event
  | receive (ticket : Nat) (now : Time) (req : Request)
  | advance (ticket : Nat)
  | commit (ticket : Nat) (now : Time) (drawn : Drawn)
  | drop (ticket : Nat)
  | command (c : Command)

def Event.time : Event → Option Time
  | receive _ now _ | commit _ now _ => some now
  | command c => timeOf c
  | advance _ | drop _ => none

namespace State

def fresh : State where
  server := Server.fresh
  flights := ∅
  clock := 0
  log := []
  origins _ := ⟨"", 0, 0⟩
  invitedAt _ := 0

abbrev db (s : State) : Db := s.server.db

def performs (s : State) : Event → Option Command
  | .commit ticket now drawn => (s.flights.get? ticket).bind (·.task.command now drawn)
  | .command c => some c
  | .receive .. | .advance _ | .drop _ => none

def serverAfter (s : State) (e : Event) : Server :=
  match s.performs e with
  | some c => s.server.after c
  | none => s.server

def marks (s : State) (e : Event) : List Mark :=
  match s.performs e with
  | some c => (c.mark s.db).toList
  | none => []

def landed (s : State) (ticket : Nat) : Table Flight.ticket := s.flights.delete fun f => f.ticket = ticket

def flightsAfter (s : State) : Event → Table Flight.ticket
  | .receive ticket now req =>
    match req.read now s.db with
    | some task => s.flights.upsert ⟨ticket, s.log.length, s.log.length, task⟩
    | none => s.flights
  | .advance ticket =>
    match s.flights.get? ticket with
    | none => s.flights
    | some f =>
      match f.task.advance s.db with
      | some task => s.flights.upsert (f.advance s.log.length task)
      | none => s.landed ticket
  | .commit ticket _ _ | .drop ticket => s.landed ticket
  | .command _ => s.flights

def originsAfter (s : State) (e : Event) (id : Id) : Origin :=
  match e with
  | .commit ticket _ drawn =>
    match (s.flights.get? ticket).bind Flight.origin? with
    | some origin => if id = drawn.id then origin else s.origins id
    | none => s.origins id
  | _ => s.origins id

/-- An invite goes back to the end of the history its own command leaves. -/
def invitedAfter (s : State) (e : Event) (id : Id) : Nat :=
  match s.performs e with
  | some (.createInvite _ invite _ _ _) | some (.resetUser _ invite _ _ _ _) =>
    if id = invite then (s.log ++ s.marks e).length else s.invitedAt id
  | _ => s.invitedAt id

def next (s : State) (e : Event) : State where
  server := s.serverAfter e
  flights := s.flightsAfter e
  clock := e.time.getD s.clock
  log := s.log ++ s.marks e
  origins := s.originsAfter e
  invitedAt := s.invitedAfter e

def admits (s : State) : Event → Prop
  | .receive ticket _ _ => s.flights.get? ticket = none
  | .commit ticket now drawn => (s.performs (.commit ticket now drawn)).isSome = true
  | .command c => direct c = true
  | .advance _ | .drop _ => True

instance (s : State) : (e : Event) → Decidable (s.admits e)
  | .receive .. => inferInstanceAs (Decidable (_ = _))
  | .commit .. => inferInstanceAs (Decidable (_ = _))
  | .command _ => inferInstanceAs (Decidable (_ = _))
  | .advance _ => inferInstanceAs (Decidable True)
  | .drop _ => inferInstanceAs (Decidable True)

def enabled (s : State) (e : Event) : Prop :=
  s.admits e ∧ ∀ c ∈ s.performs e, Server.Draws s.server.issued c.draws

instance (s : State) (e : Event) : Decidable (s.enabled e) := inferInstanceAs (Decidable (_ ∧ _))

def step : State → Event → State → Prop := Lts.Stepwise enabled next

def init (s : State) : Prop := s = fresh

def script (es : List Event) : State := es.foldl next fresh

theorem run_script {es : List Event} (h : Lts.Playable enabled next fresh es) : Lts.Run step fresh es (script es) :=
  Lts.run_script h

theorem run_guarded_script {C : State → Event → Prop} {es : List Event}
    (h : Lts.Playable (fun s e => s.enabled e ∧ C s e) next fresh es) :
    Lts.Run (Lts.Guarded step C) fresh es (script es) :=
  Lts.run_guarded_script h

def OnCommit (p : List Mark → Flight → Bool) (s : State) : Event → Prop
  | .commit ticket _ _ => ∀ f ∈ s.flights.get? ticket, p s.log f = true
  | _ => True

instance (p : List Mark → Flight → Bool) (s : State) : (e : Event) → Decidable (OnCommit p s e)
  | .commit .. => inferInstanceAs (Decidable (∀ f ∈ _, _))
  | .receive .. | .advance _ | .drop _ | .command _ => inferInstanceAs (Decidable True)

/-! ## What a step does -/

variable {s s' : State} {e : Event}

theorem step_cases (h : step s e s') :
    (s.performs e = none ∧ s'.server = s.server ∧ s'.log = s.log) ∨
    ∃ c, s.performs e = some c ∧ Server.Draws s.server.issued c.draws ∧ s'.server = s.server.after c ∧
      s'.log = s.log ++ (c.mark s.db).toList := by
  obtain ⟨⟨-, hd⟩, rfl⟩ := h
  cases hp : s.performs e with
  | none =>
    left
    refine ⟨rfl, ?_, ?_⟩
    · simp only [next, serverAfter, hp]
    · simp only [next, marks, hp, List.append_nil]
  | some c =>
    right
    refine ⟨c, rfl, hd c hp, ?_, ?_⟩
    · simp only [next, serverAfter, hp]
    · simp only [next, marks, hp]

theorem step_log (h : step s e s') : s'.log = s.log ++ s.marks e := by
  rw [h.2]
  rfl

theorem step_clock (h : step s e s') : s'.clock = e.time.getD s.clock := by
  rw [h.2]
  rfl

theorem marks_of_performs {c : Command} (hp : s.performs e = some c) : s.marks e = (c.mark s.db).toList := by
  simp only [marks, hp]

theorem performs_flight (h : step s e s') {c : Command} (hp : s.performs e = some c) (hc : direct c = false) :
    ∃ ticket now drawn f, e = .commit ticket now drawn ∧ s.flights.get? ticket = some f ∧
      f.task.command now drawn = some c := by
  cases e with
  | commit ticket now drawn =>
    obtain ⟨f, hf, ht⟩ := Option.bind_eq_some_iff.mp hp
    exact ⟨ticket, now, drawn, f, rfl, hf, ht⟩
  | command c' =>
    cases hp
    have hdirect : direct c = true := h.1.1
    rw [hc] at hdirect
    cases hdirect
  | _ => cases hp

theorem mem_flights (h : step s e s') {f : Flight} (hf : f ∈ s'.flights) :
    f ∈ s.flights ∨
    (∃ ticket now req task, e = .receive ticket now req ∧ req.read now s.db = some task ∧
      f = ⟨ticket, s.log.length, s.log.length, task⟩) ∨
    ∃ f₀ ∈ s.flights, ∃ task, f₀.task.advance s.db = some task ∧ s'.server = s.server ∧ s'.log = s.log ∧
      f = f₀.advance s.log.length task := by
  have hcases := step_cases h
  obtain ⟨-, rfl⟩ := h
  simp only [next] at hf
  cases e with
  | receive ticket now req =>
    simp only [flightsAfter] at hf
    split at hf
    · rename_i task ht
      rcases Table.mem_upsert.mp hf with ⟨hf, -⟩ | rfl
      · exact Or.inl hf
      · exact Or.inr (Or.inl ⟨ticket, now, req, task, rfl, ht, rfl⟩)
    · exact Or.inl hf
  | advance ticket =>
    simp only [flightsAfter] at hf
    split at hf
    · exact Or.inl hf
    · rename_i f₀ h₀
      split at hf
      · rename_i task ht
        rcases Table.mem_upsert.mp hf with ⟨hf, -⟩ | rfl
        · exact Or.inl hf
        · rcases hcases with ⟨-, hs, hl⟩ | ⟨c, hp, -⟩
          · exact Or.inr (Or.inr ⟨f₀, (Table.get?_eq_some.mp h₀).1, task, ht, hs, hl, rfl⟩)
          · cases hp
      · exact Or.inl (Table.mem_delete.mp hf).1
  | commit ticket now drawn => exact Or.inl (Table.mem_delete.mp hf).1
  | drop ticket => exact Or.inl (Table.mem_delete.mp hf).1
  | command c => exact Or.inl hf

/-! ## The point an id goes back to -/

theorem origins_created (h : step s e s') {c : Command} (hp : s.performs e = some c) (hc : direct c = false) :
    ∃ ticket now drawn f, e = .commit ticket now drawn ∧ s.flights.get? ticket = some f ∧
      f.task.command now drawn = some c ∧ ∀ origin ∈ f.origin?, s'.origins drawn.id = origin := by
  obtain ⟨ticket, now, drawn, f, rfl, hf, ht⟩ := performs_flight h hp hc
  refine ⟨ticket, now, drawn, f, rfl, hf, ht, ?_⟩
  intro origin ho
  rw [h.2]
  simp [next, originsAfter, hf, Option.mem_def.mp ho]

theorem origins_issued (h : step s e s') {id : Id} (hid : id ∈ s.server.issued) : s'.origins id = s.origins id := by
  obtain ⟨⟨-, hd⟩, rfl⟩ := h
  simp only [next]
  unfold originsAfter
  split
  · rename_i ticket now drawn
    split
    · rename_i origin ho
      obtain ⟨f, hf, ho⟩ := Option.bind_eq_some_iff.mp ho
      have hfresh : ∀ c, f.task.command now drawn = some c → drawn.id ∈ c.draws →
        drawn.id ∉ s.server.issued := by
        intro c hc hdraw
        exact ((hd c (Option.bind_eq_some_iff.mpr ⟨f, hf, hc⟩)).2 drawn.id hdraw).2
      apply if_neg
      apply ne_of_mem_of_not_mem hid
      unfold Flight.origin? at ho
      split at ho
      · rename_i user label ht
        exact hfresh _ (by rw [ht]; rfl) (by simp [Command.draws])
      · rename_i user ht
        exact hfresh _ (by rw [ht]; rfl) (by simp [Command.draws])
      · cases ho
    · rfl
  · rfl

theorem invited_created (h : step s e s') {now : Time} {id : Id} {token : String} {userID : Id} {ttl : Time}
    (hp : s.performs e = some (.createInvite now id token userID ttl)) : s'.invitedAt id = s'.log.length := by
  rw [h.2]
  simp [next, invitedAfter, hp]

theorem invited_reset (h : step s e s') {now : Time} {inviteID auditID : Id} {token : String} {userID actorID : Id}
    (hp : s.performs e = some (.resetUser now inviteID auditID token userID actorID)) :
    s'.invitedAt inviteID = s'.log.length := by
  rw [h.2]
  simp [next, invitedAfter, hp]

theorem invited_issued (h : step s e s') {id : Id} (hid : id ∈ s.server.issued) :
    s'.invitedAt id = s.invitedAt id := by
  obtain ⟨⟨-, hd⟩, rfl⟩ := h
  simp only [next]
  unfold invitedAfter
  split
  · rename_i invite _ _ _ hp
    have hfresh := ((hd _ hp).2 invite (by simp [Command.draws])).2
    exact if_neg (ne_of_mem_of_not_mem hid hfresh)
  · rename_i invite _ _ _ _ hp
    have hfresh := ((hd _ hp).2 invite (by simp [Command.draws])).2
    exact if_neg (ne_of_mem_of_not_mem hid hfresh)
  · rfl

/-! ## Ids and draws -/

def Known (s : State) : Prop := s.db.Known s.server.issued

theorem known_step (h : step s e s') (hk : s.Known) : s'.Known := by
  unfold Known db at hk ⊢
  rcases step_cases h with ⟨-, hs, -⟩ | ⟨c, -, hd, hs, -⟩
  · rw [hs]
    exact hk
  · rw [hs]
    exact (account_effect c s.db).known hd hk

theorem session_ids (hk : s.Known) : ∀ row ∈ s.db.sessions, row.id ≠ "" :=
  fun row hrow h => hk.empty (h ▸ hk.sessions row hrow)

theorem issued_step (h : step s e s') : ∀ x ∈ s.server.issued, x ∈ s'.server.issued := by
  intro x hx
  rcases step_cases h with ⟨-, hs, -⟩ | ⟨c, -, -, hs, -⟩
  · rw [hs]
    exact hx
  · rw [hs]
    exact List.mem_append_right _ hx

theorem known_fresh : fresh.Known := by
  refine ⟨?_, ?_, ?_, ?_, List.not_mem_nil⟩ <;> intro _ h <;> cases h

theorem guarded_inv {C : State → Event → Prop} {P : State → Prop} (h0 : P fresh)
    (hs : ∀ s e s', Lts.Guarded step C s e s' → s.Known → P s → P s') {es : List Event}
    (h : Lts.Run (Lts.Guarded step C) fresh es s) : P s := by
  have hinv : s.Known ∧ P s := by
    refine h.inv (P := fun s => s.Known ∧ P s) ?_ ⟨known_fresh, h0⟩
    intro s e s' hstep ⟨hk, hp⟩
    exact ⟨known_step hstep.1 hk, hs s e s' hstep hk hp⟩
  exact hinv.2

end State

/-! ## A first account -/

def aliceKeys : EnrollmentInput where
  kdfSalt := "kdf-salt"
  kdfParams := defaultKDFParamsJSON
  authHash := hashAuthHash "salt-1" "password-1"
  protectedUserKey := "protected-user-key"
  publicKey := "public-key"
  encryptedPrivateKey := "encrypted-private-key"
  recoverySalt := "recovery-salt"
  recoveryProtectedUserKey := "recovery-protected-user-key"
  recoveryKDFParams := defaultKDFParamsJSON
  recoveryAuthHash := hashAuthHash "salt-2" "code-1"

def secondPassword : PasswordRotation where
  kdfSalt := "kdf-salt-2"
  kdfParams := defaultKDFParamsJSON
  authHash := hashAuthHash "salt-3" "password-2"
  protectedUserKey := "protected-user-key-2"

def thirdPassword : PasswordRotation :=
  { secondPassword with authHash := hashAuthHash "salt-5" "password-3", protectedUserKey := "protected-user-key-3" }

def secondCode : RecoveryRotation where
  recoverySalt := "recovery-salt-2"
  recoveryKDFParams := defaultKDFParamsJSON
  recoveryProtectedUserKey := "recovery-protected-user-key-2"
  recoveryAuthHash := hashAuthHash "salt-4" "code-2"

def alice : User := (pendingUser 0 "alice" "alice@home" "Alice" .user).enrolled 0 aliceKeys

def adminEnrolls : List Event := [
  .command (.createPendingUser 0 "admin" "admin@home" "Admin" "admin"),
  .command (.createInvite 0 "invite-0" "link-0" "admin" inviteTTL),
  .receive 0 0 (.enroll "link-0" aliceKeys), .commit 0 0 ⟨"", "", ""⟩]

def aliceEnrolls : List Event := [
  .command (.createPendingUser 0 "alice" "alice@home" "Alice" "user"),
  .command (.createInvite 0 "invite-1" "link-1" "alice" inviteTTL),
  .receive 0 0 (.enroll "link-1" aliceKeys), .commit 0 0 ⟨"", "", ""⟩]

def aliceRotates : List Event := [
  .receive 1 0 (.login "alice@home" "password-1" "laptop"), .advance 1,
    .commit 1 0 ⟨"session-1", "access-1", "refresh-1"⟩,
  .receive 2 0 (.rotate "access-1" "password-1" (.password secondPassword)), .advance 2, .advance 2,
  .commit 2 0 ⟨"audit-1", "", ""⟩]

end Keyhole.Http
