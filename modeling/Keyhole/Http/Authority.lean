import Keyhole.Http.Managing
import Keyhole.Store.Distribution

/-!
# What a write has behind it

Whatever runs beside a request, each of its writes is one its actor had the
standing for at some instant of that request. A collection's key goes from
member to member: nobody else can bring anyone in.
-/

namespace Keyhole.Http.Managing
open Store Sql Await Proc

/-! ## Standing -/

section
variable (since : (Db → Prop) → Prop)

/-- The token was one of a live session of an active user, and the user's row was `actor`. -/
def Standing (token : Option String) (actor : User) : Prop :=
  ∃ t session, token = some t ∧ since (fun db => ∃ now, sessionByAccessToken now t db = .ok session) ∧
    since (fun db => db.users.get? session.userID = some actor) ∧ actor.status = .active

def WasMember (actor : User) (collectionID : Id) : Prop :=
  since fun db => (db.memberships.get? (collectionID, actor.id)).isSome = true

def WasManager (actor : User) (collectionID : Id) : Prop :=
  since fun db => ∃ m, db.memberships.get? (collectionID, actor.id) = some m ∧ m.role = .manager

/-- A manager, or an administrator who is a member or for whom the collection existed. -/
def Managed (actor : User) (collectionID : Id) : Prop :=
  WasManager since actor collectionID ∨
    actor.role = .admin ∧
      (WasMember since actor collectionID ∨ since fun db => db.hasCollection collectionID = true)

def Cmd.Authorised (actor : User) : Cmd → Prop
  | .createCollection _ by_ _ | .setUserStatus _ _ by_ | .resetUser _ by_ | .deleteUser _ by_ =>
    by_ = actor.id ∧ actor.role = .admin
  | .deleteCollection _ | .createPendingUser .. | .createInvite _ => actor.role = .admin
  | .createPendingGrant c _ _ by_ | .removeMember c _ by_ => by_ = actor.id ∧ Managed since actor c
  | .fulfilGrantOrAdd c _ _ _ by_ => by_ = actor.id ∧ Managed since actor c ∧ WasMember since actor c
  | .fulfilGrant c _ _ by_ => by_ = actor.id ∧ WasManager since actor c
  | .appendAudit by_ _ _ => by_ = actor.id
  | .run _ | .touchSession _ => False
  | .sessionByAccessToken _ | .userByID _ | .membershipFor .. | .collectionByID _ | .membershipsOf _
  | .collectionsForUser _ | .allPendingGrants | .pendingGrantsFulfillableBy _ => True

/-- What changes nothing. -/
def Cmd.Reads : Cmd → Prop
  | .sessionByAccessToken _ | .userByID _ | .membershipFor .. | .collectionByID _ | .membershipsOf _
  | .collectionsForUser _ | .allPendingGrants | .pendingGrantsFulfillableBy _ => True
  | _ => False

/-- The one write of `requireAuth`: the sliding expiry of the session the token stands for, a live one of an
active user. -/
def Cmd.Extends (token : Option String) : Cmd → Prop
  | .touchSession id => ∃ t, ∃ session : Session, ∃ actor : User, token = some t ∧ session.id = id ∧
      since (fun db => ∃ now, Store.sessionByAccessToken now t db = .ok session) ∧
      since (fun db => db.users.get? session.userID = some actor) ∧ actor.status = .active
  | _ => False

def Backed (token : Option String) (c : Cmd) : Prop :=
  c.Reads ∨ c.Extends since token ∨ ∃ actor, Standing since token actor ∧ c.Authorised since actor

end

/-! ## What a call that succeeds says -/

section
variable {s s' : Server} {c : Cmd}

theorem exec_ok {r : Except Response c.Answer} (h : Exec s c r s') : ∃ a, r = .ok a := by
  cases h with
  | performed now fresh _ => exact ⟨_, rfl⟩
  | failed what => exact ⟨_, rfl⟩

theorem exec_value {v : c.Value} (h : Exec s c (.ok (.ok v)) s') :
    ∃ now fresh, Server.Draws s.issued (c.draws fresh) ∧ c.perform now fresh s.db = (.ok v, s'.db) ∧
      s'.issued = c.draws fresh ++ s.issued := by
  generalize hr : (.ok (.ok v) : Except Response c.Answer) = r at h
  cases h with
  | performed now fresh hd => exact ⟨now, fresh, hd, Prod.ext (Except.ok.inj hr).symm rfl, rfl⟩
  | failed what => cases hr

/-- Of the reads. -/
theorem exec_read {v : c.Value} (h : Exec s c (.ok (.ok v)) s') :
    ∃ now fresh, (c.perform now fresh s.db).1 = .ok v := by
  obtain ⟨now, fresh, -, hp, -⟩ := exec_value h
  exact ⟨now, fresh, congrArg Prod.fst hp⟩

theorem membershipFor_ok {collectionID userID : Id} {db : Db} {m : Membership}
    (h : membershipFor collectionID userID db = .ok m) : db.memberships.get? (collectionID, userID) = some m := by
  unfold membershipFor at h
  split at h
  · rename_i hg
    cases h
    exact hg
  · cases h

theorem collectionByID_ok {id : Id} {db : Db} {row : Collection} (h : collectionByID id db = .ok row) :
    db.hasCollection id = true := by
  unfold collectionByID at h
  split at h
  · rename_i hg
    exact Option.isSome_iff_exists.mpr ⟨_, hg⟩
  · cases h

end

/-! ## Looking back from a program -/

section
variable {J β α : Type} (body : J → Task β) (w : Await.Pool Server J Cmd.Answer Response β)
  (es : List (Await.Event J Cmd.Answer Response))

/-- At some instant of the run. -/
abbrev Since (P : Db → Prop) : Prop := During Exec body w es fun s => P s.db

abbrev Gives (c : Cmd) (a : c.Answer) : Prop := Gave Exec body w es c (.ok a)

end

section
variable {J β α : Type} {body : J → Task β} {w : Await.Pool Server J Cmd.Answer Response β}
  {es : List (Await.Event J Cmd.Answer Response)} {token : Option String}

theorem gave_ok {c : Cmd} {r : Except Response c.Answer} (h : Gave Exec body w es c r) : ∃ a, r = .ok a := by
  obtain ⟨_, _, u, _, _, s', hx⟩ := h
  exact exec_ok hx

theorem meets_call {C : Cmd → Prop} {Q : Except Response α → Prop} {c : Cmd} {f : c.Answer → Task α} (hc : C c)
    (h : ∀ a, Gives body w es c a → (f a).Meets C (Gave Exec body w es) Q) :
    (call c >>= f).Meets C (Gave Exec body w es) Q := by
  refine ⟨hc, fun r hr => ?_⟩
  obtain ⟨a, rfl⟩ := gave_ok hr
  exact h a hr

theorem Gives.since {c : Cmd} {v : c.Value} (h : Gives body w es c (.ok v)) {P : Db → Prop}
    (hP : ∀ now fresh db, (c.perform now fresh db).1 = .ok v → P db) : Since body w es P :=
  h.mono fun s ⟨s', hx⟩ => by
    obtain ⟨now, fresh, hv⟩ := exec_read hx
    exact hP now fresh s.db hv

theorem Gives.member {collectionID : Id} {user : User} {m : Membership}
    (h : Gives body w es (.membershipFor collectionID user.id) (.ok m)) :
    WasMember (Since body w es) user collectionID :=
  h.since fun _ _ _ hv => Option.isSome_iff_exists.mpr ⟨m, membershipFor_ok hv⟩

theorem Gives.manager {collectionID : Id} {user : User} {m : Membership}
    (h : Gives body w es (.membershipFor collectionID user.id) (.ok m)) (hm : m.role = .manager) :
    WasManager (Since body w es) user collectionID := by
  unfold WasManager
  exact h.since fun _ _ _ hv => ⟨m, membershipFor_ok hv, hm⟩

theorem meets_requireAuth {C : Cmd → Prop} {Q : Except Response α → Prop}
    (hsession : ∀ t, C (.sessionByAccessToken t)) (huser : ∀ id, C (.userByID id))
    (htouch : ∀ c : Cmd, c.Extends (Since body w es) token → C c) (hq : Q (.error authenticationRequired))
    {next : User → Task α}
    (h : ∀ actor, Standing (Since body w es) token actor → (next actor).Meets C (Gave Exec body w es) Q) :
    (requireAuth token next).Meets C (Gave Exec body w es) Q := by
  unfold requireAuth
  split
  · exact hq
  · exact hq
  rename_i t _
  refine meets_call (hsession _) fun a ha => ?_
  cases a with
  | error e => exact hq
  | ok session =>
    refine meets_call (huser _) fun a hu => ?_
    cases a with
    | error e => exact hq
    | ok user =>
      simp only
      by_cases hact : user.status = .active
      · rw [if_neg (not_not.mpr hact)]
        have hlive : Since body w es fun db => ∃ now, sessionByAccessToken now t db = .ok session :=
          ha.since fun now _ db hv => ⟨now, hv⟩
        have hactor : Since body w es fun db => db.users.get? session.userID = some user :=
          hu.since fun _ _ db hv => userByID_ok hv
        refine meets_call (htouch _ ⟨t, session, user, rfl, rfl, hlive, hactor, hact⟩) fun _ _ => ?_
        exact h user ⟨t, session, rfl, hlive, hactor, hact⟩
      · rw [if_pos hact]
        exact hq

end

/-! ## The handlers, one by one -/

section
variable {w w' : Pool} {es : List Event} {token : Option String} {α : Type}

abbrev Backs (w : Pool) (es : List Event) (token : Option String) (p : Task α) : Prop :=
  p.Meets (Backed (Since Job.body w es) token) (Gave Exec Job.body w es) fun _ => True

theorem backs_bind {β : Type} {p : Task β} {f : β → Task α} (hp : Backs w es token p)
    (hf : ∀ b, Backs w es token (f b)) :
    Backs w es token (p >>= f) :=
  Meets.bind (P := fun _ => True) (hp.mono fun _ _ => ⟨fun _ _ => trivial, fun _ _ => trivial⟩) fun b _ => hf b

theorem backs_orStoreError {β : Type} {r : Except StoreError β} {f : β → Task α}
    (h : ∀ v, r = .ok v → Backs w es token (f v)) : Backs w es token (orStoreError r >>= f) := by
  cases r with
  | ok v => exact h v rfl
  | error e => trivial

theorem backs_decodeJSON {β : Type} {body : Except String β} {f : β → Task α}
    (h : ∀ req, Backs w es token (f req)) :
    Backs w es token (decodeJSON body >>= f) := by
  cases body with
  | ok req => exact h req
  | error message => trivial

theorem backs_requireAuth {next : User → Task α}
    (h : ∀ actor, Standing (Since Job.body w es) token actor → Backs w es token (next actor)) :
    Backs w es token (requireAuth token next) :=
  meets_requireAuth (fun _ => .inl trivial) (fun _ => .inl trivial) (fun _ h => .inr (.inl h)) trivial h

theorem backs_requireAdmin {next : User → Task α}
    (h : ∀ actor, Standing (Since Job.body w es) token actor → actor.role = .admin →
      Backs w es token (next actor)) :
    Backs w es token (requireAdmin token next) := by
  refine backs_requireAuth fun actor hs => ?_
  by_cases hadm : actor.role = .admin
  · rw [if_neg (not_not.mpr hadm)]
    exact h actor hs hadm
  · rw [if_pos hadm]
    trivial

variable {actor : User} (hs : Standing (Since Job.body w es) token actor)
include hs

theorem backed {c : Cmd} (h : c.Authorised (Since Job.body w es) actor) :
    Backed (Since Job.body w es) token c :=
  .inr (.inr ⟨actor, hs, h⟩)

theorem backs_audit (action target : String) : Backs w es token (audit actor.id action target) :=
  meets_call (backed hs (c := .appendAudit actor.id action target) rfl) fun _ _ => trivial

omit hs in
theorem backs_requireManager (collectionID : Id) {f : Unit → Task α}
    (h : Managed (Since Job.body w es) actor collectionID → Backs w es token (f ())) :
    Backs w es token (requireManager actor collectionID >>= f) := by
  refine Meets.bind (P := fun _ => Managed (Since Job.body w es) actor collectionID) ?_ fun _ => h
  refine meets_call (.inl trivial) fun a ha => ?_
  cases a with
  | ok m =>
    simp only
    by_cases hm : m.role = .manager ∨ actor.role = .admin
    · rw [if_pos hm]
      refine ⟨fun _ _ => ?_, by simp⟩
      rcases hm with hm | hadm
      · exact .inl (ha.manager hm)
      · exact .inr ⟨hadm, .inl ha.member⟩
    · rw [if_neg hm]
      exact ⟨by simp, by simp⟩
  | error e =>
    have hthrow : ∀ e' : Response, (Proc.throw e' : Task Unit).Meets (Backed (Since Job.body w es) token)
        (Gave Exec Job.body w es) fun r => (∀ a, r = .ok a → Managed (Since Job.body w es) actor collectionID) ∧
          ∀ e, r = .error e → True :=
      fun e' => ⟨by simp, by simp⟩
    cases e with
    | notFound =>
      simp only
      by_cases hadm : actor.role = .admin
      · rw [if_neg (not_not.mpr hadm)]
        refine meets_call (.inl trivial) fun a hc => ?_
        cases a with
        | error e => exact hthrow _
        | ok row =>
          refine ⟨fun _ _ => .inr ⟨hadm, .inr ?_⟩, by simp⟩
          exact hc.since fun _ _ _ hv => collectionByID_ok hv
      · rw [if_pos hadm]
        exact hthrow _
    | _ => exact hthrow _

/-! ### Collections -/

theorem backs_handleCreateCollection (hadm : actor.role = .admin) (body : Except String CreateCollectionRequest) :
    Backs w es token (handleCreateCollection body actor) := by
  refine backs_decodeJSON fun req => meets_call (backed hs ⟨rfl, hadm⟩) fun a _ => ?_
  exact backs_orStoreError fun collection _ => trivial

theorem backs_handleDeleteCollection (hadm : actor.role = .admin) (id : Id) :
    Backs w es token (handleDeleteCollection id actor) := by
  refine meets_call (backed hs hadm) fun a _ => backs_orStoreError fun _ _ => ?_
  exact backs_bind (backs_audit hs _ _) fun _ => trivial

theorem backs_handleAddMember (collectionID : Id) (body : Except String AddMemberRequest) :
    Backs w es token (handleAddMember collectionID body actor) := by
  refine backs_decodeJSON fun req => backs_requireManager collectionID fun hman => ?_
  refine meets_call (.inl trivial) fun a _ => ?_
  cases a with
  | error e => trivial
  | ok target =>
    simp only
    by_cases hact : target.status = .active
    · rw [if_neg (not_not.mpr hact)]
      by_cases hkey : req.sealedCollectionKey = ""
      · rw [if_pos hkey]
        exact meets_call (backed hs ⟨rfl, hman⟩) fun a _ => backs_orStoreError fun _ _ => trivial
      · rw [if_neg hkey]
        refine meets_call (.inl trivial) fun a ha => backs_orStoreError fun m hm => ?_
        subst hm
        exact meets_call (backed hs ⟨rfl, hman, ha.member⟩) fun a _ => backs_orStoreError fun _ _ => trivial
    · rw [if_pos hact]
      trivial

theorem backs_handleRemoveMember (collectionID userID : Id) :
    Backs w es token (handleRemoveMember collectionID userID actor) := by
  refine backs_requireManager collectionID fun hman => ?_
  exact meets_call (backed hs ⟨rfl, hman⟩) fun a _ => backs_orStoreError fun _ _ => trivial

theorem backs_handleFulfilGrant (collectionID : Id) (body : Except String FulfilGrantRequest) :
    Backs w es token (handleFulfilGrant collectionID body actor) := by
  refine backs_decodeJSON fun req => meets_call (.inl trivial) fun a ha => ?_
  cases a with
  | error e => cases e <;> trivial
  | ok m =>
    simp only
    by_cases hm : m.role = .manager
    · rw [if_neg (not_not.mpr hm)]
      exact meets_call (backed hs ⟨rfl, ha.manager hm⟩) fun a _ => backs_orStoreError fun _ _ => trivial
    · rw [if_pos hm]
      trivial

/-! ### Lists -/

omit hs in
theorem backs_pendingGrantsFor : Backs w es token (pendingGrantsFor actor) := by
  unfold pendingGrantsFor
  by_cases hadm : actor.role = .admin
  · rw [if_pos hadm]
    exact meets_call (.inl trivial) fun a _ => by cases a <;> trivial
  · rw [if_neg hadm]
    exact meets_call (.inl trivial) fun a _ => by cases a <;> trivial

omit hs in
theorem backs_memberEntries (memberships : List Membership) : Backs w es token (memberEntries memberships) := by
  induction memberships with
  | nil => trivial
  | cons m rest ih =>
    refine backs_bind ?_ fun entry => backs_bind ih fun entries => trivial
    exact meets_call (.inl trivial) fun a _ => backs_orStoreError fun member _ => trivial

omit hs in
theorem backs_handleListCollections : Backs w es token (handleListCollections actor) :=
  meets_call (.inl trivial) fun _ _ => backs_orStoreError fun _ _ =>
    backs_bind backs_pendingGrantsFor fun _ => trivial

omit hs in
theorem backs_handleListPendingGrants : Backs w es token (handleListPendingGrants actor) :=
  backs_bind backs_pendingGrantsFor fun _ => trivial

omit hs in
theorem backs_handleListMembers (collectionID : Id) : Backs w es token (handleListMembers collectionID actor) := by
  have hrest : Backs w es token (do
      let memberships ← orStoreError (← call (.membershipsOf collectionID))
      let entries ← memberEntries memberships
      pure (Reply.members entries)) :=
    meets_call (.inl trivial) fun _ _ => backs_orStoreError fun memberships _ =>
      backs_bind (backs_memberEntries memberships) fun _ => trivial
  refine meets_call (.inl trivial) fun a _ => ?_
  cases a with
  | ok m => exact hrest
  | error e =>
    cases e with
    | notFound =>
      by_cases hadm : actor.role = .admin
      · simp only [hadm]
        exact hrest
      · simp only [if_pos hadm]
        trivial
    | _ => trivial

/-! ### Accounts -/

section
variable (hadm : actor.role = .admin)
include hadm

theorem backs_handleAdminCreateUser (body : Except String CreateUserRequest) :
    Backs w es token (handleAdminCreateUser body actor) := by
  refine backs_decodeJSON fun req => meets_call (backed hs hadm) fun a _ => ?_
  cases a with
  | error e => cases e <;> trivial
  | ok user =>
    refine meets_call (backed hs hadm) fun a _ => backs_orStoreError fun invite _ => ?_
    exact backs_bind (backs_audit hs _ _) fun _ => trivial

theorem backs_handleAdminReissueInvite (id : Id) : Backs w es token (handleAdminReissueInvite id actor) := by
  refine meets_call (.inl trivial) fun a _ => backs_orStoreError fun user _ => ?_
  by_cases hp : user.status = .pending
  · rw [if_neg (not_not.mpr hp)]
    refine meets_call (backed hs hadm) fun a _ => backs_orStoreError fun invite _ => ?_
    exact backs_bind (backs_audit hs _ _) fun _ => trivial
  · rw [if_pos hp]
    trivial

theorem backs_handleAdminPatchUser (id : Id) (body : Except String String) :
    Backs w es token (handleAdminPatchUser id body actor) := by
  refine backs_decodeJSON fun status => meets_call (backed hs ⟨rfl, hadm⟩) fun a _ => ?_
  cases a with
  | error e => cases e <;> trivial
  | ok u => exact meets_call (.inl trivial) fun a _ => backs_orStoreError fun user _ => trivial

theorem backs_handleAdminResetUser (id : Id) (body : Except String String) :
    Backs w es token (handleAdminResetUser id body actor) := by
  refine backs_decodeJSON fun confirm => meets_call (.inl trivial) fun a _ => backs_orStoreError fun user _ => ?_
  by_cases he : confirm = user.email
  · rw [if_neg (not_not.mpr he)]
    exact meets_call (backed hs ⟨rfl, hadm⟩) fun a _ => backs_orStoreError fun invite _ => trivial
  · rw [if_pos he]
    trivial

theorem backs_handleAdminDeleteUser (id : Id) : Backs w es token (handleAdminDeleteUser id actor) := by
  refine meets_call (backed hs ⟨rfl, hadm⟩) fun a _ => ?_
  cases a with
  | error e => cases e <;> trivial
  | ok u => trivial

end

omit hs in
theorem backs_serve (req : Request) : Backs w es token (req.serve token) := by
  cases req with
  | createCollection body => exact backs_requireAdmin fun _ hs hadm => backs_handleCreateCollection hs hadm body
  | listCollections => exact backs_requireAuth fun _ _ => backs_handleListCollections
  | listPendingGrants => exact backs_requireAuth fun _ _ => backs_handleListPendingGrants
  | deleteCollection id => exact backs_requireAdmin fun _ hs hadm => backs_handleDeleteCollection hs hadm id
  | listMembers c => exact backs_requireAuth fun _ _ => backs_handleListMembers c
  | addMember c body => exact backs_requireAuth fun _ hs => backs_handleAddMember hs c body
  | removeMember c u => exact backs_requireAuth fun _ hs => backs_handleRemoveMember hs c u
  | fulfilGrant c body => exact backs_requireAuth fun _ hs => backs_handleFulfilGrant hs c body
  | adminCreateUser body => exact backs_requireAdmin fun _ hs hadm => backs_handleAdminCreateUser hs hadm body
  | adminReissueInvite id => exact backs_requireAdmin fun _ hs hadm => backs_handleAdminReissueInvite hs hadm id
  | adminPatchUser id body => exact backs_requireAdmin fun _ hs hadm => backs_handleAdminPatchUser hs hadm id body
  | adminResetUser id body => exact backs_requireAdmin fun _ hs hadm => backs_handleAdminResetUser hs hadm id body
  | adminDeleteUser id => exact backs_requireAdmin fun _ hs hadm => backs_handleAdminDeleteUser hs hadm id

end

/-- Whatever a request does, between its start and the moment it does it there was the standing for it. -/
theorem authority {w w' : Pool} {es : List Event} {i : Nat} {token : Option String} {req : Request} {c : Cmd}
    {r : Except Response c.Answer}
    (h : Lts.Run Step w (.start i (.request token req) :: es ++ [.answer i c r]) w') :
    Backed (Since Job.body w (.start i (.request token req) :: es)) token c := by
  obtain ⟨u, hr, -⟩ := h.split
  have hbody : Backs w (.start i (.request token req) :: es) token (Job.body (.request token req)) :=
    backs_serve req
  exact started_awaits hbody h (run_gave hr)

/-! ## From member to member -/

section
variable (circle : Id → Prop) (collectionID : Id)

/-- The creator is in the circle, and nobody in it brings anyone in from outside. -/
def Within : (c : Cmd) → Except Response c.Answer → Prop
  | .createCollection _ by_ _, .ok (.ok row) => row.id = collectionID → circle by_
  | .fulfilGrantOrAdd c u _ _ by_, _ => c = collectionID → circle by_ → circle u
  | .fulfilGrant c u _ by_, _ => c = collectionID → circle by_ → circle u
  | _, _ => True

def Enclosed (db : Db) : Prop := ∀ m ∈ db.memberships, m.collectionID = collectionID → circle m.userID

end

theorem createCollection_id {now : Time} {id auditID : Id} {name : String} {by_ : Id} {key : String} {db : Db}
    {row : Collection} (h : (createCollection now id auditID name by_ key db).1 = .ok row) : row.id = id := by
  unfold createCollection at h
  split at h
  · cases h
  · split at h
    · cases h
    · have ht := Prog.transact_ok h
      simp only [createCollectionTx, Prog.exec_bind_ok, exec_sql_ok] at ht
      obtain ⟨_, _, _, _, _, _, _, _, _, _, _, _, h⟩ := ht
      cases h
      rfl

/-- A new membership is one that the call hands over. -/
theorem membership_performed (now : Time) (fresh : Fresh) (c : Cmd) (db : Db) :
    ∀ m ∈ (c.perform now fresh db).2.memberships,
      m ∈ db.memberships ∨ ∃ cmd, c.command now fresh = some cmd ∧ cmd.hands = some m.handed := by
  intro m hm
  rcases perform_command now fresh c db with ⟨cmd, hc, hp⟩ | ⟨-, auditLog, hp⟩
  · rw [hp] at hm
    rcases membership_after cmd db m hm with hm | hh
    · exact .inl hm
    · exact .inr ⟨cmd, hc, hh⟩
  · rw [hp] at hm
    exact .inl hm

/-- The call hands the key of the collection over, in the name of `by_`. -/
def Cmd.GivenBy (collectionID by_ : Id) : Cmd → Prop
  | .fulfilGrantOrAdd c _ _ _ giver | .fulfilGrant c _ _ giver => c = collectionID ∧ giver = by_
  | _ => False

section
variable {circle : Id → Prop} {collectionID : Id}

theorem elsewhere_hands {cmd : Command} (h : Elsewhere cmd = true) : cmd.hands = none := by
  cases cmd with
  | createCollection | fulfilGrantOrAdd | fulfilGrant => cases h
  | _ => rfl

theorem enclosed_exec {s s' : Server} {c : Cmd} {r : Except Response c.Answer} (hx : Exec s c r s')
    (he : Enclosed circle collectionID s.db) (hw : Within circle collectionID c r)
    (hgiver : ∀ by_, c.GivenBy collectionID by_ → circle by_)
    (hrun : ∀ cmd, c = .run cmd → Elsewhere cmd = true) :
    Enclosed circle collectionID s'.db := by
  cases hx with
  | failed what => exact he
  | performed now fresh hd =>
    intro m hm hc
    rcases membership_performed now fresh c s.db m hm with hm' | ⟨cmd, hcmd, hh⟩
    · exact he m hm' hc
    cases c with
    | createCollection name by_ key =>
      cases hcmd
      have hhanded := Option.some.inj hh
      have hid : fresh.id = m.collectionID := congrArg Prod.fst hhanded
      have hu : by_ = m.userID := congrArg (·.2.1) hhanded
      cases hres : createCollection now fresh.id fresh.auditID name by_ key s.db with
      | mk a db' =>
        cases a with
        | ok row =>
          simp only [Cmd.perform, hres, Within] at hw
          rw [← hu]
          exact hw ((createCollection_id (congrArg Prod.fst hres)).trans (hid.trans hc))
        | error e =>
          simp only [Cmd.perform, hres] at hm
          rw [createCollection_error hres] at hm
          exact he m hm hc
    | fulfilGrantOrAdd c u key role by_ =>
      cases hcmd
      cases hh
      exact hw hc (hgiver by_ ⟨hc, rfl⟩)
    | fulfilGrant c u key by_ =>
      cases hcmd
      cases hh
      exact hw hc (hgiver by_ ⟨hc, rfl⟩)
    | run cmd' =>
      cases hcmd
      rw [elsewhere_hands (hrun _ rfl)] at hh
      cases hh
    | sessionByAccessToken | userByID | membershipFor | collectionByID | membershipsOf | collectionsForUser
    | allPendingGrants | pendingGrantsFulfillableBy | appendAudit => cases hcmd
    | _ =>
      cases hcmd
      cases hh

/-- Who hands a key over has had it handed to them at an instant of the request. -/
theorem backed_giver {w : Pool} {es : List Event} {token : Option String} {c : Cmd}
    (h : Backed (Since Job.body w es) token c)
    {by_ : Id} (hg : c.GivenBy collectionID by_) :
    Since Job.body w es fun db => (db.memberships.get? (collectionID, by_)).isSome = true := by
  rcases h with h | h | ⟨actor, -, h⟩
  · cases c <;> first | exact hg.elim | exact h.elim
  · cases c <;> first | exact hg.elim | exact h.elim
  · cases c with
    | fulfilGrantOrAdd c u key role giver =>
      obtain ⟨rfl, rfl⟩ := hg
      obtain ⟨rfl, -, hm⟩ := h
      exact hm
    | fulfilGrant c u key giver =>
      obtain ⟨rfl, rfl⟩ := hg
      obtain ⟨rfl, hm⟩ := h
      unfold WasManager at hm
      exact hm.mono fun s ⟨m, hm, _⟩ => Option.isSome_iff_exists.mpr ⟨m, hm⟩
    | _ => exact hg.elim

/-- What a program of the run is answered: a call its request has the standing for, or one from elsewhere. -/
theorem called {w w' : Pool} {es : List Event} {i : Nat} {c : Cmd} {r : Except Response c.Answer}
    (h : Lts.Run Step w (es ++ [.answer i c r]) w') (hw : w.task i = none) :
    (∃ es₁ es₂ u token, es = es₁ ++ es₂ ∧ Lts.Run Step w es₁ u ∧
      Backed (Since Job.body u es₂) token c) ∨
      ∃ cmd, c = .run cmd ∧ Elsewhere cmd = true := by
  obtain ⟨u, hr, hlast⟩ := h.split
  obtain ⟨j, k, hk⟩ : ∃ j k, u.task i = some (j, .await c k) := by
    cases hlast with
    | cons he _ =>
      cases he with
      | answer hk _ => exact ⟨_, _, hk⟩
  obtain ⟨es₁, es₂, v, rfl, h₁, h₂⟩ := run_started hr hw hk
  have hreq : Lts.Run Step v (.start i j :: es₂ ++ [.answer i c r]) w' := h₂.append hlast
  cases j with
  | request token req => exact .inl ⟨es₁, _, v, token, rfl, h₁, authority hreq⟩
  | other cmd elsewhere =>
    let C : Cmd → Prop := fun c => ∃ cmd, c = .run cmd ∧ Elsewhere cmd = true
    have hbody : (Job.body (.other cmd elsewhere)).Meets C
        (Gave Exec Job.body v (.start i (.other cmd elsewhere) :: es₂)) fun _ => True :=
      meets_call ⟨cmd, rfl, elsewhere⟩ fun _ _ => trivial
    have hc : C c := started_awaits hbody hreq (run_gave h₂)
    exact .inr hc

theorem backed_run {w : Pool} {es : List Event} {token : Option String} {cmd : Command}
    (h : Backed (Since Job.body w es) token (.run cmd)) : False := by
  rcases h with h | h | ⟨_, _, h⟩ <;> exact h

/-- Nobody comes to hold a collection's key but by the hands of those who hold it. -/
theorem enclosed {w : Pool} {es : List Event} (h : Lts.Run Step start es w)
    (hw : Answered (Within circle collectionID) es) :
    ∀ m ∈ w.shared.db.memberships, m.collectionID = collectionID → circle m.userID := by
  change Enclosed circle collectionID w.shared.db
  induction hn : es.length using Nat.strong_induction_on generalizing es w with
  | _ n ih =>
    rcases List.eq_nil_or_concat' es with rfl | ⟨fs, e, rfl⟩
    · cases h
      intro m hm
      cases hm
    · have hlen : fs.length < n := by
        rw [← hn, List.length_append, List.length_singleton]
        exact Nat.lt_succ_self _
      have hfs : Answered (Within circle collectionID) fs := fun i c r hm => hw i c r (List.mem_append_left _ hm)
      obtain ⟨u, hr, hlast⟩ := h.split
      have hu : Enclosed circle collectionID u.shared.db := ih fs.length hlen hr hfs rfl
      cases hlast with
      | cons he hnil =>
        cases hnil
        cases he with
        | start j hi => exact hu
        | pick b hi => exact hu
        | @answer i j c k r s hi hx =>
          refine enclosed_exec hx hu (hw i c r (List.mem_append_right _ List.mem_cons_self)) ?_ ?_
          · intro by_ hg
            rcases called h rfl with ⟨es₁, es₂, v, token, rfl, h₁, hb⟩ | ⟨cmd, rfl, -⟩
            · obtain ⟨es₃, es₄, x, rfl, h₃, hx⟩ := backed_giver hb hg
              obtain ⟨m, hm, hkey⟩ := Table.get?_isSome.mp hx
              have hshort : (es₁ ++ es₃).length < n := by
                refine Nat.lt_of_le_of_lt ?_ hlen
                simp only [List.length_append]
                omega
              have hbefore : Answered (Within circle collectionID) (es₁ ++ es₃) := by
                intro k c' r' hm'
                apply hfs k c' r'
                rw [← List.append_assoc]
                exact List.mem_append_left _ hm'
              have hin := ih _ hshort (h₁.append h₃) hbefore rfl m hm (congrArg Prod.fst hkey)
              rwa [show m.userID = by_ from congrArg Prod.snd hkey] at hin
            · exact hg.elim
          · rintro cmd rfl
            rcases called h rfl with ⟨es₁, es₂, v, token, rfl, h₁, hb⟩ | ⟨cmd', he, helse⟩
            · exact (backed_run hb).elim
            · cases he
              exact helse

end

/-! ## What the rest of the program does is done here too -/

theorem performs {s : Server} {c : Cmd} (now : Time) (fresh : Fresh) {a : c.Answer} {db' : Db}
    (h : c.perform now fresh s.db = (a, db')) (hd : Server.Draws s.issued (c.draws fresh)) :
    Exec s c (.ok a) ⟨db', c.draws fresh ++ s.issued⟩ := by
  have hx : Exec s c _ _ := .performed now fresh hd
  rwa [h] at hx

/-- A run of the store's machine, none of it this module's to do, is one of this machine. -/
theorem run_elsewhere {cmds : List Command} (hcmds : ∀ cmd ∈ cmds, Elsewhere cmd = true) {s : Server}
    (hp : s.Playable cmds) {task : Nat → Option (Job × Task Reply)} {n : Nat} (hn : ∀ i ≥ n, task i = none) :
    ∃ es task', Lts.Run Step ⟨s, task⟩ es ⟨s.script cmds, task'⟩ ∧
      (∀ i ≥ n + cmds.length, task' i = none) ∧
      ∀ i c r, .answer i c r ∈ es → ∃ cmd, c = .run cmd := by
  induction cmds generalizing s task n with
  | nil => exact ⟨[], task, .nil _, hn, by simp⟩
  | cons cmd cmds ih =>
    let job : Job := .other cmd (hcmds cmd List.mem_cons_self)
    let task₁ := Function.update task n (some (job, job.body))
    let task₂ := Function.update task₁ n (some (job, .done (.ok .noContent)))
    have hfree : ∀ i ≥ n + 1, task₂ i = none := by
      intro i hi
      have hne : i ≠ n := by omega
      simp only [task₂, task₁, Function.update_of_ne hne]
      exact hn i (by omega)
    obtain ⟨es, task', hr, hn', hes⟩ := ih (fun c hc => hcmds c (List.mem_cons_of_mem _ hc)) hp.2 hfree
    have hx : Exec s (.run cmd) (.ok (.ok ())) (s.after cmd) := performs 0 ⟨"", "", ""⟩ rfl hp.1
    refine ⟨.start n job :: .answer n (.run cmd) (.ok (.ok ())) :: es, task', ?_, ?_, ?_⟩
    · exact .cons (.start job (hn n (Nat.le_refl n))) (.cons (.answer (Function.update_self ..) hx) hr)
    · intro i hi
      exact hn' i (by rw [List.length_cons] at hi; omega)
    · intro i c r hm
      rcases List.mem_cons.mp hm with h | hm
      · cases h
      rcases List.mem_cons.mp hm with h | hm
      · cases h
        exact ⟨cmd, rfl⟩
      · exact hes i c r hm

/-! Ann enrolls as an administrator, signs in, makes a collection and hands its key on to Bob. -/

def enrollment : EnrollmentInput := {
  kdfSalt := "salt", kdfParams := defaultKDFParamsJSON, authHash := .argon2id "s" "password"
  protectedUserKey := "key-under-password", publicKey := "public", encryptedPrivateKey := "private"
  recoverySalt := "recovery-salt", recoveryProtectedUserKey := "key-under-code"
  recoveryKDFParams := defaultKDFParamsJSON, recoveryAuthHash := .argon2id "s" "code" }

def setup (role : String) : List Command := [
  .createPendingUser 0 "ann" "ann@home" "Ann" role,
  .createInvite 0 "invite" "token" "ann" inviteTTL,
  .completeEnrollment 0 (newInvite 0 "invite" "token" "ann" inviteTTL) enrollment,
  .createSession 0 "session" "access" "refresh" "ann" "laptop",
  .createPendingUser 0 "bob" "bob@home" "Bob" "user",
  .createInvite 0 "bobs-invite" "bobs-token" "bob" inviteTTL,
  .completeEnrollment 0 (newInvite 0 "bobs-invite" "bobs-token" "bob" inviteTTL) enrollment]

def populated : Server := Server.fresh.script (setup "admin")

def annSession : Session := newSession 0 "session" "access" "refresh" "ann" "laptop"

def annUser (role : UserRole) : User := (pendingUser 0 "ann" "ann@home" "Ann" role).enrolled 0 enrollment

def bobUser : User := (pendingUser 0 "bob" "bob@home" "Bob" .user).enrolled 0 enrollment

theorem ann_signed_in : sessionByAccessToken 0 "access" populated.db = .ok annSession ∧
    userByID "ann" populated.db = .ok (annUser .admin) := by
  decide +kernel

def home : Collection := ⟨"home", "Home", "ann", 0⟩

def withHome : Except StoreError Collection × Db :=
  createCollection 0 "home" "audit" "Home" "ann" "key" (touchSession 0 "session" populated.db)

theorem home_created : withHome.1 = .ok home ∧ Server.Draws populated.issued ["home", "audit"] := by
  decide +kernel

def annManages : Membership := ⟨"home", "ann", "key", .manager, "ann", 0, 1⟩

def withBob : Except StoreError Unit × Db :=
  fulfilGrantOrAdd 0 "bobs-audit" "home" "bob" "sealed" "member" "ann" (touchSession 0 "session" withHome.2)

theorem home_shared : sessionByAccessToken 0 "access" withHome.2 = .ok annSession ∧
    userByID "ann" withHome.2 = .ok (annUser .admin) ∧
    membershipFor "home" "ann" (touchSession 0 "session" withHome.2) = .ok annManages ∧
    userByID "bob" (touchSession 0 "session" withHome.2) = .ok bobUser ∧ withBob.1 = .ok () ∧
    (withBob.2.memberships.get? ("home", "bob")).isSome = true ∧
    Server.Draws (["home", "audit"] ++ populated.issued) ["bobs-audit"] := by
  decide +kernel

def asking (i : Nat) : List Event := [
  .answer i (.sessionByAccessToken "access") (.ok (.ok annSession)),
  .answer i (.userByID "ann") (.ok (.ok (annUser .admin))),
  .answer i (.touchSession "session") (.ok (.ok ()))]

def makeHome : Request := .createCollection (.ok ⟨"Home", "key"⟩)

def makesHome (i : Nat) : List Event :=
  .start i (.request (some "access") makeHome) :: asking i ++
    [.answer i (.createCollection "Home" "ann" "key") (.ok (.ok home))]

def addBob : Request := .addMember "home" (.ok ⟨"bob", "", "sealed"⟩)

def addsBob (i : Nat) : List Event :=
  .start i (.request (some "access") addBob) :: asking i ++ [
    .answer i (.membershipFor "home" "ann") (.ok (.ok annManages)),
    .answer i (.userByID "bob") (.ok (.ok bobUser)),
    .answer i (.membershipFor "home" "ann") (.ok (.ok annManages)),
    .answer i (.fulfilGrantOrAdd "home" "bob" "sealed" "member" "ann") (.ok (.ok ()))]

section
variable {db db' : Db} {issued : List String} {task : Nat → Option (Job × Task Reply)} {i : Nat}

theorem exec_read_at {c : Cmd} {a : c.Answer} (hdraws : c.draws ⟨"", "", ""⟩ = [])
    (h : c.perform 0 ⟨"", "", ""⟩ db = (a, db')) : Exec ⟨db, issued⟩ c (.ok a) ⟨db', issued⟩ := by
  have hx : Exec ⟨db, issued⟩ c (.ok a) ⟨db', c.draws ⟨"", "", ""⟩ ++ issued⟩ :=
    performs 0 ⟨"", "", ""⟩ h (by rw [hdraws]; exact ⟨List.nodup_nil, by simp⟩)
  rwa [hdraws] at hx

/-- The access token of the session is let in as its user. -/
theorem exec_signedIn {user : User} (hsession : sessionByAccessToken 0 "access" db = .ok annSession)
    (huser : userByID "ann" db = .ok user) :
    Exec ⟨db, issued⟩ (.sessionByAccessToken "access") (.ok (.ok annSession)) ⟨db, issued⟩ ∧
    Exec ⟨db, issued⟩ (.userByID "ann") (.ok (.ok user)) ⟨db, issued⟩ ∧
    Exec ⟨db, issued⟩ (.touchSession "session") (.ok (.ok ())) ⟨touchSession 0 "session" db, issued⟩ := by
  have hread : Exec ⟨db, issued⟩ (.userByID "ann") (.ok (.ok user)) ⟨db, issued⟩ :=
    exec_read_at rfl (Prod.ext huser rfl)
  exact ⟨exec_read_at rfl (Prod.ext hsession rfl), hread, exec_read_at rfl rfl⟩

variable (hi : task i = none) (hsession : sessionByAccessToken 0 "access" db = .ok annSession)
  (huser : userByID "ann" db = .ok (annUser .admin))
include hi hsession huser

theorem run_makeHome
    (hcreate : createCollection 0 "home" "audit" "Home" "ann" "key" (touchSession 0 "session" db) = (.ok home, db'))
    (hdraws : Server.Draws issued ["home", "audit"]) :
    ∃ task', Lts.Run Step ⟨⟨db, issued⟩, task⟩ (makesHome i)
      ⟨⟨db', ["home", "audit"] ++ issued⟩, task'⟩ ∧
      ∀ k, k ≠ i → task' k = task k := by
  obtain ⟨h₁, h₂, h₃⟩ := exec_signedIn hsession huser
  have h₄ : Exec ⟨touchSession 0 "session" db, issued⟩ (.createCollection "Home" "ann" "key") (.ok (.ok home))
      ⟨db', ["home", "audit"] ++ issued⟩ := performs 0 ⟨"home", "audit", ""⟩ hcreate hdraws
  refine ⟨_, run_start hi <| run_answer h₁ <| run_answer h₂ <| run_answer h₃ <| run_answer h₄ <| .nil _, ?_⟩
  exact fun k hk => Function.update_of_ne hk ..

theorem run_addBob (hmember : membershipFor "home" "ann" (touchSession 0 "session" db) = .ok annManages)
    (hbob : userByID "bob" (touchSession 0 "session" db) = .ok bobUser)
    (hadd : fulfilGrantOrAdd 0 "bobs-audit" "home" "bob" "sealed" "member" "ann" (touchSession 0 "session" db) =
      (.ok (), db')) (hdraws : Server.Draws issued ["bobs-audit"]) :
    ∃ task', Lts.Run Step ⟨⟨db, issued⟩, task⟩ (addsBob i)
      ⟨⟨db', ["bobs-audit"] ++ issued⟩, task'⟩ := by
  obtain ⟨h₁, h₂, h₃⟩ := exec_signedIn hsession huser
  have h₄ : Exec ⟨touchSession 0 "session" db, issued⟩ (.membershipFor "home" "ann") (.ok (.ok annManages))
      ⟨touchSession 0 "session" db, issued⟩ := exec_read_at rfl (Prod.ext hmember rfl)
  have h₅ : Exec ⟨touchSession 0 "session" db, issued⟩ (.userByID "bob") (.ok (.ok bobUser))
      ⟨touchSession 0 "session" db, issued⟩ := exec_read_at rfl (Prod.ext hbob rfl)
  have h₆ : Exec ⟨touchSession 0 "session" db, issued⟩ (.fulfilGrantOrAdd "home" "bob" "sealed" "member" "ann")
      (.ok (.ok ())) ⟨db', ["bobs-audit"] ++ issued⟩ := performs 0 ⟨"", "bobs-audit", ""⟩ hadd hdraws
  exact ⟨_, run_start hi <| run_answer h₁ <| run_answer h₂ <| run_answer h₃ <| run_answer h₄ <|
    run_answer h₅ <|
    run_answer h₄ <| run_answer h₆ <| .nil _⟩

end

theorem ann_makes_home {task : Nat → Option (Job × Task Reply)} {i : Nat} (hi : task i = none) :
    ∃ task', Lts.Run Step ⟨populated, task⟩ (makesHome i)
      ⟨⟨withHome.2, ["home", "audit"] ++ populated.issued⟩, task'⟩ ∧
      ∀ k, k ≠ i → task' k = task k :=
  run_makeHome hi ann_signed_in.1 ann_signed_in.2 (Prod.ext home_created.1 rfl) home_created.2

theorem authority_home : Backed (Since Job.body ⟨populated, fun _ => none⟩
    (.start 0 (.request (some "access") makeHome) :: asking 0)) (some "access")
    (.createCollection "Home" "ann" "key") := by
  obtain ⟨task', h, -⟩ := @ann_makes_home (fun _ => none) 0 rfl
  exact authority h

/-- Bob holds the key of a collection that Ann has made, and both are in the circle. -/
theorem enclosed_home : ∃ m ∈ withBob.2.memberships, m.collectionID = "home" ∧ m.userID = "bob" ∧
    m.userID ∈ ["ann", "bob"] := by
  have hsetup : ∀ cmd ∈ setup "admin", Elsewhere cmd = true := by decide
  have hplay : Server.fresh.Playable (setup "admin") := by decide +kernel
  obtain ⟨es, task, hr, hfree, hes⟩ := run_elsewhere hsetup hplay (n := 0)
    (fun _ _ => rfl : ∀ i ≥ 0, start.task i = none)
  obtain ⟨task', h, hkept⟩ := @ann_makes_home task 7 (hfree 7 (by decide))
  obtain ⟨hsession, huser, hmember, hbob, hadd, hholds, hdraws⟩ := home_shared
  obtain ⟨task'', h'⟩ := run_addBob ((hkept 8 (by decide)).trans (hfree 8 (by decide))) hsession huser hmember hbob
    (Prod.ext hadd rfl) hdraws
  have hw : Answered (Within (· ∈ ["ann", "bob"]) "home") (es ++ (makesHome 7 ++ addsBob 8)) := by
    intro i c r hm
    rcases List.mem_append.mp hm with hm | hm
    · obtain ⟨cmd, rfl⟩ := hes i c r hm
      trivial
    · simp only [makesHome, addsBob, asking, List.cons_append, List.nil_append, List.mem_cons, List.not_mem_nil,
        or_false, reduceCtorEq, false_or, Event.answer.injEq] at hm
      rcases hm with ⟨-, rfl, hr⟩ | ⟨-, rfl, hr⟩ | ⟨-, rfl, hr⟩ | ⟨-, rfl, hr⟩ | ⟨-, rfl, hr⟩
        | ⟨-, rfl, hr⟩ |
        ⟨-, rfl, hr⟩ | ⟨-, rfl, hr⟩ | ⟨-, rfl, hr⟩ | ⟨-, rfl, hr⟩ | ⟨-, rfl, hr⟩ <;> cases hr
      · trivial
      · trivial
      · trivial
      · exact fun _ => List.mem_cons_self
      · trivial
      · trivial
      · trivial
      · trivial
      · trivial
      · trivial
      · exact fun _ _ => List.mem_cons_of_mem _ List.mem_cons_self
  obtain ⟨m, hm, hk⟩ := Table.get?_isSome.mp hholds
  have hc : m.collectionID = "home" := congrArg Prod.fst hk
  exact ⟨m, hm, hc, congrArg Prod.snd hk, enclosed (hr.append (h.append h')) hw m hm hc⟩

end Keyhole.Http.Managing
