import Keyhole.Http.Authority

/-!
# What an outsider learns of a collection

Nothing, not even that it exists: whatever is asked about it, the answer is
the one that there would be if there were no such collection.
-/

namespace Keyhole.Http.Managing
open Store Sql Await Proc

/-- The requests that name the collection, and the lists it could be in. -/
def Request.Concerns (collectionID : Id) : Request → Prop
  | listCollections | listPendingGrants => True
  | deleteCollection c | listMembers c | addMember c _ | removeMember c _ | fulfilGrant c _ => c = collectionID
  | createCollection _ | adminCreateUser _ | adminReissueInvite _ | adminPatchUser .. | adminResetUser ..
  | adminDeleteUser _ => False

/-- What is wrong with the body, if it does not decode. -/
def Request.undecoded : Request → Option String
  | addMember _ (.error message) | fulfilGrant _ (.error message) => some message
  | _ => none

def adminRequired : Response := forbidden "this action requires an administrator"

def failure : Response := internalError "could not process the request"

/-- An answer to `req` that says nothing of the collection. -/
def Silent (collectionID : Id) (req : Request) : Except Response Reply → Prop
  | .error e => e = authenticationRequired ∨ e = adminRequired ∨ e = noSuchCollection ∨ e = failure ∨
      ∃ message, req.undecoded = some message ∧ e = badRequest message
  | .ok (.collections collections grants) =>
    (∀ c ∈ collections, c.id ≠ collectionID) ∧ ∀ g ∈ grants, g.collectionID ≠ collectionID
  | .ok (.pendingGrants grants) => ∀ g ∈ grants, g.collectionID ≠ collectionID
  | .ok _ => False

/-- Whoever the token stands for has no part in the collection. -/
def Outside (since : (Db → Prop) → Prop) (token : Option String) (collectionID : Id) : Prop :=
  ∀ actor, Standing since token actor → actor.role ≠ .admin ∧ ¬ WasMember since actor collectionID

section
variable {w w' : Pool} {es : List Event} {token : Option String} {collectionID : Id}

theorem silent_failure (req : Request) (what : String) :
    Silent collectionID req (.error (writeStoreError (.internal what))) :=
  .inr (.inr (.inr (.inl rfl)))

theorem silent_missing (req : Request) : Silent collectionID req (.error noSuchCollection) :=
  .inr (.inr (.inl rfl))

theorem silent_adminRequired (req : Request) : Silent collectionID req (.error adminRequired) := .inr (.inl rfl)

/-- A call that fails does so for a reason of its own, or for one that is not told. -/
theorem gives_error {c : Cmd} {e : StoreError} (h : Gives Job.body w es c (.error e)) :
    (∃ now fresh db, (c.perform now fresh db).1 = .error e) ∨ ∃ what, e = .internal what := by
  obtain ⟨_, _, u, _, _, s', hx⟩ := h
  generalize hr : (.ok (.error e) : Except Response c.Answer) = r at hx
  cases hx with
  | performed now fresh _ => exact .inl ⟨now, fresh, _, (Except.ok.inj hr).symm⟩
  | failed what =>
    cases hr
    exact .inr ⟨what, rfl⟩

theorem membershipFor_error {c u : Id} {db : Db} {e : StoreError} (h : membershipFor c u db = .error e) :
    e = .notFound := by
  unfold membershipFor at h
  split at h
  · cases h
  · cases h
    rfl

theorem member_of_fulfillable {db : Db} {userID : Id} {g : ListedGrant}
    (h : g ∈ db.pendingGrantsFulfillableBy userID) :
    db.isMember userID g.collectionID = true := by
  unfold Db.pendingGrantsFulfillableBy at h
  rw [List.mem_insertionSort, List.mem_filterMap] at h
  obtain ⟨row, -, h⟩ := h
  split at h
  · rename_i hm
    obtain ⟨c, -, rfl⟩ := Option.map_eq_some_iff.mp h
    exact hm
  · cases h

/-- What an outsider's request about the collection asks of the store. -/
def Cmd.Quiet (since : (Db → Prop) → Prop) (token : Option String) (collectionID : Id) : Cmd → Prop
  | .sessionByAccessToken _ | .userByID _ => True
  | .touchSession id => (Cmd.touchSession id).Extends since token
  | .membershipFor c u => c = collectionID ∧ ∃ actor, Standing since token actor ∧ u = actor.id
  | .collectionsForUser u | .pendingGrantsFulfillableBy u => ∃ actor, Standing since token actor ∧ u = actor.id
  | _ => False

theorem Cmd.Quiet.reads {since : (Db → Prop) → Prop} {c : Cmd} (h : c.Quiet since token collectionID) :
    c.Reads ∨ c.Extends since token := by
  cases c with
  | touchSession id => exact .inr h
  | sessionByAccessToken | userByID | membershipFor | collectionsForUser | pendingGrantsFulfillableBy =>
    exact .inl trivial
  | _ => exact h.elim

abbrev Hushed {α : Type} (w : Pool) (es : List Event) (token : Option String) (collectionID : Id)
    (Q : Except Response α → Prop) (p : Task α) : Prop :=
  p.Meets (Cmd.Quiet (Since Job.body w es) token collectionID) (Gave Exec Job.body w es) Q

section
variable {α : Type} {Q : Except Response α → Prop} {req : Request} {actor : User}

theorem hushed_requireAuth {next : User → Task α} (hq : Q (.error authenticationRequired))
    (h : ∀ actor, Standing (Since Job.body w es) token actor → Hushed w es token collectionID Q (next actor)) :
    Hushed w es token collectionID Q (requireAuth token next) := by
  refine meets_requireAuth (fun _ => trivial) (fun _ => trivial) (fun c hc => ?_) hq h
  cases c with
  | touchSession id => exact hc
  | _ => exact hc.elim

variable (hs : Standing (Since Job.body w es) token actor) (hadm : actor.role ≠ .admin)
include hs

/-- Where the membership of an outsider is looked for, it is not found. -/
theorem hushed_membershipFor (hout : ¬ WasMember (Since Job.body w es) actor collectionID)
    {f : Except StoreError Membership → Task α} (hnone : Hushed w es token collectionID Q (f (.error .notFound)))
    (hfail : ∀ what, Hushed w es token collectionID Q (f (.error (.internal what)))) :
    Hushed w es token collectionID Q (call (.membershipFor collectionID actor.id) >>= f) := by
  refine meets_call ⟨rfl, actor, hs, rfl⟩ fun a ha => ?_
  cases a with
  | ok m => exact absurd ha.member hout
  | error e =>
    rcases gives_error ha with ⟨now, fresh, db, he⟩ | ⟨what, rfl⟩
    · rw [membershipFor_error he]
      exact hnone
    · exact hfail what

omit hs in
theorem hushed_decodeJSON {β : Type} {body : Except String β} {f : β → Task Reply}
    (hbody : ∀ message, body = .error message → req.undecoded = some message)
    (h : ∀ b, Hushed w es token collectionID (Silent collectionID req) (f b)) :
    Hushed w es token collectionID (Silent collectionID req) (decodeJSON body >>= f) := by
  cases body with
  | ok b => exact h b
  | error message => exact .inr (.inr (.inr (.inr ⟨message, hbody message rfl, rfl⟩)))

omit hs in
theorem hushed_requireAdmin {next : User → Task Reply} (hout : Outside (Since Job.body w es) token collectionID) :
    Hushed w es token collectionID (Silent collectionID req) (requireAdmin token next) := by
  refine hushed_requireAuth (.inl rfl) fun actor hs => ?_
  rw [if_pos (hout actor hs).1]
  exact silent_adminRequired req

include hadm

theorem hushed_requireManager (hout : ¬ WasMember (Since Job.body w es) actor collectionID)
    (f : Unit → Task Reply) :
    Hushed w es token collectionID (Silent collectionID req) (requireManager actor collectionID >>= f) := by
  refine Meets.bind (P := fun _ => False) ?_ fun _ => False.elim
  refine hushed_membershipFor hs hout ?_ fun what => ⟨by simp, fun e h => ?_⟩
  · simp only [if_pos hadm]
    refine ⟨by simp, fun e h => ?_⟩
    cases h
    exact silent_missing req
  · cases h
    exact silent_failure req what

theorem hushed_pendingGrantsFor (hout : ¬ WasMember (Since Job.body w es) actor collectionID)
    {f : List ListedGrant → Task Reply}
    (h : ∀ grants, (∀ g ∈ grants, g.collectionID ≠ collectionID) →
      Hushed w es token collectionID (Silent collectionID req) (f grants)) :
    Hushed w es token collectionID (Silent collectionID req) (pendingGrantsFor actor >>= f) := by
  refine Meets.bind (P := fun grants => ∀ g ∈ grants, g.collectionID ≠ collectionID) ?_ h
  unfold pendingGrantsFor
  rw [if_neg hadm]
  refine meets_call ⟨actor, hs, rfl⟩ fun a ha => ?_
  cases a with
  | ok grants =>
    refine ⟨?_, by simp⟩
    rintro grants' he g hg rfl
    cases he
    apply hout
    unfold WasMember
    exact ha.since fun _ _ db hv => isMember_iff.mp (member_of_fulfillable (Except.ok.inj hv ▸ hg))
  | error e =>
    refine ⟨by simp, ?_⟩
    rintro e' he
    cases he
    rcases gives_error ha with ⟨now, fresh, db, he⟩ | ⟨what, rfl⟩
    · cases he
    · exact silent_failure req what

omit hadm in
theorem hushed_collectionsForUser (hout : ¬ WasMember (Since Job.body w es) actor collectionID)
    {f : List CollectionWithMembership → Task Reply}
    (h : ∀ collections, (∀ c ∈ collections, c.id ≠ collectionID) →
      Hushed w es token collectionID (Silent collectionID req) (f collections)) :
    Hushed w es token collectionID (Silent collectionID req)
      (call (.collectionsForUser actor.id) >>= fun a => orStoreError a >>= f) := by
  refine meets_call ⟨actor, hs, rfl⟩ fun a ha => ?_
  cases a with
  | ok collections =>
    refine h collections ?_
    rintro c hc rfl
    apply hout
    unfold WasMember
    refine ha.since fun _ _ db hv => ?_
    obtain ⟨m, hm, hu, hcol, -⟩ := mem_collectionsForUser (Except.ok.inj hv ▸ hc)
    exact Table.get?_isSome.mpr ⟨m, hm, Prod.ext hcol hu⟩
  | error e =>
    rcases gives_error ha with ⟨now, fresh, db, he⟩ | ⟨what, rfl⟩
    · cases he
    · exact silent_failure req what

end

theorem hushed_serve (hout : Outside (Since Job.body w es) token collectionID) {req : Request}
    (hreq : req.Concerns collectionID) :
    Hushed w es token collectionID (Silent collectionID req) (req.serve token) := by
  have hauth : ∀ {next : User → Task Reply}, (∀ actor, Standing (Since Job.body w es) token actor →
      actor.role ≠ .admin → ¬ WasMember (Since Job.body w es) actor collectionID →
        Hushed w es token collectionID (Silent collectionID req) (next actor)) →
      Hushed w es token collectionID (Silent collectionID req) (requireAuth token next) :=
    fun h => hushed_requireAuth (.inl rfl) fun actor hs => h actor hs (hout actor hs).1 (hout actor hs).2
  cases req with
  | listCollections =>
    refine hauth fun actor hs hadm hm => hushed_collectionsForUser hs hm fun collections hc => ?_
    exact hushed_pendingGrantsFor hs hadm hm fun grants hg => ⟨hc, hg⟩
  | listPendingGrants => exact hauth fun actor hs hadm hm => hushed_pendingGrantsFor hs hadm hm fun grants hg => hg
  | deleteCollection c => exact hushed_requireAdmin hout
  | listMembers c =>
    cases hreq
    refine hauth fun actor hs hadm hm => hushed_membershipFor hs hm ?_ fun what => silent_failure _ what
    simp only [if_pos hadm]
    exact silent_missing _
  | addMember c body =>
    cases hreq
    refine hauth fun actor hs hadm hm => hushed_decodeJSON ?_ fun req => hushed_requireManager hs hadm hm _
    rintro message rfl
    rfl
  | removeMember c u =>
    cases hreq
    exact hauth fun actor hs hadm hm => hushed_requireManager hs hadm hm _
  | fulfilGrant c body =>
    cases hreq
    refine hauth fun actor hs hadm hm => hushed_decodeJSON ?_ fun req => ?_
    · rintro message rfl
      rfl
    · exact hushed_membershipFor hs hm (silent_missing _) fun what => silent_failure _ what
  | createCollection | adminCreateUser | adminReissueInvite | adminPatchUser | adminResetUser | adminDeleteUser =>
    exact hreq.elim

end

/-! ## Two worlds -/

/-- The two differ in nothing that a request reads but the rows of the collection. -/
structure Apart (collectionID : Id) (db db' : Db) : Prop where
  users : db.users = db'.users
  sessions : db.sessions = db'.sessions
  collections : db.collections.filter (·.id ≠ collectionID) = db'.collections.filter (·.id ≠ collectionID)
  memberships : db.memberships.filter (·.collectionID ≠ collectionID) =
    db'.memberships.filter (·.collectionID ≠ collectionID)
  pendingGrants : db.pendingGrants.filter (·.collectionID ≠ collectionID) =
    db'.pendingGrants.filter (·.collectionID ≠ collectionID)

/-- What a call of the store is answered from. -/
structure Moment where
  shared : Server
  now : Time
  fresh : Fresh
  failure : Option String

def Moment.answer (m : Moment) (c : Cmd) : Except Response c.Answer :=
  .ok (match m.failure with
    | none => (c.perform m.now m.fresh m.shared.db).1
    | some what => .error (.internal what))

theorem exec_moment (s : Server) (c : Cmd) (r : Except Response c.Answer) (s' : Server) (h : Exec s c r s') :
    ∃ m : Moment, m.shared = s ∧ r = m.answer c := by
  cases h with
  | performed now fresh _ => exact ⟨⟨s, now, fresh, none⟩, rfl, rfl⟩
  | failed what => exact ⟨⟨s, 0, ⟨"", "", ""⟩, some what⟩, rfl, rfl⟩

/-- A run whose request `i` is answered from `ms`, one after the other. -/
abbrev Heard (i : Nat) : Pool → List Event → List Moment → Pool → Prop :=
  Hears Exec Job.body Moment.answer Moment.shared i

/-- Every run is one of these, for each of its requests. -/
theorem heard_of_run (i : Nat) {w w' : Pool} {es : List Event} (h : Lts.Run Step w es w') :
    ∃ ms, Heard i w es ms w' :=
  hears_of_run exec_moment i h

/-- The same time and the same failures, and two databases that differ in the collection only. -/
structure Moment.Apart (collectionID : Id) (m n : Moment) : Prop where
  db : Managing.Apart collectionID m.shared.db n.shared.db
  now : m.now = n.now
  failure : m.failure = n.failure

section
variable {collectionID : Id} {db db' : Db}

/-- The rows that `f` passes over anyway. -/
theorem filterMap_skip {α β : Type} {f : α → Option β} {p : α → Bool} {l : List α}
    (h : ∀ a ∈ l, p a = false → f a = none) : l.filterMap f = (l.filter p).filterMap f := by
  rw [List.filterMap_filter]
  refine List.filterMap_congr fun a ha => ?_
  cases hp : p a with
  | true => rfl
  | false => exact h a ha hp

theorem apart_collection (h : Apart collectionID db db') {c : Id} (hc : c ≠ collectionID) :
    db.collections.get? c = db'.collections.get? c :=
  Table.get?_of_filter h.collections fun r hr => by simp [hr, hc]

theorem apart_membership (h : Apart collectionID db db') {c u : Id} (hc : c ≠ collectionID) :
    db.memberships.get? (c, u) = db'.memberships.get? (c, u) :=
  Table.get?_of_filter h.memberships fun r hr => by simp [show r.collectionID = c from congrArg Prod.fst hr, hc]

theorem isMember_eq (db : Db) (u c : Id) : db.isMember u c = (db.memberships.get? (c, u)).isSome := by
  rw [Bool.eq_iff_iff, isMember_iff]

variable {u : Id} (h : Apart collectionID db db') (hu : db.memberships.get? (collectionID, u) = none)
  (hu' : db'.memberships.get? (collectionID, u) = none)
include h hu hu'

theorem apart_isMember (c : Id) : db.isMember u c = db'.isMember u c := by
  rw [isMember_eq, isMember_eq]
  by_cases hc : c = collectionID
  · rw [hc, hu, hu']
  · rw [apart_membership h hc]

theorem apart_collectionsForUser : db.collectionsForUser u = db'.collectionsForUser u := by
  have hskip : ∀ {v : Db}, v.memberships.get? (collectionID, u) = none → ∀ m ∈ v.memberships.rows,
      decide (m.collectionID ≠ collectionID) = false → m.userID ≠ u := by
    intro v hv m hm hp hmu
    have hc : m.collectionID = collectionID := by simpa using hp
    exact Table.get?_eq_none.mp hv m hm (Prod.ext hc hmu)
  unfold Vault.collectionsForUser
  refine congrArg (List.insertionSort _) ?_
  rw [filterMap_skip (p := fun m => m.collectionID ≠ collectionID) (l := db.memberships.rows)
      fun m hm hp => if_neg (hskip hu m hm hp),
    filterMap_skip (p := fun m => m.collectionID ≠ collectionID) (l := db'.memberships.rows)
      fun m hm hp => if_neg (hskip hu' m hm hp)]
  change (db.memberships.filter _).filterMap _ = (db'.memberships.filter _).filterMap _
  rw [h.memberships]
  refine List.filterMap_congr fun m hm => ?_
  rw [apart_collection h (by simpa using (Table.mem_filter.mp hm).2)]

theorem apart_pendingGrants : db.pendingGrantsFulfillableBy u = db'.pendingGrantsFulfillableBy u := by
  have hskip : ∀ {v : Db}, v.memberships.get? (collectionID, u) = none → ∀ g : PendingGrant,
      decide (g.collectionID ≠ collectionID) = false → v.isMember u g.collectionID = false := by
    intro v hv g hg
    rw [isMember_eq, show g.collectionID = collectionID by simpa using hg, hv]
    rfl
  unfold Db.pendingGrantsFulfillableBy
  refine congrArg (List.insertionSort _) ?_
  rw [filterMap_skip (p := fun g => g.collectionID ≠ collectionID) (l := db.pendingGrants.rows)
      fun g _ hg => by rw [hskip hu g hg]; rfl,
    filterMap_skip (p := fun g => g.collectionID ≠ collectionID) (l := db'.pendingGrants.rows)
      fun g _ hg => by rw [hskip hu' g hg]; rfl]
  change (db.pendingGrants.filter _).filterMap _ = (db'.pendingGrants.filter _).filterMap _
  rw [h.pendingGrants]
  refine List.filterMap_congr fun g hg => ?_
  rw [apart_isMember h hu hu', apart_collection h (by simpa using (Table.mem_filter.mp hg).2)]

end

/-- What an outsider's request asks is answered alike in both worlds. -/
theorem quiet_answer {since : (Db → Prop) → Prop} {token : Option String} {collectionID : Id} {c : Cmd}
    {m n : Moment} (hc : c.Quiet since token collectionID) (h : m.Apart collectionID n)
    (hm : ∀ actor, Standing since token actor → m.shared.db.memberships.get? (collectionID, actor.id) = none)
    (hn : ∀ actor, Standing since token actor → n.shared.db.memberships.get? (collectionID, actor.id) = none) :
    m.answer c = n.answer c := by
  unfold Moment.answer
  rw [h.failure]
  cases n.failure with
  | some what => rfl
  | none =>
    cases c with
    | sessionByAccessToken t =>
      simp only [Cmd.perform, sessionByAccessToken, h.db.sessions, h.now]
    | userByID id => simp only [Cmd.perform, userByID, h.db.users]
    | touchSession id => rfl
    | membershipFor c u =>
      obtain ⟨rfl, actor, hs, rfl⟩ := hc
      simp only [Cmd.perform, membershipFor, hm actor hs, hn actor hs]
    | collectionsForUser u =>
      obtain ⟨actor, hs, rfl⟩ := hc
      simp only [Cmd.perform, apart_collectionsForUser h.db (hm actor hs) (hn actor hs)]
    | pendingGrantsFulfillableBy u =>
      obtain ⟨actor, hs, rfl⟩ := hc
      simp only [Cmd.perform, apart_pendingGrants h.db (hm actor hs) (hn actor hs)]
    | _ => exact hc.elim

/-! ## The handlers make no choices of their own -/

section
variable {α β : Type} {user : User}

theorem plain_call {c : Cmd} {f : c.Answer → Task α} (h : ∀ a, (f a).Plain) : (call c >>= f).Plain :=
  Plain.bind (fun _ => trivial) h

theorem plain_orStoreError {r : Except StoreError β} {f : β → Task α} (h : ∀ v, (f v).Plain) :
    (orStoreError r >>= f).Plain := by
  cases r with
  | ok v => exact h v
  | error e => trivial

theorem plain_decodeJSON {body : Except String β} {f : β → Task α} (h : ∀ req, (f req).Plain) :
    (decodeJSON body >>= f).Plain := by
  cases body with
  | ok req => exact h req
  | error message => trivial

theorem plain_requireAuth {token : Option String} {next : User → Task α} (h : ∀ user, (next user).Plain) :
    (requireAuth token next).Plain := by
  unfold requireAuth
  split
  · trivial
  · trivial
  · refine plain_call fun a => ?_
    cases a with
    | error e => trivial
    | ok session =>
      refine plain_call fun a => ?_
      cases a with
      | error e => trivial
      | ok user =>
        simp only
        split
        · trivial
        · exact plain_call fun _ => h user

theorem plain_requireAdmin {token : Option String} {next : User → Task α} (h : ∀ user, (next user).Plain) :
    (requireAdmin token next).Plain := by
  refine plain_requireAuth fun user => ?_
  split
  · trivial
  · exact h user

theorem plain_requireManager (user : User) (collectionID : Id) : (requireManager user collectionID).Plain := by
  refine plain_call fun a => ?_
  cases a with
  | ok membership =>
    simp only
    split <;> trivial
  | error e =>
    cases e with
    | notFound =>
      simp only
      split
      · trivial
      · refine plain_call fun a => ?_
        cases a <;> trivial
    | _ => trivial

theorem plain_pendingGrantsFor (user : User) : (pendingGrantsFor user).Plain := by
  unfold pendingGrantsFor
  split
  · refine plain_call fun a => ?_
    cases a <;> trivial
  · refine plain_call fun a => ?_
    cases a <;> trivial

theorem plain_memberEntries (memberships : List Membership) : (memberEntries memberships).Plain := by
  induction memberships with
  | nil => trivial
  | cons membership rest ih =>
    refine Plain.bind ?_ fun entry => Plain.bind ih fun entries => trivial
    exact plain_call fun a => plain_orStoreError fun member => trivial

theorem plain_audit (actorID : Id) (action target : String) : (audit actorID action target).Plain := by
  unfold audit
  exact plain_call fun _ => trivial

end

/-- Only what is about a collection is asked here. -/
theorem plain_serve {collectionID : Id} {req : Request} (hreq : req.Concerns collectionID) (token : Option String) :
    (req.serve token).Plain := by
  cases req with
  | listCollections =>
    refine plain_requireAuth fun user => plain_call fun a => plain_orStoreError fun collections => ?_
    exact Plain.bind (plain_pendingGrantsFor user) fun grants => trivial
  | listPendingGrants =>
    exact plain_requireAuth fun user => Plain.bind (plain_pendingGrantsFor user) fun grants => trivial
  | deleteCollection id =>
    refine plain_requireAdmin fun user => plain_call fun a => plain_orStoreError fun _ => ?_
    exact Plain.bind (plain_audit _ _ _) fun _ => trivial
  | listMembers c =>
    refine plain_requireAuth fun user => plain_call fun a => ?_
    have hlist : (call (.membershipsOf c) >>= fun a => orStoreError a >>= fun memberships =>
        memberEntries memberships >>= fun entries => pure (.members entries) : Task Reply).Plain :=
      plain_call fun a => plain_orStoreError fun memberships =>
        Plain.bind (plain_memberEntries memberships) fun entries => trivial
    cases a with
    | ok _ => exact hlist
    | error e =>
      cases e with
      | notFound =>
        simp only
        split
        · trivial
        · exact hlist
      | _ => trivial
  | addMember c body =>
    refine plain_requireAuth fun user => plain_decodeJSON fun req => ?_
    refine Plain.bind (plain_requireManager user c) fun _ => plain_call fun a => ?_
    cases a with
    | error e => trivial
    | ok target =>
      simp only
      split
      · trivial
      · split
        · exact plain_call fun a => plain_orStoreError fun _ => trivial
        · refine plain_call fun a => plain_orStoreError fun _ => ?_
          exact plain_call fun a => plain_orStoreError fun _ => trivial
  | removeMember c u =>
    refine plain_requireAuth fun user => Plain.bind (plain_requireManager user c) fun _ => ?_
    exact plain_call fun a => plain_orStoreError fun _ => trivial
  | fulfilGrant c body =>
    refine plain_requireAuth fun user => plain_decodeJSON fun req => plain_call fun a => ?_
    split
    · trivial
    · trivial
    · split
      · trivial
      · exact plain_call fun a => plain_orStoreError fun _ => trivial
  | createCollection | adminCreateUser | adminReissueInvite | adminPatchUser | adminResetUser | adminDeleteUser =>
    exact hreq.elim

/-- Where the request is answered from is an instant of the run. -/
theorem heard_since {i : Nat} {w w' : Pool} {es : List Event} {ms : List Moment} (h : Heard i w es ms w')
    {m : Moment} (hm : m ∈ ms) {P : Db → Prop} (hP : P m.shared.db) : Since Job.body w es P := by
  induction h with
  | nil => cases hm
  | @answer w v w' m' c es ms he hstate h ih =>
    rcases List.mem_cons.mp hm with rfl | hm
    · exact ⟨[], _, w, rfl, .nil w, hstate ▸ hP⟩
    · exact (ih hm).cons he
  | beside he hne h ih => exact (ih hm).cons he

/-- Somebody with no part in a collection changes nothing about it, and is told nothing: where the same is asked
over databases that differ in the collection alone, the answer is the same. -/
theorem outsider {w w' : Pool} {es : List Event} {i : Nat} {token : Option String} {req : Request}
    {collectionID : Id} (h : Lts.Run Step w (.start i (.request token req) :: es) w')
    (hreq : req.Concerns collectionID)
    (hout : Outside (Since Job.body w (.start i (.request token req) :: es)) token collectionID) :
    (∀ r, w'.task i = some (.request token req, .done r) → Silent collectionID req r) ∧
      (∀ c r, .answer i c r ∈ es →
        c.Reads ∨ c.Extends (Since Job.body w (.start i (.request token req) :: es)) token) ∧
      ∀ {k : Nat} {v v' : Pool} {fs : List Event} {ms ns : List Moment},
        Heard i w (.start i (.request token req) :: es) ms w' →
          Heard k v (.start k (.request token req) :: fs) ns v' →
        List.Forall₂ (Moment.Apart collectionID) ms ns →
        (∀ n ∈ ns, ∀ actor, Standing (Since Job.body w (.start i (.request token req) :: es)) token actor →
          n.shared.db.memberships.get? (collectionID, actor.id) = none) →
        v'.task k = w'.task i := by
  have hbody : Hushed w (.start i (.request token req) :: es) token collectionID (Silent collectionID req)
      (Job.body (.request token req)) := hushed_serve hout hreq
  have hgave := run_gave h
  have hplain : (Job.body (.request token req)).Plain := plain_serve hreq token
  refine ⟨fun r hr => started_meets hbody h hgave hr, fun c r hm => ?_,
    fun {k v v' fs ms ns} hms hns hapart hnone => ?_⟩
  · have hc : c.Quiet _ token collectionID := started_awaited hbody h hgave hm
    exact hc.reads
  · have habsent : ∀ actor, Standing (Since Job.body w (.start i (.request token req) :: es)) token actor →
        ∀ m ∈ ms, m.shared.db.memberships.get? (collectionID, actor.id) = none := by
      intro actor hs m hm
      cases hget : m.shared.db.memberships.get? (collectionID, actor.id) with
      | none => rfl
      | some row =>
        have hmember : WasMember (Since Job.body w (.start i (.request token req) :: es)) actor collectionID := by
          unfold WasMember
          exact heard_since hms hm (Option.isSome_iff_exists.mpr ⟨row, hget⟩)
        exact absurd hmember (hout actor hs).2
    obtain ⟨hlength, hzip⟩ := List.forall₂_iff_zip.mp hapart
    have hboth : List.Forall₂ (fun m n => m ∈ ms ∧ n ∈ ns ∧ m.Apart collectionID n) ms ns :=
      List.forall₂_iff_zip.mpr
        ⟨hlength, fun hmn => ⟨(List.of_mem_zip hmn).1, (List.of_mem_zip hmn).2, hzip hmn⟩⟩
    have hagree : (Job.body (.request token req)).hear Moment.answer ms =
        (Job.body (.request token req)).hear Moment.answer ns := by
      refine hms.started_agree ?_ hgave hboth hplain hbody
      rintro c m n hc ⟨hm, hn, hmn⟩
      exact quiet_answer hc hmn (fun actor hs => habsent actor hs m hm) (fun actor hs => hnone n hn actor hs)
    rw [hms.started hplain, hns.started hplain, hagree]

/-! Ann is no administrator and in no collection, and there may be one of Bob's. -/

def lonely : Server := Server.fresh.script (setup "user")

def housed : Server := lonely.script [.createCollection 0 "home" "audit" "Home" "bob" "key"]

/-- What a request of Ann's can find, and leaves as it is. -/
structure AnnsView (db : Db) : Prop where
  users : db.users.rows = housed.db.users.rows
  memberships : db.memberships.rows = housed.db.memberships.rows
  sessions : ∀ s ∈ db.sessions, s.userID = "ann"

theorem ann_outside : sessionByAccessToken 0 "access" housed.db = .ok annSession ∧
    userByID "ann" housed.db = .ok (annUser .user) ∧ housed.db.memberships.rows.map Membership.userID = ["bob"] ∧
    (∀ user ∈ housed.db.users, user.id = "ann" → user = annUser .user) ∧
    ∀ s ∈ housed.db.sessions, s.userID = "ann" := by
  decide +kernel

theorem no_home : lonely.db.memberships.rows = [] ∧ lonely.db.hasCollection "home" = false ∧
    housed.db.hasCollection "home" = true := by
  decide +kernel

theorem housed_apart : Apart "home" housed.db lonely.db where
  users := by decide +kernel
  sessions := by decide +kernel
  collections := by decide +kernel
  memberships := by decide +kernel
  pendingGrants := by decide +kernel

theorem Apart.touched {collectionID : Id} {db db' : Db} (h : Apart collectionID db db') (now : Time) (id : Id) :
    Apart collectionID (touchSession now id db) (touchSession now id db') where
  users := h.users
  sessions := by
    unfold touchSession
    rw [h.sessions]
  collections := h.collections
  memberships := h.memberships
  pendingGrants := h.pendingGrants

def membersOfHome : Request := .listMembers "home"

def refused (i : Nat) : List Event := [
  .answer i (.sessionByAccessToken "access") (.ok (.ok annSession)),
  .answer i (.userByID "ann") (.ok (.ok (annUser .user))),
  .answer i (.touchSession "session") (.ok (.ok ())),
  .answer i (.membershipFor "home" "ann") (.ok (.error .notFound))]

theorem reads_keep {c : Cmd} (hc : c.Reads) (now : Time) (fresh : Fresh) (db : Db) :
    (c.perform now fresh db).2 = db := by
  cases c with
  | sessionByAccessToken | userByID | membershipFor | collectionByID | membershipsOf | collectionsForUser
  | allPendingGrants | pendingGrantsFulfillableBy => rfl
  | _ => exact hc.elim

theorem annsView_exec {s s' : Server} {c : Cmd} {r : Except Response c.Answer}
    (hc : c.Reads ∨ ∃ id, c = .touchSession id) (h : Exec s c r s') (ha : AnnsView s.db) : AnnsView s'.db := by
  cases h with
  | failed what => exact ha
  | performed now fresh hd =>
    rcases hc with hc | ⟨id, rfl⟩
    · change AnnsView (c.perform now fresh s.db).2
      rwa [reads_keep hc]
    · refine ⟨ha.users, ha.memberships, fun session hm => ?_⟩
      rcases (@Table.mem_update _ _ _ s.db.sessions _ (·.touched now) (fun _ => rfl) session).mp hm with
        ⟨hrow, -⟩ | ⟨row, hrow, -, rfl⟩
      · exact ha.sessions session hrow
      · exact ha.sessions row hrow

/-- Four instants at the same time, the last after the session has been touched. -/
def moments (s : Server) : List Moment :=
  [s, s, s, ⟨touchSession 0 "session" s.db, s.issued⟩].map (⟨·, 0, ⟨"", "", ""⟩, none⟩)

theorem heard_refused {s : Server} (hsession : sessionByAccessToken 0 "access" s.db = .ok annSession)
    (huser : userByID "ann" s.db = .ok (annUser .user))
    (hnone : membershipFor "home" "ann" s.db = .error .notFound) :
    ∃ w, Heard 0 ⟨s, fun _ => none⟩ (.start 0 (.request (some "access") membersOfHome) :: refused 0)
      (moments s) w ∧
      w.task 0 = some (.request (some "access") membersOfHome, .done (.error noSuchCollection)) ∧
      w.shared.db.hasCollection "home" = s.db.hasCollection "home" := by
  obtain ⟨db, issued⟩ := s
  obtain ⟨h₁, h₂, h₃⟩ := exec_signedIn hsession huser
  have h₄ : Exec ⟨touchSession 0 "session" db, issued⟩ (.membershipFor "home" "ann") (.ok (.error .notFound))
      ⟨touchSession 0 "session" db, issued⟩ := exec_read_at rfl (Prod.ext hnone rfl)
  let task : Nat → Option (Job × Task Reply) := Function.update (fun _ => none) 0
    (some (.request (some "access") membersOfHome, .done (.error noSuchCollection)))
  refine ⟨⟨⟨touchSession 0 "session" db, issued⟩, task⟩, ?_, rfl, rfl⟩
  refine hears_start rfl ?_
  refine hears_answer rfl (congrArg Except.ok hsession) h₁ ?_
  refine hears_answer rfl (congrArg Except.ok huser) h₂ ?_
  refine hears_answer rfl rfl h₃ ?_
  refine hears_answer rfl (congrArg Except.ok hnone) h₄ ?_
  exact .nil _

theorem ann_is_outside : Outside (Since Job.body ⟨housed, fun _ => none⟩
    (.start 0 (.request (some "access") membersOfHome) :: refused 0)) (some "access") "home" := by
  obtain ⟨-, -, hbob, hann, hsessions⟩ := ann_outside
  have hview : ∀ {P : Db → Prop}, Since Job.body ⟨housed, fun _ => none⟩
      (.start 0 (.request (some "access") membersOfHome) :: refused 0) P → ∃ db, AnnsView db ∧ P db := by
    rintro P ⟨es₁, es₂, u, he, hu, hp⟩
    refine ⟨u.shared.db, run_keeps hu (P := fun s => AnnsView s.db) ?_ ⟨rfl, rfl, hsessions⟩, hp⟩
    intro i c r s s' hm hx ha
    refine annsView_exec ?_ hx ha
    have hmem : Event.answer i c r ∈ Event.start 0 (.request (some "access") membersOfHome) :: refused 0 := by
      rw [he]
      exact List.mem_append_left _ hm
    simp only [refused, List.mem_cons, List.not_mem_nil, or_false, reduceCtorEq, false_or,
      Event.answer.injEq] at hmem
    rcases hmem with ⟨-, rfl, -⟩ | ⟨-, rfl, -⟩ | ⟨-, rfl, -⟩ | ⟨-, rfl, -⟩
    · exact .inl trivial
    · exact .inl trivial
    · exact .inr ⟨_, rfl⟩
    · exact .inl trivial
  rintro actor ⟨t, session, -, hlive, hactor, -⟩
  obtain ⟨db, ha, now, hsession⟩ := hview hlive
  have huser : session.userID = "ann" := ha.sessions session (sessionByAccessToken_ok hsession).1
  obtain ⟨db, ha, hget⟩ := hview hactor
  have hmem : actor ∈ db.users.rows := (Table.get?_eq_some.mp hget).1
  rw [ha.users] at hmem
  obtain rfl : actor = annUser .user := hann actor hmem ((Table.get?_eq_some.mp hget).2.trans huser)
  refine ⟨by decide, fun hm => ?_⟩
  unfold WasMember at hm
  obtain ⟨db, ha, hget⟩ := hview hm
  obtain ⟨m, hmem, hkey⟩ := Table.get?_isSome.mp hget
  have hrow : m.userID ∈ housed.db.memberships.rows.map Membership.userID := by
    rw [← ha.memberships]
    exact List.mem_map_of_mem hmem
  rw [hbob, List.mem_singleton, show m.userID = _ from congrArg Prod.snd hkey] at hrow
  exact absurd hrow (by decide)

/-- Bob's collection is there or it is not: Ann is answered that there is no such collection. -/
theorem outsider_alone : ∃ w v : Pool, w.shared.db.hasCollection "home" = true ∧
    v.shared.db.hasCollection "home" = false ∧
    w.task 0 = some (.request (some "access") membersOfHome, .done (.error noSuchCollection)) ∧
      v.task 0 = w.task 0 := by
  obtain ⟨hsession, huser, -, -, -⟩ := ann_outside
  obtain ⟨hempty, hgone, hthere⟩ := no_home
  have hlonely : sessionByAccessToken 0 "access" lonely.db = .ok annSession ∧
      userByID "ann" lonely.db = .ok (annUser .user) := by
    unfold sessionByAccessToken userByID
    rw [← housed_apart.sessions, ← housed_apart.users]
    exact ⟨hsession, huser⟩
  obtain ⟨w, hr, hdone, hw⟩ := heard_refused hsession huser (by decide +kernel)
  obtain ⟨v, hr', -, hv⟩ := heard_refused hlonely.1 hlonely.2 (by decide +kernel)
  refine ⟨w, v, hw.trans hthere, hv.trans hgone, hdone, (outsider hr.run rfl ann_is_outside).2.2 hr hr' ?_ ?_⟩
  · have hsame : ∀ {s s' : Server}, Apart "home" s.db s'.db →
        Moment.Apart "home" ⟨s, 0, ⟨"", "", ""⟩, none⟩ ⟨s', 0, ⟨"", "", ""⟩, none⟩ :=
          fun h => ⟨h, rfl, rfl⟩
    exact .cons (hsame housed_apart) (.cons (hsame housed_apart) (.cons (hsame housed_apart)
      (.cons (hsame (housed_apart.touched 0 "session")) .nil)))
  · intro n hn actor _
    have hrows : n.shared.db.memberships.rows = [] := by
      simp only [moments, List.map_cons, List.map_nil, List.mem_cons, List.not_mem_nil, or_false] at hn
      rcases hn with rfl | rfl | rfl | rfl <;> exact hempty
    refine Table.get?_eq_none.mpr fun m hm => ?_
    rw [show m ∈ n.shared.db.memberships ↔ m ∈ n.shared.db.memberships.rows from Iff.rfl, hrows] at hm
    cases hm

end Keyhole.Http.Managing
