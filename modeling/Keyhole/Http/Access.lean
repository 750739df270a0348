import Keyhole.Http.Items
import Keyhole.Store.Conflict

/-!
# Access at the moment of effect

Item requests in flight between the writes of everybody else. A request reads
the row, asks whether the user may touch what it read, and writes; the row may
be moved and memberships may change between any two of these.
-/

namespace Keyhole.Http.Access
open Sql Store

/-- `held` and `seen` are ghosts: whether the user had access when the row was
read, and every database the request has lived through, the latest first. -/
structure Request where
  ticket : Nat
  userID : Id
  call : ItemCall
  progress : Progress
  held : Bool
  seen : List Db

structure State where
  server : Server
  requests : Table Request.ticket
  nextTicket : Nat

inductive Event
  | receive (userID : Id) (call : ItemCall)
  | advance (ticket : Nat)
  | write (ticket : Nat) (now : Time) (ids : List Id)
  | drop (ticket : Nat)
  | other (c : Command)

def start : State := ⟨Server.fresh, ∅, 0⟩

def init (s : State) : Prop := s = start

def hasAccess (db : Db) (userID id : Id) : Bool := (db.items.get? id).any (db.canAccessItem userID)

def Request.hadAccess (r : Request) : Bool := r.seen.any fun db => hasAccess db r.userID r.call.id

def Request.advanced (r : Request) (db : Db) (progress : Progress) : Request :=
  { r with
    progress
    held := match r.progress with
      | .loading => hasAccess db r.userID r.call.id
      | _ => r.held }

def Request.observe (r : Request) (db : Db) : Request := { r with seen := db :: r.seen }

theorem Request.observe_ticket (db : Db) (r : Request) : (r.observe db).ticket = r.ticket := rfl

def State.observed (s : State) : State :=
  { s with requests := s.requests.update (fun _ => true) (·.observe s.server.db) (Request.observe_ticket _) }

def enabled (s : State) : Event → Prop
  | .receive .. => True
  | .advance ticket => (s.requests.get? ticket).any (fun r => decide (r.progress ≠ .targets [])) = true
  | .write ticket now ids => (s.requests.get? ticket).any (fun r =>
      r.progress = .targets [] && Server.Draws s.server.issued (r.call.command now ids r.userID).draws) = true
  | .drop ticket => (s.requests.get? ticket).isSome = true
  | .other c => s.server.enabled c

instance decEnabled (s : State) : (e : Event) → Decidable (enabled s e)
  | .receive .. => inferInstanceAs (Decidable True)
  | .advance _ | .write _ _ _ | .drop _ => inferInstanceAs (Decidable (_ = true))
  | .other _ => inferInstanceAs (Decidable (Server.enabled _ _))

def State.without (s : State) (ticket : Nat) : Table Request.ticket := s.requests.delete fun r => r.ticket = ticket

def next (s : State) : Event → State
  | .receive userID call =>
    match call.received with
    | .ok progress =>
      State.observed { s with
        requests := s.requests.upsert ⟨s.nextTicket, userID, call, progress, false, []⟩
        nextTicket := s.nextTicket + 1 }
    | .error _ => s.observed
  | .advance ticket =>
    match s.requests.get? ticket with
    | none => s.observed
    | some r =>
      match r.call.advance s.server.db r.userID r.progress with
      | .ok progress =>
        State.observed { s with requests := s.requests.upsert (r.advanced s.server.db progress) }
      | .error _ => State.observed { s with requests := s.without ticket }
  | .write ticket now ids =>
    match s.requests.get? ticket with
    | none => s.observed
    | some r =>
      State.observed { s with
        server := s.server.after (r.call.command now ids r.userID), requests := s.without ticket }
  | .drop ticket => State.observed { s with requests := s.without ticket }
  | .other c => State.observed { s with server := s.server.after c }

def step : State → Event → State → Prop := Lts.Stepwise enabled next

/-- `PUT` and `DELETE` of one item, the requests that write a row they have read. -/
def rewrites : ItemCall → Bool
  | .update .. | .delete _ => true
  | .create _ | .bulk _ => false

def Request.commits (r : Request) (now : Time) (ids : List Id) (db : Db) : Bool :=
  rewrites r.call && (r.call.reply now ids r.userID db).rows.isSome

/-- A write that is committed was one its user had access for, at some instant
of the request. -/
def Authorised (s : State) : Event → Prop
  | .write ticket now ids =>
    (s.requests.get? ticket).all (fun r => !r.commits now ids s.server.db || r.hadAccess) = true
  | _ => True

/-- When the check of access passes, the row is where it was when it was read,
or is gone, or the user had access to it then. -/
def Unmoved (s : State) : Event → Prop
  | .advance ticket => (s.requests.get? ticket).all (fun r =>
      match r.progress with
      | .loaded existing => !s.server.db.canAccessItem r.userID existing || r.held ||
          (s.server.db.items.get? r.call.id).all (fun row => row.collectionID = existing.collectionID)
      | _ => true) = true
  | _ => True

instance decUnmoved (s : State) : (e : Event) → Decidable (Unmoved s e)
  | .advance _ => inferInstanceAs (Decidable (_ = true))
  | .receive .. | .write _ _ _ | .drop _ | .other _ => inferInstanceAs (Decidable True)

/-! ## What a request in flight still knows -/

def Gone (server : Server) (id : Id) : Prop := id ∈ server.issued ∧ ∀ item ∈ server.db.items, item.id ≠ id

def Cleared (server : Server) (r : Request) : Progress → Prop
  | .loading => True
  | .loaded existing => r.call.id ∈ server.issued ∧ (r.held = true → r.hadAccess = true) ∧
      (existing.collectionID = none → existing.ownerUserID = r.userID → r.held = true)
  | .targets _ => r.hadAccess = true ∨ Gone server r.call.id

structure Inv (s : State) : Prop where
  known : s.server.Known
  seen : ∀ r ∈ s.requests, s.server.db ∈ r.seen
  cleared : ∀ r ∈ s.requests, rewrites r.call = true → Cleared s.server r r.progress

theorem gone_step {s s' : Server} {c : Command} (h : Server.step s c s') {id : Id} (hg : Gone s id) :
    Gone s' id := by
  obtain ⟨hd, rfl⟩ := h
  refine ⟨List.mem_append_right _ hg.1, ?_⟩
  intro item hi hid
  rcases item_origin (command_effect c s.db) hi with h | h | ⟨x, hx, hxid, -⟩
  · exact hg.2 item h hid
  · exact (hd.2 _ h).2 (hid ▸ hg.1)
  · exact hg.2 x hx (hxid.trans hid)

theorem hadAccess_observe {r : Request} (db : Db) (h : r.hadAccess = true) : (r.observe db).hadAccess = true := by
  unfold Request.hadAccess Request.observe at *
  rw [List.any_cons, h, Bool.or_true]

theorem cleared_observe {server server' : Server} {r : Request} {progress : Progress} (db : Db)
    (hissued : ∀ d ∈ server.issued, d ∈ server'.issued) (hgone : ∀ id, Gone server id → Gone server' id)
    (h : Cleared server r progress) : Cleared server' (r.observe db) progress := by
  cases progress with
  | loading => trivial
  | loaded existing => exact ⟨hissued _ h.1, fun hh => hadAccess_observe db (h.2.1 hh), h.2.2⟩
  | targets left =>
    rcases h with h | h
    · exact Or.inl (hadAccess_observe db h)
    · exact Or.inr (hgone _ h)

theorem mem_observed {s : State} {r : Request} (h : r ∈ s.observed.requests) :
    ∃ r₀ ∈ s.requests, r₀.observe s.server.db = r := by
  obtain ⟨r₀, hr₀, h⟩ := List.mem_map.mp h
  exact ⟨r₀, hr₀, h⟩

theorem inv_observed {s : State} (hk : s.server.Known)
    (hc : ∀ r ∈ s.requests, rewrites r.call = true → Cleared s.server r r.progress) : Inv s.observed where
  known := hk
  seen r hr := by
    obtain ⟨r₀, -, rfl⟩ := mem_observed hr
    exact List.mem_cons_self
  cleared r hr hw := by
    obtain ⟨r₀, hr₀, rfl⟩ := mem_observed hr
    exact cleared_observe _ (fun _ h => h) (fun _ h => h) (hc r₀ hr₀ hw)

/-! ## One step -/

theorem cleared_received {server : Server} {r : Request} {progress : Progress} (h : r.call.received = .ok progress)
    (hw : rewrites r.call = true) : Cleared server r progress := by
  cases hc : r.call with
  | create req => rw [hc] at hw; cases hw
  | bulk items => rw [hc] at hw; cases hw
  | update id req => rw [hc] at h; cases h; trivial
  | delete id => rw [hc] at h; cases h; trivial

/-- The read: a row that is read is one the request sees. -/
theorem cleared_loading {s : State} (hi : Inv s) {r : Request} (hr : r ∈ s.requests) (hp : r.progress = .loading)
    {progress : Progress} (h : r.call.advance s.server.db r.userID .loading = .ok progress) :
    Cleared s.server (r.advanced s.server.db progress) progress := by
  unfold ItemCall.advance itemByID at h
  cases hg : s.server.db.items.get? r.call.id with
  | none => simp [hg] at h
  | some existing =>
    simp only [hg, Except.ok.injEq] at h
    subst h
    have hheld : (r.advanced s.server.db (.loaded existing)).held = s.server.db.canAccessItem r.userID
      existing := by
      simp [Request.advanced, hp, hasAccess, hg]
    obtain ⟨hmem, hid⟩ := Table.get?_eq_some.mp hg
    refine ⟨hid ▸ hi.known.items existing hmem, ?_, ?_⟩
    · intro hh
      rw [hheld] at hh
      refine List.any_eq_true.mpr ⟨s.server.db, hi.seen r hr, ?_⟩
      change hasAccess s.server.db r.userID r.call.id = true
      simp [hasAccess, hg, hh]
    · intro hcol howner
      change existing.ownerUserID = r.userID at howner
      rw [hheld]
      unfold Vault.canAccessItem
      rw [hcol]
      exact decide_eq_true howner

/-- The check: passed over a row that has not moved, it is access to the row. -/
theorem cleared_loaded {s : State} (hi : Inv s) {r : Request} (hr : r ∈ s.requests) (hw : rewrites r.call = true)
    {existing : Item} (hp : r.progress = .loaded existing) (hu : Unmoved s (.advance r.ticket))
    {progress : Progress} (h : r.call.advance s.server.db r.userID (.loaded existing) = .ok progress) :
    Cleared s.server (r.advanced s.server.db progress) progress := by
  have hc := hi.cleared r hr hw
  rw [hp] at hc
  obtain ⟨hissued, hheld, howner⟩ := hc
  simp only [ItemCall.advance] at h
  split at h
  · rename_i hallowed
    cases h
    change r.hadAccess = true ∨ Gone s.server r.call.id
    simp only [Unmoved, Table.get?_eq_some.mpr ⟨hr, rfl⟩, Option.all_some, hp, hallowed, Bool.not_true,
      Bool.false_or,
      Bool.or_eq_true] at hu
    rcases hu with hh | hsame
    · exact Or.inl (hheld hh)
    · cases hg : s.server.db.items.get? r.call.id with
      | none => exact Or.inr ⟨hissued, Table.get?_eq_none.mp hg⟩
      | some row =>
        left
        rw [hg, Option.all_some, decide_eq_true_eq] at hsame
        cases hcol : existing.collectionID with
        | none =>
          unfold Vault.canAccessItem at hallowed
          rw [hcol] at hallowed
          exact hheld (howner hcol (of_decide_eq_true hallowed))
        | some c =>
          refine List.any_eq_true.mpr ⟨s.server.db, hi.seen r hr, ?_⟩
          unfold Vault.canAccessItem at hallowed
          rw [hcol] at hallowed hsame
          simp only [hasAccess, hg, Option.any_some, Vault.canAccessItem, hsame]
          exact hallowed
  · cases h

theorem cleared_advance {s : State} (hi : Inv s) {r : Request} (hr : r ∈ s.requests) (hw : rewrites r.call = true)
    (hu : Unmoved s (.advance r.ticket)) {progress : Progress}
    (h : r.call.advance s.server.db r.userID r.progress = .ok progress) :
    Cleared s.server (r.advanced s.server.db progress) progress := by
  cases hp : r.progress with
  | loading => exact cleared_loading hi hr hp (hp ▸ h)
  | loaded existing => exact cleared_loaded hi hr hw hp hu (hp ▸ h)
  | targets left =>
    have hc := hi.cleared r hr hw
    rw [hp] at h hc
    have htargets : ∃ left', progress = .targets left' := by
      cases left with
      | nil => cases h; exact ⟨[], rfl⟩
      | cons target left =>
        simp only [ItemCall.advance] at h
        split at h
        · cases h; exact ⟨left, rfl⟩
        · cases h
    obtain ⟨left', rfl⟩ := htargets
    exact hc

theorem inv_server {s : State} (hi : Inv s) {c : Command} (hd : Server.Draws s.server.issued c.draws)
    {requests : Table Request.ticket} (hsub : ∀ r ∈ requests, r ∈ s.requests) :
    Inv (State.observed { s with server := s.server.after c, requests }) := by
  have hstep : Server.step s.server c (s.server.after c) := ⟨hd, rfl⟩
  have hk := step_known hstep hi.known
  refine inv_observed hk fun r hr hw => ?_
  have h := hi.cleared r (hsub r hr) hw
  cases hp : r.progress with
  | loading => trivial
  | loaded existing =>
    rw [hp] at h
    exact ⟨List.mem_append_right _ h.1, h.2⟩
  | targets left =>
    rw [hp] at h
    exact h.imp id (gone_step hstep)

theorem inv_step (s : State) (e : Event) (s' : State) (h : Lts.Guarded step Unmoved s e s') (hi : Inv s) :
    Inv s' := by
  obtain ⟨⟨he, rfl⟩, hu⟩ := h
  cases e with
  | receive userID call =>
    simp only [next]
    split
    · rename_i progress hp
      refine inv_observed hi.known fun r hr hw => ?_
      rcases Table.mem_upsert.mp hr with ⟨hr, -⟩ | rfl
      · exact hi.cleared r hr hw
      · exact cleared_received hp hw
    · exact inv_observed hi.known hi.cleared
  | advance ticket =>
    simp only [next]
    split
    · exact inv_observed hi.known hi.cleared
    · rename_i r hg
      obtain ⟨hr, rfl⟩ := Table.get?_eq_some.mp hg
      split
      · rename_i progress hp
        refine inv_observed hi.known fun x hx hw => ?_
        rcases Table.mem_upsert.mp hx with ⟨hx, -⟩ | rfl
        · exact hi.cleared x hx hw
        · exact cleared_advance hi hr hw hu hp
      · exact inv_observed hi.known fun x hx => hi.cleared x (Table.mem_delete.mp hx).1
  | write ticket now ids =>
    simp only [next]
    split
    · exact inv_observed hi.known hi.cleared
    · rename_i r hg
      simp only [enabled, hg, Option.any_some, Bool.and_eq_true, decide_eq_true_eq] at he
      exact inv_server hi he.2 fun x hx => (Table.mem_delete.mp hx).1
  | drop ticket =>
    exact inv_observed hi.known fun x hx => hi.cleared x (Table.mem_delete.mp hx).1
  | other c => exact inv_server hi he fun x hx => hx

theorem inv_reachable {s : State} (h : Lts.Reachable init (Lts.Guarded step Unmoved) s) : Inv s := by
  refine Lts.Reachable.inv (P := Inv) ?_ inv_step h
  rintro _ rfl
  exact ⟨reachable_known ⟨_, [], rfl, .nil _⟩, fun r hr => absurd hr (Table.mem_empty r),
    fun r hr => absurd hr (Table.mem_empty r)⟩

/-! ## The write -/

theorem gone_not_committed {server : Server} {r : Request} (h : Gone server r.call.id) (now : Time)
    (ids : List Id) :
    r.commits now ids server.db = false := by
  have hnone : ∀ current, server.db.items.get? r.call.id = some current → current.deletedAt ≠ none := by
    intro current hg
    exact absurd (Table.get?_eq_some.mp hg).2 (h.2 current (Table.get?_eq_some.mp hg).1)
  unfold Request.commits
  cases hc : r.call with
  | create req => rfl
  | bulk items => rfl
  | update id req =>
    simp only [hc, ItemCall.id] at hnone
    simp only [rewrites, Bool.true_and, ItemCall.reply]
    cases hv : req.input.validate with
    | ok _ =>
      rw [updateItem_notFound hv hnone]
      rfl
    | error e =>
      have hfail : updateItem now id req.revision req.input server.db = (.error e, server.db) := by
        unfold updateItem
        rw [hv]
      rw [hfail]
      cases e <;> rfl
  | delete id =>
    simp only [hc, ItemCall.id] at hnone
    simp only [rewrites, Bool.true_and, ItemCall.reply]
    rw [deleteItem_notFound hnone]
    rfl

/-- A row no request found moved when it checked access is only written by
those who had access to it. -/
theorem write_authorised {s : State} (h : Lts.Reachable init (Lts.Guarded step Unmoved) s) {e : Event}
    (he : enabled s e) : Authorised s e := by
  have hi := inv_reachable h
  cases e with
  | write ticket now ids =>
    simp only [Authorised]
    cases hg : s.requests.get? ticket with
    | none => rfl
    | some r =>
      simp only [enabled, hg, Option.any_some, Bool.and_eq_true, decide_eq_true_eq] at he
      rw [Option.all_some, Bool.or_eq_true, Bool.not_eq_true']
      by_cases hw : rewrites r.call = true
      · have hc := hi.cleared r (Table.get?_eq_some.mp hg).1 hw
        rw [he.1] at hc
        rcases hc with hc | hc
        · exact Or.inr hc
        · exact Or.inl (gone_not_committed hc now ids)
      · left
        rw [Bool.not_eq_true] at hw
        simp [Request.commits, hw]
  | _ => trivial

/-- Bob is a member of nothing. He reads the item while it is in the family's
collection; Ann moves it to another one and only then lets Bob into the family. -/
def movedAway : List Event := (enrolls "ann" "user" ++ enrolls "bob" "user").map .other ++ [
  .other (.createCollection 0 "family" "audit-1" "Family" "ann" "sealed-to-ann"),
  .other (.createCollection 0 "work" "audit-2" "Work" "ann" "sealed-to-ann"),
  .other (.createItem 0 "wifi" "ann" ⟨some "family", "ciphertext", "wrapped-key"⟩),
  .receive "bob" (.delete "wifi"),
  .advance 0,
  .other (.updateItem 0 "wifi" 3 ⟨some "work", "ciphertext-2", "wrapped-key-2"⟩),
  .other (.fulfilGrantOrAdd 0 "audit-3" "family" "bob" "sealed-to-bob" "member" "ann"),
  .advance 0]

theorem moved_item_deleted_by_outsider :
    ¬ ∀ s e, Lts.Reachable init step s → enabled s e → Authorised s e := by
  intro h
  have hrun : Lts.Playable enabled next start movedAway := by decide +kernel
  have hs : Lts.Reachable init step (movedAway.foldl next start) := ⟨start, movedAway, rfl, Lts.run_script hrun⟩
  have hwrite := h _ (.write 0 0 []) hs (by decide)
  revert hwrite
  unfold Authorised
  decide

/-- Ann deletes an item of a collection she is in. -/
def annDeletes : List Event := (enrolls "ann" "user").map .other ++ [
  .other (.createCollection 0 "family" "audit-1" "Family" "ann" "sealed-to-ann"),
  .other (.createItem 0 "wifi" "ann" ⟨some "family", "ciphertext", "wrapped-key"⟩),
  .receive "ann" (.delete "wifi"),
  .advance 0,
  .advance 0]

theorem write_authorised_annDeletes : Authorised (annDeletes.foldl next start) (.write 0 0 []) :=
  write_authorised ⟨start, annDeletes, rfl, Lts.run_guarded_script (by decide)⟩ (by decide)

end Keyhole.Http.Access
