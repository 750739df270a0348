import Keyhole.Http.Outsiders
import Keyhole.Http.Routes

/-!
# What stands before a handler

Whatever the handlers are, those of the API but the public ones do nothing
before the router's table has found a live session of an active user, and
under `/api/admin` one of an administrator; but the session is extended
before the role is looked at.
-/

namespace Keyhole.Http.Managing
open Store Route Await
open Webui (bytes)

/-- What the router and the guards read of a request. -/
structure Asked where
  method : Text
  path : Text
  token : Option String

section
variable {β : Type}

def wrap (guard : Guard) (token : Option String) (next : Option User → Task β) : Task β :=
  match guard with
  | .anyone => next none
  | .requireAuth => requireAuth token fun user => next (some user)
  | .requireAdmin => requireAdmin token fun user => next (some user)

/-- `moved` is what the router answers by itself. -/
def serve (handle : Endpoint → Asked → Option User → Task β) (moved : Asked → β) (a : Asked) : Task β :=
  match handler a.method a.path with
  | none => pure (moved a)
  | some e => wrap e.guard a.token (handle e.handler a)

/-- There was a live session of an active user, and of an administrator where that is demanded. -/
def Admitted (since : (Db → Prop) → Prop) (token : Option String) (t : Target Text Text) : Prop :=
  ∃ actor, Standing since token actor ∧ (t.segs[1]? = some admin → actor.role = .admin)

/-- What is under `/api/admin` is the administrators'. -/
theorem route_admin {t : Target Text Text} {pattern : Pattern Text Text} {e : Registration}
    (hr : mux.route t = some (pattern, e))
    (hnone : e.handler ≠ .noSuchEndpoint) (hadmin : t.segs[1]? = some admin) :
    e.handler = .web ∨ e.guard = .requireAdmin := by
  obtain ⟨he, rfl, htakes⟩ := route_entry hr
  rcases route_cases hr with ⟨hweb, -⟩ | ⟨-, -, hhealth, -⟩ | ⟨hweb, -, hsub | hlen⟩
  · exact .inl hweb
  · rw [hhealth] at hadmin
    cases hadmin
  · exact absurd hsub fun hsub => ((checked he).subtree hsub).elim hweb hnone
  · refine .inr ((checked he).admin ?_)
    cases hseg : (parsePattern e.pattern).segs[1]? with
    | none => exact absurd hlen (Nat.not_lt.mpr (List.getElem?_eq_none_iff.mp hseg))
    | some seg =>
      cases seg with
      | wild => exact absurd hseg (checked he).second
      | lit s =>
        rw [takesPath_lit (takes_path htakes) hseg] at hadmin
        rw [Option.some.inj hadmin]

section
variable {handle : Endpoint → Asked → Option User → Task β} {moved : Asked → β}
  {w w' : Await.Pool Server Asked Cmd.Answer Response β} {es : List (Await.Event Asked Cmd.Answer Response)}

/-- What is done before anybody is admitted, or once somebody is. -/
def Before (since : (Db → Prop) → Prop) (token : Option String) (t : Target Text Text) (c : Cmd) : Prop :=
  c.Reads ∨ c.Extends since token ∨ Admitted since token t

/-- The guard lets in only who is admitted. -/
theorem meets_wrap {body : Asked → Task β} {guard : Guard} {token : Option String} {t : Target Text Text}
    (hguard : guard ≠ .anyone) (hadmin : t.segs[1]? = some admin → guard = .requireAdmin)
    (next : Option User → Task β) :
    (wrap guard token next).Meets (Before (Since body w es) token t) (Gave Exec body w es) fun r =>
      r = .error authenticationRequired ∨ r = .error adminRequired ∨ Admitted (Since body w es) token t := by
  have hin : Admitted (Since body w es) token t → ∀ p : Task β,
      p.Meets (Before (Since body w es) token t) (Gave Exec body w es) fun r =>
        r = .error authenticationRequired ∨ r = .error adminRequired ∨ Admitted (Since body w es) token t :=
    fun h p => Proc.Meets.trivial (fun _ => .inr (.inr h)) (fun _ => .inr (.inr h)) p
  have hauth : ∀ {next : User → Task β}, (∀ actor, Standing (Since body w es) token actor →
      (next actor).Meets (Before (Since body w es) token t) (Gave Exec body w es) fun r =>
        r = .error authenticationRequired ∨ r = .error adminRequired ∨ Admitted (Since body w es) token t) →
      (requireAuth token next).Meets (Before (Since body w es) token t) (Gave Exec body w es) fun r =>
        r = .error authenticationRequired ∨ r = .error adminRequired ∨ Admitted (Since body w es) token t :=
    fun h => meets_requireAuth (fun _ => .inl trivial) (fun _ => .inl trivial) (fun _ hc => .inr (.inl hc))
      (.inl rfl) h
  cases guard with
  | anyone => exact absurd rfl hguard
  | requireAuth => exact hauth fun actor hs => hin ⟨actor, hs, fun h => nomatch hadmin h⟩ _
  | requireAdmin =>
    refine hauth fun actor hs => ?_
    by_cases hrole : actor.role = .admin
    · exact hin ⟨actor, hs, fun _ => hrole⟩ _
    · rw [if_pos hrole]
      exact .inr (.inl rfl)

/-- Behind a path of the API that is not public, the request writes nothing but the expiry of the session its token
stands for, and learns nothing, before it is admitted. -/
theorem guarded {i : Nat} {a : Asked} {t : Target Text Text} {e : Registration}
    (ht : target a.method a.path = some t) (hapi : t.segs.head? = some api)
    (he : handler a.method a.path = some e) (hpublic : e.handler.isPublic = false)
    (hnone : e.handler ≠ .noSuchEndpoint)
    (h : Lts.Run (Await.Step Exec (serve handle moved)) w (.start i a :: es) w') :
    (∀ c r, .answer i c r ∈ es → Before (Since (serve handle moved) w (.start i a :: es)) a.token t c) ∧
      ∀ r, w'.task i = some (a, .done r) → r = .error authenticationRequired ∨ r = .error adminRequired ∨
        Admitted (Since (serve handle moved) w (.start i a :: es)) a.token t := by
  obtain ⟨-, hweb, hanyone⟩ := answered ht
  have hguard : e.guard ≠ .anyone := by
    intro hg
    rcases hanyone e he hapi hg with hp | hn
    · rw [hpublic] at hp
      cases hp
    · exact hnone hn
  have hadmin : t.segs[1]? = some admin → e.guard = .requireAdmin := by
    intro hadmin
    obtain ⟨pattern, hr, -⟩ := (handler_some ht).mp he
    exact (route_admin hr hnone hadmin).resolve_left fun hw => (hweb.mp ⟨e, he, hw⟩).1 hapi
  have hbody : (serve handle moved a).Meets (Before (Since (serve handle moved) w (.start i a :: es)) a.token t)
      (Gave Exec (serve handle moved) w (.start i a :: es)) fun r => r = .error authenticationRequired ∨
        r = .error adminRequired ∨ Admitted (Since (serve handle moved) w (.start i a :: es)) a.token t := by
    unfold serve
    rw [he]
    exact meets_wrap hguard hadmin _
  have hgave := run_gave h
  refine ⟨fun c r hm => ?_, fun r hr => started_meets hbody h hgave hr⟩
  have hc := started_awaited hbody h hgave hm
  exact hc

end

end

/-! Ann is no administrator and asks for the list of users. -/

def listUsers : Asked := ⟨GET, bytes "/api/admin/users", some "access"⟩

theorem listUsers_route :
    target listUsers.method listUsers.path = some ⟨GET, [api, admin, bytes "users"], false⟩ ∧
    handler listUsers.method listUsers.path =
      some ⟨"GET /api/admin/users", .requireAdmin, .handleAdminListUsers⟩ := by
  decide +kernel

def idle (_ : Endpoint) (_ : Asked) (_ : Option User) : Task Unit := pure ()

def turnedAway (i : Nat) : List (Await.Event Asked Cmd.Answer Response) := [
  .answer i (.sessionByAccessToken "access") (.ok (.ok annSession)),
  .answer i (.userByID "ann") (.ok (.ok (annUser .user))),
  .answer i (.touchSession "session") (.ok (.ok ()))]

theorem run_turnedAway {s : Server} (hsession : sessionByAccessToken 0 "access" s.db = .ok annSession)
    (huser : userByID "ann" s.db = .ok (annUser .user)) :
    ∃ w, Lts.Run (Await.Step Exec (serve idle fun _ => ())) ⟨s, fun _ => none⟩
      (.start 0 listUsers :: turnedAway 0) w ∧
      w.task 0 = some (listUsers, .done (.error adminRequired)) := by
  obtain ⟨db, issued⟩ := s
  obtain ⟨h₁, h₂, h₃⟩ := exec_signedIn hsession huser
  let task : Nat → Option (Asked × Task Unit) := Function.update (fun _ => none) 0
    (some (listUsers, .done (.error adminRequired)))
  have hserve : serve idle (fun _ => ()) listUsers =
      requireAdmin (some "access") fun user => idle .handleAdminListUsers listUsers (some user) := by
    unfold serve
    rw [listUsers_route.2]
    rfl
  refine ⟨⟨⟨touchSession 0 "session" db, issued⟩, task⟩, ?_, rfl⟩
  refine run_start rfl ?_
  rw [hserve]
  refine run_answer h₁ ?_
  refine run_answer h₂ ?_
  refine run_answer h₃ ?_
  exact .nil _

/-- The session is extended all the same. -/
theorem guarded_listUsers : ∃ w, Lts.Run (Await.Step Exec (serve idle fun _ => ())) ⟨housed, fun _ => none⟩
    (.start 0 listUsers :: turnedAway 0) w ∧
    Before (Since (serve idle fun _ => ()) ⟨housed, fun _ => none⟩ (.start 0 listUsers :: turnedAway 0))
      (some "access")
      ⟨GET, [api, admin, bytes "users"], false⟩ (.touchSession "session") ∧
    (.error adminRequired = (.error authenticationRequired : Except Response Unit) ∨
      .error adminRequired = (.error adminRequired : Except Response Unit) ∨
      Admitted (Since (serve idle fun _ => ()) ⟨housed, fun _ => none⟩ (.start 0 listUsers :: turnedAway 0))
        (some "access") ⟨GET, [api, admin, bytes "users"], false⟩) := by
  obtain ⟨ht, he⟩ := listUsers_route
  obtain ⟨w, hr, hdone⟩ := run_turnedAway ann_outside.1 ann_outside.2.1
  have hguarded := guarded ht rfl he rfl (by decide) hr
  refine ⟨w, hr, hguarded.1 (.touchSession "session") (.ok (.ok ())) ?_, hguarded.2 _ hdone⟩
  simp [turnedAway]

end Keyhole.Http.Managing
