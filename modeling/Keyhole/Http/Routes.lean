import Mathlib.Tactic.MkIffOfInductiveProp
import Keyhole.Lib.Route
import Keyhole.Webui

/-!
# The routes

Patterns as the source writes them, read as `ServeMux` reads them. It goes by
the escaped path, segment by segment, and answers itself, by a redirect, where
the path is not clean or only lacks the slash of a subtree.
-/

namespace Keyhole.Http
open Route
open Webui (bytes)

abbrev Text : Type := List UInt8

/-! ## Patterns and paths -/

def GET : Text := bytes "GET"

def HEAD : Text := bytes "HEAD"

def CONNECT : Text := bytes "CONNECT"

/-- A pattern for GET takes HEAD too. -/
def methods : Methods Text where
  answers m r := m = r ∨ m = GET ∧ r = HEAD
  refl m := by simp
  trans a b c hab hbc := by
    simp only [decide_eq_true_eq] at *
    rcases hab with rfl | ⟨rfl, rfl⟩
    · exact hbc
    · rcases hbc with rfl | ⟨h, -⟩
      · exact .inr ⟨rfl, rfl⟩
      · exact absurd h (by decide)
  nested a b r ha hb := by
    simp only [decide_eq_true_eq] at *
    rcases ha with rfl | ⟨rfl, rfl⟩
    · exact .inr hb
    · rcases hb with rfl | ⟨rfl, -⟩
      · exact .inl (.inr ⟨rfl, rfl⟩)
      · exact .inl (.inl rfl)

/-- A segment that is an escaped slash is taken for the end of a subtree. -/
def free (seg : Text) : Bool := seg ≠ bytes "/"

def slash : UInt8 := 47

/-- The segments of a path, and whether a slash ends it. -/
def segments (parts : List Text) : List Text × Bool :=
  if parts.getLast? = some [] then (parts.dropLast, true) else (parts, false)

def parseSeg (seg : Text) : Seg Text := if bytes "\x7b" <+: seg then .wild else .lit seg

def parsePattern (pattern : String) : Pattern Text Text :=
  let text := bytes pattern
  let space : UInt8 := 32
  let (method, path) :=
    if space ∈ text then (some (text.takeWhile (· ≠ space)), (text.dropWhile (· ≠ space)).tail)
    else (none, text)
  let (segs, subtree) := segments (path.splitOn slash).tail
  ⟨method, segs.map parseSeg, subtree⟩

def hexDigit (b : UInt8) : Option UInt8 :=
  if 48 ≤ b ∧ b ≤ 57 then some (b - 48)
  else if 97 ≤ b ∧ b ≤ 102 then some (b - 87)
  else if 65 ≤ b ∧ b ≤ 70 then some (b - 55)
  else none

/-- `url.PathUnescape`. -/
def unescape : Text → Option Text
  | [] => some []
  | b :: rest =>
    if b = 37 then
      match rest with
      | x :: y :: rest => do
        let x ← hexDigit x
        let y ← hexDigit y
        let rest ← unescape rest
        pure ((x * 16 + y) :: rest)
      | _ => none
    else do
      let rest ← unescape rest
      pure (b :: rest)

def pathUnescape (seg : Text) : Text := (unescape seg).getD seg

def dirty (seg : Text) : Bool := seg = [] || seg = bytes "." || seg = bytes ".."

/-- None for a path that is not as `cleanPath` leaves it; that of a CONNECT is as it comes. -/
def target (method path : Text) : Option (Target Text Text) :=
  match path.splitOn slash with
  | [] :: part :: parts =>
    let (segs, slash) := segments (part :: parts)
    if method ≠ CONNECT ∧ segs.any dirty = true then none else some ⟨method, segs.map pathUnescape, slash⟩
  | _ => none

/-! ## The table -/

inductive Guard
  | anyone
  | requireAuth
  | requireAdmin
  deriving DecidableEq, Repr

inductive Endpoint
  | handleHealthz | handleEnroll | handlePrelogin | handleLogin | handleRefresh | handleLogout
  | handleRecoverPrelogin | handleRecover | handleRecoverComplete
  | handleCreateItem | handleBulkItems | handleUpdateItem | handleDeleteItem
  | handleCreateFolder | handleUpdateFolder | handleDeleteFolder | handleSync
  | handleListCollections | handleCreateCollection | handleListPendingGrants | handleDeleteCollection
  | handleListMembers | handleAddMember | handleRemoveMember | handleFulfilGrant | handleDirectory
  | handleGetAccount | handleRotatePassword | handleRotateRecovery | handleListSessions | handleRevokeSession
  | handleAdminListUsers | handleAdminCreateUser | handleAdminReissueInvite | handleAdminPatchUser
  | handleAdminResetUser | handleAdminDeleteUser | handleAdminAudit | handleAdminListCollections
  /-- The JSON envelope for an API path there is no endpoint for. -/
  | noSuchEndpoint
  /-- The web application, or the same envelope where there is none. -/
  | web
  deriving DecidableEq, Repr

structure Registration where
  pattern : String
  guard : Guard
  handler : Endpoint
  deriving DecidableEq, Repr

def routes : List Registration := [
  ⟨"GET /healthz", .anyone, .handleHealthz⟩,
  ⟨"POST /api/enroll/{token}", .anyone, .handleEnroll⟩,
  ⟨"POST /api/auth/prelogin", .anyone, .handlePrelogin⟩,
  ⟨"POST /api/auth/login", .anyone, .handleLogin⟩,
  ⟨"POST /api/auth/refresh", .anyone, .handleRefresh⟩,
  ⟨"POST /api/auth/logout", .requireAuth, .handleLogout⟩,
  ⟨"POST /api/auth/recover/prelogin", .anyone, .handleRecoverPrelogin⟩,
  ⟨"POST /api/auth/recover", .anyone, .handleRecover⟩,
  ⟨"POST /api/auth/recover/complete", .anyone, .handleRecoverComplete⟩,
  ⟨"POST /api/items", .requireAuth, .handleCreateItem⟩,
  ⟨"POST /api/items/bulk", .requireAuth, .handleBulkItems⟩,
  ⟨"PUT /api/items/{id}", .requireAuth, .handleUpdateItem⟩,
  ⟨"DELETE /api/items/{id}", .requireAuth, .handleDeleteItem⟩,
  ⟨"POST /api/folders", .requireAuth, .handleCreateFolder⟩,
  ⟨"PUT /api/folders/{id}", .requireAuth, .handleUpdateFolder⟩,
  ⟨"DELETE /api/folders/{id}", .requireAuth, .handleDeleteFolder⟩,
  ⟨"GET /api/sync", .requireAuth, .handleSync⟩,
  ⟨"GET /api/collections", .requireAuth, .handleListCollections⟩,
  ⟨"POST /api/collections", .requireAdmin, .handleCreateCollection⟩,
  ⟨"GET /api/collections/pending-grants", .requireAuth, .handleListPendingGrants⟩,
  ⟨"DELETE /api/collections/{id}", .requireAdmin, .handleDeleteCollection⟩,
  ⟨"GET /api/collections/{id}/members", .requireAuth, .handleListMembers⟩,
  ⟨"POST /api/collections/{id}/members", .requireAuth, .handleAddMember⟩,
  ⟨"DELETE /api/collections/{id}/members/{userId}", .requireAuth, .handleRemoveMember⟩,
  ⟨"POST /api/collections/{id}/grants", .requireAuth, .handleFulfilGrant⟩,
  ⟨"GET /api/directory", .requireAuth, .handleDirectory⟩,
  ⟨"GET /api/account", .requireAuth, .handleGetAccount⟩,
  ⟨"POST /api/account/password", .requireAuth, .handleRotatePassword⟩,
  ⟨"POST /api/account/recovery", .requireAuth, .handleRotateRecovery⟩,
  ⟨"GET /api/account/sessions", .requireAuth, .handleListSessions⟩,
  ⟨"DELETE /api/account/sessions/{id}", .requireAuth, .handleRevokeSession⟩,
  ⟨"GET /api/admin/users", .requireAdmin, .handleAdminListUsers⟩,
  ⟨"POST /api/admin/users", .requireAdmin, .handleAdminCreateUser⟩,
  ⟨"POST /api/admin/users/{id}/invite", .requireAdmin, .handleAdminReissueInvite⟩,
  ⟨"PATCH /api/admin/users/{id}", .requireAdmin, .handleAdminPatchUser⟩,
  ⟨"POST /api/admin/users/{id}/reset", .requireAdmin, .handleAdminResetUser⟩,
  ⟨"DELETE /api/admin/users/{id}", .requireAdmin, .handleAdminDeleteUser⟩,
  ⟨"GET /api/admin/audit", .requireAdmin, .handleAdminAudit⟩,
  ⟨"GET /api/admin/collections", .requireAdmin, .handleAdminListCollections⟩,
  ⟨"/api/", .anyone, .noSuchEndpoint⟩,
  ⟨"/", .anyone, .web⟩]

abbrev ServeMux : Type := Mux methods free Registration

def parsed : List (Pattern Text Text × Registration) := routes.map fun e => (parsePattern e.pattern, e)

example : parsePattern "PUT /api/items/{id}" =
    ⟨some (bytes "PUT"), [.lit (bytes "api"), .lit (bytes "items"), .wild], false⟩ := by
  decide +kernel

/-- What stands in for a session there, where anything does, is in the body. -/
def Endpoint.isPublic : Endpoint → Bool
  | handleHealthz | handleEnroll | handlePrelogin | handleLogin | handleRefresh | handleRecoverPrelogin
    | handleRecover
  | handleRecoverComplete => true
  | _ => false

def api : Text := bytes "api"

def admin : Text := bytes "admin"

/-- What the proofs need of the one pass over the table. -/
@[mk_iff]
structure Registration.Checked (e : Registration) : Prop where
  web : e.handler = .web → e = ⟨"/", .anyone, .web⟩
  healthz : e.handler = .handleHealthz → e = ⟨"GET /healthz", .anyone, .handleHealthz⟩
  api : e.handler ≠ .web → e.handler ≠ .handleHealthz →
    (parsePattern e.pattern).segs.head? = some (.lit api) ∧
    ((parsePattern e.pattern).subtree = true ∨ 1 < (parsePattern e.pattern).segs.length)
  subtree : (parsePattern e.pattern).subtree = true → e.handler = .web ∨ e.handler = .noSuchEndpoint
  noSuchEndpoint : e.handler = .noSuchEndpoint → e = ⟨"/api/", .anyone, .noSuchEndpoint⟩
  anyone : e.guard = .anyone → e.handler.isPublic = true ∨ e.handler = .noSuchEndpoint ∨ e.handler = .web
  second : (parsePattern e.pattern).segs[1]? ≠ some .wild
  admin : (parsePattern e.pattern).segs[1]? = some (.lit admin) → e.guard = .requireAdmin

instance (e : Registration) : Decidable e.Checked := decidable_of_iff' _ (Registration.checked_iff e)

theorem table_checked : (Mux.register parsed : Option ServeMux).isSome = true ∧ (∀ e ∈ routes, e.Checked) ∧
    parsePattern "/" = ⟨none, [], true⟩ ∧ parsePattern "/api/" = ⟨none, [.lit api], true⟩ ∧
    parsePattern "GET /healthz" = ⟨some GET, [.lit (bytes "healthz")], false⟩ := by
  decide +kernel

theorem registered : (Mux.register parsed : Option ServeMux).isSome = true := table_checked.1

theorem checked {e : Registration} (h : e ∈ routes) : e.Checked := table_checked.2.1 e h

theorem parse_root : parsePattern "/" = ⟨none, [], true⟩ := table_checked.2.2.1

theorem parse_api : parsePattern "/api/" = ⟨none, [.lit api], true⟩ := table_checked.2.2.2.1

theorem parse_healthz : parsePattern "GET /healthz" = ⟨some GET, [.lit (bytes "healthz")], false⟩ :=
  table_checked.2.2.2.2

@[irreducible] def mux : ServeMux := (Mux.register parsed).get registered

theorem mux_routes : mux.routes = parsed := by
  unfold mux
  exact Mux.register_routes (Option.some_get registered).symm

/-- The pattern takes nothing more of the target than its segments. -/
def exactMatch (p : Pattern Text Text) (t : Target Text Text) : Bool :=
  !p.subtree || t.slash && p.segs.length = t.segs.length

def Target.below (t : Target Text Text) : Target Text Text := { t with slash := true }

/-- All that is missing is the slash of a subtree. -/
def redirected (pattern : Pattern Text Text) (t : Target Text Text) : Bool :=
  !exactMatch pattern t && !t.slash && (mux.route (Target.below t)).any fun r => exactMatch r.1 (Target.below t)

/-- None where the router answers itself. -/
def handler (method path : Text) : Option Registration := do
  let t ← target method path
  let (pattern, entry) ← mux.route t
  if redirected pattern t then none else some entry

/-! ## One route for every target -/

theorem mem_mux {e : Registration} (h : e ∈ routes) : (parsePattern e.pattern, e) ∈ mux.routes := by
  rw [mux_routes]
  exact List.mem_map.mpr ⟨e, h, rfl⟩

theorem target_some {method path : Text} {t : Target Text Text} (h : target method path = some t) :
    t.method = method ∧ (t.segs ≠ [] ∨ t.slash = true) := by
  unfold target at h
  split at h
  · rename_i part parts _
    simp only [segments] at h
    by_cases hl : (part :: parts).getLast? = some []
    · simp only [if_pos hl] at h
      split at h
      · cases h
      · cases h
        exact ⟨rfl, .inr rfl⟩
    · simp only [if_neg hl] at h
      split at h
      · cases h
      · cases h
        exact ⟨rfl, .inl (by simp)⟩
  · cases h

theorem root_takes {t : Target Text Text} (h : t.segs ≠ [] ∨ t.slash = true) :
    (parsePattern "/").takes methods free t = true := by
  rw [parse_root]
  unfold Pattern.takes
  cases hs : t.segs with
  | nil =>
    rw [hs] at h
    rcases h with h | h
    · exact absurd rfl h
    · rw [h]
      rfl
  | cons seg segs => rfl

theorem exists_route {t : Target Text Text} (h : t.segs ≠ [] ∨ t.slash = true) : ∃ r, mux.route t = some r := by
  have hweb : (⟨"/", .anyone, .web⟩ : Registration) ∈ routes := by decide
  exact Option.isSome_iff_exists.mp (Mux.route_isSome (mem_mux hweb) (root_takes h))

/-- Registering the routes does not panic. Every target has one route, and it is strictly more specific than any
other that takes the target. -/
theorem one_route : (Mux.register parsed : Option ServeMux).isSome = true ∧
    ∀ method path t, target method path = some t → ∃ r ∈ mux.routes, mux.route t = some r ∧
      r.1.takes methods free t = true ∧ ∀ r' ∈ mux.routes, r'.1.takes methods free t = true → r' ≠ r →
        r'.1.le methods free r.1 = false ∧
          ∀ t', r.1.takes methods free t' = true → r'.1.takes methods free t' = true := by
  refine ⟨registered, fun method path t htarget => ?_⟩
  obtain ⟨r, hr⟩ := exists_route (target_some htarget).2
  obtain ⟨hm, ht, hleast⟩ := Mux.route_eq_some.mp hr
  refine ⟨r, hm, hr, ht, fun r' hr' ht' hne => ?_⟩
  have hle := hleast r' hr' ht'
  refine ⟨?_, fun t' h => Pattern.le_takes hle h⟩
  by_contra hback
  rw [Bool.not_eq_false] at hback
  exact hne (Mux.least_unique (Mux.mem_found.mpr ⟨hr', ht'⟩) (Mux.mem_found.mpr ⟨hm, ht⟩) hback hle)

/-! ## Who answers -/

theorem mem_routes {r : Pattern Text Text × Registration} (h : r ∈ mux.routes) :
    r.2 ∈ routes ∧ r.1 = parsePattern r.2.pattern := by
  rw [mux_routes] at h
  obtain ⟨e, he, rfl⟩ := List.mem_map.mp h
  exact ⟨he, rfl⟩

theorem takes_path {p : Pattern Text Text} {t : Target Text Text} (h : p.takes methods free t = true) :
    takesPath free p.segs p.subtree t.segs t.slash = true := by
  unfold Pattern.takes at h
  rw [Bool.and_eq_true] at h
  exact h.2

theorem api_takes {t : Target Text Text} : (parsePattern "/api/").takes methods free t = true ↔
    t.segs.head? = some api ∧ (t.slash = true ∨ 1 < t.segs.length) := by
  rw [parse_api]
  exact takesPath_subtree

theorem healthz_takes {t : Target Text Text} : (parsePattern "GET /healthz").takes methods free t = true ↔
    methods.answers GET t.method = true ∧ t.segs = [bytes "healthz"] ∧ t.slash = false := by
  rw [parse_healthz]
  unfold Pattern.takes
  rw [Bool.and_eq_true]
  exact and_congr Iff.rfl takesPath_single

/-- A route that takes a target under `/api` is not the web application's. -/
theorem route_not_web {t : Target Text Text} {r : Pattern Text Text × Registration} (hr : mux.route t = some r)
    (h : t.segs.head? = some api ∧ (t.slash = true ∨ 1 < t.segs.length)) : r.2.handler ≠ .web := by
  intro hweb
  obtain ⟨hm, -, hleast⟩ := Mux.route_eq_some.mp hr
  have hapi : (⟨"/api/", .anyone, .noSuchEndpoint⟩ : Registration) ∈ routes := by decide
  have hle := hleast _ (mem_mux hapi) (api_takes.mpr h)
  obtain ⟨he, hp⟩ := mem_routes hm
  rw [hp, (checked he).web hweb, parse_root, parse_api] at hle
  cases hle

theorem handler_some {method path : Text} {t : Target Text Text} (ht : target method path = some t)
    {e : Registration} :
    handler method path = some e ↔ ∃ pattern, mux.route t = some (pattern, e) ∧ redirected pattern t = false := by
  unfold handler
  rw [ht]
  cases hr : mux.route t with
  | none => simp [hr]
  | some r =>
    obtain ⟨pattern, entry⟩ := r
    cases hred : redirected pattern t with
    | true => simp [hr, hred]
    | false => simp [hr, hred]

theorem route_entry {t : Target Text Text} {pattern : Pattern Text Text} {e : Registration}
    (h : mux.route t = some (pattern, e)) :
    e ∈ routes ∧ pattern = parsePattern e.pattern ∧ (parsePattern e.pattern).takes methods free t = true := by
  obtain ⟨hm, ht, -⟩ := Mux.route_eq_some.mp h
  obtain ⟨he, hp⟩ := mem_routes hm
  refine ⟨he, hp, ?_⟩
  rw [← hp]
  exact ht

theorem exactMatch_subtree {p : Pattern Text Text} {t : Target Text Text} (h : p.subtree = true) :
    exactMatch p t = true ↔ t.slash = true ∧ p.segs.length = t.segs.length := by
  unfold exactMatch
  rw [h]
  simp

theorem redirected_eq_true {pattern : Pattern Text Text} {t : Target Text Text} :
    redirected pattern t = true ↔ exactMatch pattern t = false ∧ t.slash = false ∧
      ∃ r, mux.route (Target.below t) = some r ∧ exactMatch r.1 (Target.below t) = true := by
  unfold redirected
  rw [Bool.and_eq_true, Bool.and_eq_true, Bool.not_eq_true', Bool.not_eq_true', Option.any_eq_true, and_assoc]

/-- A route is the web application's, the health check, or begins with `/api`. -/
theorem route_cases {t : Target Text Text} {pattern : Pattern Text Text} {e : Registration}
    (hr : mux.route t = some (pattern, e)) :
    e.handler = .web ∧ pattern = ⟨none, [], true⟩ ∨
    e.handler = .handleHealthz ∧ methods.answers GET t.method = true ∧ t.segs = [bytes "healthz"] ∧
      t.slash = false ∨
    e.handler ≠ .web ∧ t.segs.head? = some api ∧ (pattern.subtree = true ∨ 1 < pattern.segs.length) := by
  obtain ⟨he, rfl, htakes⟩ := route_entry hr
  by_cases hweb : e.handler = .web
  · refine .inl ⟨hweb, ?_⟩
    rw [(checked he).web hweb, parse_root]
  · by_cases hhealth : e.handler = .handleHealthz
    · rw [(checked he).healthz hhealth] at htakes
      exact .inr (.inl ⟨hhealth, healthz_takes.mp htakes⟩)
    · obtain ⟨hhead, hlen⟩ := (checked he).api hweb hhealth
      rw [List.head?_eq_getElem?] at hhead ⊢
      exact .inr (.inr ⟨hweb, takesPath_lit (takes_path htakes) hhead, hlen⟩)

theorem exact_of_subtree {t : Target Text Text} {p : Pattern Text Text} (hp : p.takes methods free t = true)
    (hsub : p.subtree = false) : p.segs.length = t.segs.length ∧ t.slash = false := by
  have hpath := takes_path hp
  rw [hsub] at hpath
  exact takesPath_exact hpath

/-- The only subtree with a slash that was missing is `/api/`. -/
theorem below_exact {t : Target Text Text} {r : Pattern Text Text × Registration}
    (hr : mux.route (Target.below t) = some r)
    (h : exactMatch r.1 (Target.below t) = true) (hne : t.segs ≠ []) : t.segs = [api] := by
  obtain ⟨p, e⟩ := r
  obtain ⟨he, rfl, htakes⟩ := route_entry hr
  have hsub : (parsePattern e.pattern).subtree = true := by
    by_contra hsub
    rw [Bool.not_eq_true] at hsub
    cases (exact_of_subtree htakes hsub).2
  obtain ⟨-, hlen⟩ := (exactMatch_subtree hsub).mp h
  rcases (checked he).subtree hsub with hweb | hnone
  · rw [(checked he).web hweb, parse_root] at hlen
    exact absurd (List.length_eq_zero_iff.mp hlen.symm) hne
  · rw [(checked he).noSuchEndpoint hnone] at htakes hlen
    rw [parse_api] at hlen
    obtain ⟨seg, hseg⟩ := List.length_eq_one_iff.mp hlen.symm
    have hhead := (api_takes.mp htakes).1
    rw [hseg] at hhead
    cases hhead
    exact hseg

/-- Only `/api` itself is redirected to its subtree. -/
theorem redirected_iff {pattern : Pattern Text Text} {t : Target Text Text} {e : Registration}
    (hr : mux.route t = some (pattern, e)) (hne : t.segs ≠ [] ∨ t.slash = true) :
    redirected pattern t = true ↔ t.segs = [api] ∧ t.slash = false := by
  rw [redirected_eq_true]
  constructor
  · rintro ⟨-, hslash, r, hbelow, hexact⟩
    have hsegs : t.segs ≠ [] := by
      rcases hne with hne | hne
      · exact hne
      · rw [hslash] at hne
        cases hne
    exact ⟨below_exact hbelow hexact hsegs, hslash⟩
  · rintro ⟨hsegs, hslash⟩
    refine ⟨?_, hslash, ?_⟩
    · by_contra hexact
      rw [Bool.not_eq_false] at hexact
      cases hsub : pattern.subtree with
      | true =>
        rw [((exactMatch_subtree hsub).mp hexact).1] at hslash
        cases hslash
      | false =>
        obtain ⟨-, htakes, -⟩ := Mux.route_eq_some.mp hr
        have hlen := (exact_of_subtree htakes hsub).1
        rw [hsegs] at hlen
        rcases route_cases hr with ⟨-, hp⟩ | ⟨-, -, hhealth, -⟩ | ⟨-, -, hp | hp⟩
        · rw [hp] at hsub
          cases hsub
        · rw [hsegs] at hhealth
          revert hhealth
          decide
        · rw [hsub] at hp
          cases hp
        · rw [hlen] at hp
          exact absurd hp (Nat.lt_irrefl 1)
    · obtain ⟨⟨p, e'⟩, hbelow⟩ := exists_route (t := Target.below t) (.inr rfl)
      refine ⟨(p, e'), hbelow, ?_⟩
      have hhead : (Target.below t).segs.head? = some api := by
        show t.segs.head? = some api
        rw [hsegs]
        rfl
      obtain ⟨he, rfl, htakes⟩ := route_entry hbelow
      cases hsub : (parsePattern e'.pattern).subtree with
      | false => cases (exact_of_subtree htakes hsub).2
      | true =>
        have hnone := ((checked he).subtree hsub).resolve_left (route_not_web hbelow ⟨hhead, .inl rfl⟩)
        rw [exactMatch_subtree hsub, (checked he).noSuchEndpoint hnone, parse_api]
        exact ⟨rfl, congrArg List.length hsegs.symm⟩

theorem eq_singleton {segs : List Text} (hhead : segs.head? = some api) (hlen : segs.length ≤ 1) :
    segs = [api] := by
  cases segs with
  | nil => cases hhead
  | cons seg segs =>
    cases hhead
    rw [List.length_eq_zero_iff.mp (Nat.le_zero.mp (Nat.le_of_succ_le_succ hlen))]

theorem handler_eq_none {method path : Text} {t : Target Text Text} (ht : target method path = some t) :
    handler method path = none ↔ t.segs = [api] ∧ t.slash = false := by
  obtain ⟨rfl, hne⟩ := target_some ht
  obtain ⟨⟨pattern, e⟩, hr⟩ := exists_route hne
  rw [← redirected_iff hr hne]
  constructor
  · intro hnone
    by_contra hred
    rw [Bool.not_eq_true] at hred
    cases hnone.symm.trans ((handler_some ht).mpr ⟨pattern, hr, hred⟩)
  · intro hred
    by_contra hsome
    obtain ⟨e', he'⟩ := Option.ne_none_iff_exists'.mp hsome
    obtain ⟨pattern', hr', hred'⟩ := (handler_some ht).mp he'
    cases hr.symm.trans hr'
    rw [hred] at hred'
    cases hred'

/-- The router answers only `/api` itself; the web application whatever is not under it and is not the health check,
and nothing else. Of the API, those answer without a session that are public, or that answer there is no such
endpoint. -/
theorem answered {method path : Text} {t : Target Text Text} (ht : target method path = some t) :
    (handler method path = none ↔ t.segs = [api] ∧ t.slash = false) ∧
    ((∃ e, handler method path = some e ∧ e.handler = .web) ↔ t.segs.head? ≠ some api ∧
      ¬(methods.answers GET method = true ∧ t.segs = [bytes "healthz"] ∧ t.slash = false)) ∧
    ∀ e, handler method path = some e → t.segs.head? = some api → e.guard = .anyone →
      e.handler.isPublic = true ∨ e.handler = .noSuchEndpoint := by
  obtain ⟨rfl, hne⟩ := target_some ht
  obtain ⟨⟨pattern, e⟩, hr⟩ := exists_route hne
  obtain ⟨-, -, hleast⟩ := Mux.route_eq_some.mp hr
  have hnone := handler_eq_none ht
  have hweb : (∃ e, handler t.method path = some e ∧ e.handler = .web) ↔ t.segs.head? ≠ some api ∧
      ¬(methods.answers GET t.method = true ∧ t.segs = [bytes "healthz"] ∧ t.slash = false) := by
    constructor
    · rintro ⟨e', he', hweb⟩
      obtain ⟨pattern', hr', hred⟩ := (handler_some ht).mp he'
      cases hr.symm.trans hr'
      refine ⟨fun hhead => ?_, fun hhealth => ?_⟩
      · by_cases hbelow : t.slash = true ∨ 1 < t.segs.length
        · exact route_not_web hr ⟨hhead, hbelow⟩ hweb
        · rw [not_or, Bool.not_eq_true, Nat.not_lt] at hbelow
          rw [hnone.mpr ⟨eq_singleton hhead hbelow.2, hbelow.1⟩] at he'
          cases he'
      · have hmem : (⟨"GET /healthz", .anyone, .handleHealthz⟩ : Registration) ∈ routes := by decide
        have hle := hleast _ (mem_mux hmem) (healthz_takes.mpr hhealth)
        rcases route_cases hr with ⟨-, hp⟩ | ⟨hh, -⟩ | ⟨hh, -⟩
        · rw [hp, parse_healthz] at hle
          cases hle
        · rw [hweb] at hh
          cases hh
        · exact hh hweb
    · rintro ⟨hhead, hhealth⟩
      refine ⟨e, (handler_some ht).mpr ⟨pattern, hr, ?_⟩, ?_⟩
      · rw [← Bool.not_eq_true, redirected_iff hr hne]
        rintro ⟨hsegs, -⟩
        rw [hsegs] at hhead
        exact hhead rfl
      · rcases route_cases hr with ⟨hweb, -⟩ | ⟨-, h⟩ | ⟨-, h, -⟩
        · exact hweb
        · exact absurd h hhealth
        · exact absurd h hhead
  refine ⟨hnone, hweb, fun e he hhead hguard => ?_⟩
  obtain ⟨pattern', hr', -⟩ := (handler_some ht).mp he
  rcases (checked (route_entry hr').1).anyone hguard with h | h | h
  · exact .inl h
  · exact .inr h
  · exact absurd hhead (hweb.mp ⟨e, he, h⟩).1

/-- `/%61pi/` is under `/api`, `/apis` is not. -/
theorem answered_apis : target GET (bytes "/%61pi/") = some ⟨GET, [api], true⟩ ∧
    (¬∃ e, handler GET (bytes "/%61pi/") = some e ∧ e.handler = .web) ∧
    ∃ e, handler GET (bytes "/apis") = some e ∧ e.handler = .web := by
  have hescaped : target GET (bytes "/%61pi/") = some ⟨GET, [api], true⟩ := by decide +kernel
  have happs : target GET (bytes "/apis") = some ⟨GET, [bytes "apis"], false⟩ := by decide +kernel
  refine ⟨hescaped, fun h => ((answered hescaped).2.1.mp h).1 rfl, (answered happs).2.1.mpr ⟨?_, ?_⟩⟩
  · decide +kernel
  · rintro ⟨-, h, -⟩
    revert h
    decide +kernel

end Keyhole.Http
