import Keyhole.Http.Account
import Keyhole.Lib.Fallible
import Keyhole.Vault.Keys

/-!
# The client and its requests

A flow runs over the device's session and the server's database. A request is
sent once more after a 401 when the refresh in between succeeds; when it does
not, the device locks.
-/

namespace Keyhole.Client
open Store Http Vault

structure SessionTokens where
  accessToken : String
  refreshToken : String
  deriving DecidableEq, Repr

/-- The session of the application: its tokens and the account's own keys. -/
structure Device (K : Type) where
  tokens : Option SessionTokens
  keys : Option (UnlockedKeys K)
  deriving DecidableEq

def Device.locked {K : Type} : Device K where
  tokens := none
  keys := none

def Device.opened {K : Type} (tokens : SessionTokens) (keys : UnlockedKeys K) : Device K where
  tokens := some tokens
  keys := some keys

structure Scene (K : Type) where
  device : Device K
  db : Db
  deriving DecidableEq

/-- `crypto` is an error of the crypto package, `malformed` of `JSON.parse`. -/
inductive Failure
  | api (code : String) (status : Nat)
  | network
  | storage
  | crypto
  | malformed
  | locked
  | wrongMasterPassword
  | wrongRecoveryCode
  deriving DecidableEq, Repr

abbrev Call (K α : Type) : Type := Fallible (Scene K) Failure α

/-! ## One request on the network -/

structure ErrorStatus where
  status : Nat
  isError : 400 ≤ status

/-- What the network makes of a request. An `unsent` or `refused` one never reaches
the server; a `refused` or `replaced` one is answered by somebody in between. -/
inductive Delivery
  | delivered
  | unsent
  | refused (status : ErrorStatus)
  | lost
  | replaced (status : ErrorStatus)

/-- `toApiError`: an answer without the server's envelope has the code `internal`. -/
def toApiError : Response → Failure
  | .error status code _ => .api code status
  | .conflict .. => .api "conflict" 409
  | .item status _ | .items status _ => .api "internal" status

structure Hop where
  delivery : Delivery
  now : Time
  draw : Draw

abbrev Handler (α : Type) : Type := (token : Option String) → (now : Time) → (draw : Draw) → Db → Reply α

def Hop.serve {α : Type} (hop : Hop) (token : Option String) (handler : Handler α) (db : Db) :
    Except Failure α × Db :=
  let (answer, after) := handler token hop.now hop.draw db
  match hop.delivery with
  | .delivered => (answer.mapError toApiError, after)
  | .unsent => (.error .network, db)
  | .refused by_ => (.error (.api "internal" by_.status), db)
  | .lost => (.error .network, after)
  | .replaced by_ => (.error (.api "internal" by_.status), after)

/-! ## A request of the client -/

/-- What may become of one: the request, a refresh, and the request again. -/
structure Wire where
  first : Hop
  refresh : Hop
  second : Hop

section
variable {K α : Type}

def Device.accessToken (device : Device K) : Option String := device.tokens.map SessionTokens.accessToken

def send (hop : Hop) (handler : Handler α) : Call K α := fun s =>
  let (answer, db) := hop.serve s.device.accessToken handler s.db
  (answer, { s with db })

/-- A refresh that fails in any way locks the device. -/
def onUnauthorized (hop : Hop) (s : Scene K) : Bool × Scene K :=
  match s.device.tokens with
  | none => (false, s)
  | some tokens =>
    match hop.serve none (fun _ => handleRefresh tokens.refreshToken) s.db with
    | (.ok next, db) => (true, ⟨{ s.device with tokens := some ⟨next.accessToken, next.refreshToken⟩ }, db⟩)
    | (.error _, db) => (false, ⟨.locked, db⟩)

def Failure.status : Failure → Option Nat
  | api _ status => some status
  | _ => none

def request (wire : Wire) (handler : Handler α) : Call K α := fun s =>
  match (send wire.first handler).run s with
  | (.ok a, s) => (.ok a, s)
  | (.error e, s) =>
    if e.status = some 401 then
      match onUnauthorized wire.refresh s with
      | (true, s) => (send wire.second handler).run s
      | (false, s) => (.error e, s)
    else (.error e, s)

/-! ## What a request comes to -/

theorem serve_ok {hop : Hop} {token : Option String} {handler : Handler α} {db db' : Db} {a : α}
    (h : hop.serve token handler db = (.ok a, db')) : handler token hop.now hop.draw db = (.ok a, db') := by
  unfold Hop.serve at h
  cases hd : hop.delivery with
  | delivered =>
    cases hr : handler token hop.now hop.draw db with
    | mk answer after =>
      cases answer with
      | ok b => simpa [hr, hd, Except.mapError] using h
      | error e => simp [hr, hd, Except.mapError] at h
  | unsent | refused status | lost | replaced status => simp [hd] at h

theorem serve_db (hop : Hop) (token : Option String) (handler : Handler α) (db : Db) :
    (hop.serve token handler db).2 = db ∨
      (hop.serve token handler db).2 = (handler token hop.now hop.draw db).2 := by
  unfold Hop.serve
  cases hop.delivery with
  | delivered | lost | replaced status => exact Or.inr rfl
  | unsent | refused status => exact Or.inl rfl

theorem serve_delivered {hop : Hop} (h : hop.delivery = .delivered) (token : Option String) (handler : Handler α)
    (db : Db) : hop.serve token handler db =
      ((handler token hop.now hop.draw db).1.mapError toApiError, (handler token hop.now hop.draw db).2) := by
  unfold Hop.serve
  rw [h]

theorem request_locked {wire : Wire} {handler : Handler α} {s : Scene K} (h : s.device.tokens = none) :
    (request wire handler).run s = (send wire.first handler).run s := by
  change request wire handler s = _
  unfold request
  cases hf : (send wire.first handler).run s with
  | mk answer s₁ =>
    cases answer with
    | ok a => rfl
    | error e =>
      have hs₁ : s₁.device = s.device := by
        simp only [Fallible.run, send, Prod.mk.injEq] at hf
        obtain ⟨-, rfl⟩ := hf
        rfl
      simp only [onUnauthorized, hs₁, h, ite_self]

theorem onUnauthorized_users (hop : Hop) (s : Scene K) : (onUnauthorized hop s).2.db.users = s.db.users := by
  unfold onUnauthorized
  cases s.device.tokens with
  | none => rfl
  | some tokens =>
    have hrefresh : (handleRefresh tokens.refreshToken hop.now hop.draw s.db).2.users = s.db.users := by
      rcases handleRefresh_cases tokens.refreshToken hop.now hop.draw s.db with ⟨r, h⟩ | ⟨_, -, -, -, h, -⟩
      · rw [h]
      · rw [h]
    have hserve := serve_db hop none (fun _ => handleRefresh tokens.refreshToken) s.db
    cases hr : hop.serve none (fun _ => handleRefresh tokens.refreshToken) s.db with
    | mk answer db =>
      rw [hr] at hserve
      simp only [hr]
      have hdb : db.users = s.db.users := by
        rcases hserve with hd | hd
        · exact congrArg (fun db : Db => db.users) hd
        · exact (congrArg (fun db : Db => db.users) hd).trans hrefresh
      cases answer <;> exact hdb

theorem send_run (hop : Hop) (handler : Handler α) (s : Scene K) :
    (send hop handler).run s = ((hop.serve s.device.accessToken handler s.db).1,
      { s with db := (hop.serve s.device.accessToken handler s.db).2 }) := rfl

section
variable {I : Scene K → Prop} {wire : Wire} {handler : Handler α}
  (hh : ∀ s now draw, I s → I { s with db := (handler s.device.accessToken now draw s.db).2 })
  (hr : ∀ s hop, I s → I (onUnauthorized hop s).2)
include hh

theorem send_keeps (hop : Hop) {s : Scene K} (hs : I s) : I ((send hop handler).run s).2 := by
  rw [send_run]
  rcases serve_db hop s.device.accessToken handler s.db with hd | hd
  · simpa only [hd] using hs
  · simpa only [hd] using hh s _ _ hs

include hr

theorem request_keeps {s : Scene K} (hs : I s) : I ((request wire handler).run s).2 := by
  change I (request wire handler s).2
  unfold request
  have hs₁ := send_keeps hh wire.first hs
  cases hf : (send wire.first handler).run s with
  | mk answer s₁ =>
    rw [hf] at hs₁
    cases answer with
    | ok b => exact hs₁
    | error e =>
      simp only
      by_cases he : e.status = some 401
      · rw [if_pos he]
        have hs₂ := hr s₁ wire.refresh hs₁
        cases hu : onUnauthorized wire.refresh s₁ with
        | mk retry s₂ =>
          rw [hu] at hs₂
          cases retry with
          | true => exact send_keeps hh wire.second hs₂
          | false => exact hs₂
      · rw [if_neg he]
        exact hs₁

theorem request_triple :
    Fallible.Triple I (request wire handler) fun a s' =>
      ∃ s now draw, I s ∧ handler s.device.accessToken now draw s.db = (.ok a, s'.db) ∧ s'.device = s.device := by
  have hsend : ∀ hop s, I s → ∀ a s', (send hop handler).run s = (.ok a, s') →
      ∃ s now draw, I s ∧ handler s.device.accessToken now draw s.db = (.ok a, s'.db) ∧ s'.device = s.device := by
    intro hop s hs a s' h
    rw [send_run, Prod.mk.injEq] at h
    obtain ⟨ha, rfl⟩ := h
    exact ⟨s, hop.now, hop.draw, hs, serve_ok (Prod.ext ha rfl), rfl⟩
  intro s hs a s' h
  change request wire handler s = _ at h
  unfold request at h
  have hs₁ := send_keeps hh wire.first hs
  cases hf : (send wire.first handler).run s with
  | mk answer s₁ =>
    rw [hf] at h hs₁
    cases answer with
    | ok b =>
      simp only [Prod.mk.injEq, Except.ok.injEq] at h
      obtain ⟨rfl, rfl⟩ := h
      exact hsend _ _ hs _ _ hf
    | error e =>
      simp only at h
      by_cases he : e.status = some 401
      · rw [if_pos he] at h
        have hs₂ := hr s₁ wire.refresh hs₁
        cases hu : onUnauthorized wire.refresh s₁ with
        | mk retry s₂ =>
          rw [hu] at h hs₂
          cases retry with
          | true => exact hsend _ _ hs₂ _ _ h
          | false => simp at h
      · rw [if_neg he] at h
        simp at h

end

end

end Keyhole.Client
