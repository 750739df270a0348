import Keyhole.Http.Auth
import Keyhole.Store.Usable

/-!
# Active accounts

Enrollment and recovery check the fields of their input when the request is
received, and write them some steps later.
-/

namespace Keyhole.Http
open Store Sql

def Task.Validated : Task → Prop
  | completeEnrollment _ inp => inp.validate = .ok ()
  | completeRecovery _ password recovery => password.validate = .ok () ∧ recovery.validate = .ok ()
  | _ => True

theorem validate_of_isOk {r : Except StoreError Unit} (h : r.isOk = true) : r = .ok () := by
  cases r with
  | error e => cases h
  | ok u => rfl

theorem read_validated {req : Request} {now : Time} {db : Db} {t : Task} (h : req.read now db = some t) :
    t.Validated := by
  cases req with
  | login email authHash label => cases h; trivial
  | recover email authHash => cases h; trivial
  | refresh token =>
    obtain ⟨session, -, rfl⟩ := found_eq h
    trivial
  | rotate accessToken currentAuthHash rotation =>
    obtain ⟨session, -, rfl⟩ := found_eq h
    trivial
  | recoverComplete token password recovery =>
    simp only [Request.read] at h
    split at h
    · rename_i hv
      rw [Bool.and_eq_true] at hv
      obtain ⟨rt, -, rfl⟩ := found_eq h
      exact ⟨validate_of_isOk hv.1, validate_of_isOk hv.2⟩
    · cases h
  | enroll token inp =>
    simp only [Request.read] at h
    split at h
    · rename_i hv
      obtain ⟨invite, -, rfl⟩ := found_eq h
      exact validate_of_isOk hv
    · cases h

theorem advance_validated {t t' : Task} {db : Db} (h : t.advance db = some t') (ht : t.Validated) :
    t'.Validated := by
  cases advance_cases h with
  | ready => exact ht
  | _ => trivial

theorem command_validated {t : Task} {now : Time} {drawn : Drawn} {c : Command} (h : t.command now drawn = some c)
    (ht : t.Validated) : c.Validated := by
  cases t with
  | rotate user session rotation => cases rotation <;> cases h <;> trivial
  | completeEnrollment invite inp => cases h; exact ht
  | completeRecovery rt password recovery => cases h; exact ht
  | createSession | rotateSession | createRecoveryToken => cases h; trivial
  | _ => cases h

theorem direct_validated {c : Command} (h : direct c = true) : c.Validated := by
  cases c with
  | completeEnrollment | completeRecovery => cases h
  | _ => trivial

/-- Whatever the event commits, it makes no account active that has no auth hash. -/
def ActivatesKeyed (s : State) (e : Event) : Prop := ∀ c ∈ s.performs e, c.ActivatesKeyed s.db

instance (s : State) (e : Event) : Decidable (ActivatesKeyed s e) := inferInstanceAs (Decidable (∀ c ∈ _, _))

namespace State

variable {s s' : State} {e : Event}

def FlightsValidated (s : State) : Prop := ∀ f ∈ s.flights, f.task.Validated

theorem flightsValidated_step (h : step s e s') (hf : s.FlightsValidated) : s'.FlightsValidated := by
  intro f hmem
  rcases mem_flights h hmem with hmem | ⟨ticket, now, req, task, rfl, hread, rfl⟩
    | ⟨f₀, h₀, task, hadv, -, -, rfl⟩
  · exact hf f hmem
  · exact read_validated hread
  · exact advance_validated hadv (hf f₀ h₀)

theorem performs_validated (h : step s e s') (hf : s.FlightsValidated) {c : Command} (hp : s.performs e = some c) :
    c.Validated := by
  by_cases hc : direct c = true
  · exact direct_validated hc
  · obtain ⟨ticket, now, drawn, f, rfl, hg, ht⟩ := performs_flight h hp (Bool.not_eq_true _ ▸ hc)
    exact command_validated ht (hf f (Table.get?_eq_some.mp hg).1)

theorem whole_step (h : Lts.Guarded step ActivatesKeyed s e s') (hf : s.FlightsValidated) (hw : s.db.Whole) :
    s'.db.Whole := by
  obtain ⟨hstep, hkeyed⟩ := h
  rcases step_cases hstep with ⟨-, hs, -⟩ | ⟨c, hp, -, hs, -⟩
  · rw [db, hs]
    exact hw
  · rw [db, hs]
    exact (account_effect c s.db).whole (performs_validated hstep hf hp) (hkeyed c hp) hw

end State

/-- Where `SetUserStatus` activates only accounts that have an auth hash,
every active account of every state reached has all of its key material. -/
theorem active_usable {s : State} {es : List Event}
    (h : Lts.Run (Lts.Guarded State.step ActivatesKeyed) State.fresh es s) :
    s.db.Usable := by
  have hinv : s.FlightsValidated ∧ s.db.Whole := by
    refine State.guarded_inv (P := fun s => s.FlightsValidated ∧ s.db.Whole) ⟨?_, ?_⟩ ?_ h
    · intro f hf
      cases hf
    · intro u hu
      cases hu
    · intro s e s' hs hk ⟨hf, hw⟩
      exact ⟨State.flightsValidated_step hs.1 hf, State.whole_step hs hf hw⟩
  exact hinv.2.usable

/-- Alice is disabled, enabled again, and then reset and disabled. -/
def aliceToggled : List Event := adminEnrolls ++ aliceEnrolls ++ [
  .command (.setUserStatus 0 "audit-1" "alice" "disabled" "admin"),
  .command (.setUserStatus 0 "audit-2" "alice" "active" "admin"),
  .command (.resetUser 0 "invite-2" "audit-3" "link-2" "alice" "admin"),
  .command (.setUserStatus 0 "audit-4" "alice" "disabled" "admin")]

theorem active_usable_toggled : (State.script aliceToggled).db.Usable :=
  active_usable (State.run_guarded_script (by decide))

/-- The administrator activates an account nobody has enrolled. -/
def pendingActivated : List Event := adminEnrolls ++ [
  .command (.createPendingUser 0 "alice" "alice@home" "Alice" "user"),
  .command (.setUserStatus 0 "audit-1" "alice" "active" "admin")]

theorem activation_without_keys :
    ¬ ∀ s es, Lts.Run State.step State.fresh es s → s.db.Usable := by
  intro h
  have hu := h _ pendingActivated (State.run_script (by decide))
  have halice : (pendingUser 0 "alice" "alice@home" "Alice" .user).withStatus 0 .active ∈
      (State.script pendingActivated).db.users := by decide
  exact (hu _ halice rfl).authHash rfl

end Keyhole.Http
