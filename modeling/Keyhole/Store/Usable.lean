import Keyhole.Store.AccountEffect

/-!
# Accounts that can be used

Key material is written whole, by enrollment, and cleared whole, by a reset;
the rotations replace columns of an account that has them. `SetUserStatus`
writes the status alone.
-/

namespace Keyhole.Store
open Sql

/-- A complete set of key material, under the parameters the validators pin. -/
structure User.Complete (u : User) : Prop where
  kdfSalt : u.kdfSalt ≠ none
  kdfParams : u.kdfParams = some defaultKDFParamsJSON
  authHash : u.authHash ≠ none
  protectedUserKey : u.protectedUserKey ≠ none
  publicKey : u.publicKey ≠ none
  encryptedPrivateKey : u.encryptedPrivateKey ≠ none
  recoverySalt : u.recoverySalt ≠ none
  recoveryProtectedUserKey : u.recoveryProtectedUserKey ≠ none
  recoveryKDFParams : u.recoveryKDFParams = some defaultKDFParamsJSON
  recoveryAuthHash : u.recoveryAuthHash ≠ none

def Accounts.Usable (a : Accounts) : Prop := ∀ u ∈ a.users, u.status = .active → u.Complete

/-- All of the key material or none, and an active account has it. -/
def User.Whole (u : User) :
    Prop := (u.authHash ≠ none → u.Complete) ∧ (u.status = .active → u.authHash ≠ none)

def Accounts.Whole (a : Accounts) : Prop := ∀ u ∈ a.users, u.Whole

/-- What the lookup before the command has checked. -/
def Command.Validated : Command → Prop
  | completeEnrollment _ _ inp => inp.validate = .ok ()
  | completeRecovery _ _ _ password recovery => password.validate = .ok () ∧ recovery.validate = .ok ()
  | _ => True

/-- An account is made active by name only if it has an auth hash. -/
def Command.ActivatesKeyed (db : Db) : Command → Prop
  | setUserStatus _ _ userID status _ => status = "active" → ∀ u ∈ db.users.get? userID, u.authHash ≠ none
  | _ => True

instance (db : Db) : (c : Command) → Decidable (c.ActivatesKeyed db)
  | .setUserStatus .. => inferInstanceAs (Decidable (_ → ∀ u ∈ _, _))
  | .createItem .. | .createItemsBulk .. | .updateItem .. | .deleteItem .. | .createFolder .. | .updateFolder ..
  | .deleteFolder .. | .createCollection .. | .deleteCollection .. | .fulfilGrantOrAdd .. | .removeMember ..
  | .createPendingGrant .. | .fulfilGrant .. | .resetUser .. | .deleteUser .. | .purgeTombstones ..
  | .createPendingUser .. | .createInvite .. | .completeEnrollment .. | .createSession .. | .rotateSession ..
  | .touchSession .. | .revokeSession .. | .revokeSessionForUser .. | .rotatePassword .. | .rotateRecovery ..
  | .createRecoveryToken .. | .completeRecovery .. => inferInstanceAs (Decidable True)

theorem Accounts.Whole.usable {a : Accounts} (h : a.Whole) : a.Usable :=
  fun u hu hs => (h u hu).1 ((h u hu).2 hs)

/-! ## What the validators leave -/

theorem pinned_ok {field params : String} {r : Unit} (h : pinned field params = .ok r) :
    params = defaultKDFParamsJSON := by
  unfold pinned at h
  split at h
  · assumption
  · cases h

theorem EnrollmentInput.validate_ok {inp : EnrollmentInput} (h : inp.validate = .ok ()) :
    inp.kdfParams = defaultKDFParamsJSON ∧ inp.recoveryKDFParams = defaultKDFParamsJSON := by
  unfold EnrollmentInput.validate at h
  split at h
  · cases h
  · split at h
    · cases h
    · rename_i hk
      exact ⟨pinned_ok hk, pinned_ok h⟩

theorem PasswordRotation.validate_ok {inp : PasswordRotation} (h : inp.validate = .ok ()) :
    inp.kdfParams = defaultKDFParamsJSON := by
  unfold PasswordRotation.validate at h
  split at h
  · cases h
  · exact pinned_ok h

theorem RecoveryRotation.validate_ok {inp : RecoveryRotation} (h : inp.validate = .ok ()) :
    inp.recoveryKDFParams = defaultKDFParamsJSON := by
  unfold RecoveryRotation.validate at h
  split at h
  · cases h
  · exact pinned_ok h

/-! ## One write of a row -/

variable {u : User} {now : Time}

theorem enrolled_complete {inp : EnrollmentInput} (h : inp.validate = .ok ()) : (u.enrolled now inp).Complete := by
  obtain ⟨hk, hr⟩ := inp.validate_ok h
  constructor <;> simp [User.enrolled, hk, hr]

theorem User.Complete.passwordRotated (hu : u.Complete) {inp : PasswordRotation} (h : inp.validate = .ok ()) :
    (u.passwordRotated now inp).Complete := by
  have hk := inp.validate_ok h
  constructor <;> simp [User.passwordRotated, hk, hu.publicKey, hu.encryptedPrivateKey, hu.recoverySalt,
    hu.recoveryProtectedUserKey, hu.recoveryKDFParams, hu.recoveryAuthHash]

theorem User.Complete.recoveryRotated (hu : u.Complete) {inp : RecoveryRotation} (h : inp.validate = .ok ()) :
    (u.recoveryRotated now inp).Complete := by
  have hk := inp.validate_ok h
  constructor <;> simp [User.recoveryRotated, hk, hu.kdfSalt, hu.kdfParams, hu.authHash, hu.protectedUserKey,
    hu.publicKey, hu.encryptedPrivateKey]

theorem User.Complete.withStatus (hu : u.Complete) (status : UserStatus) : (u.withStatus now status).Complete := by
  obtain ⟨h₁, h₂, h₃, h₄, h₅, h₆, h₇, h₈, h₉, h₁₀⟩ := hu
  exact ⟨h₁, h₂, h₃, h₄, h₅, h₆, h₇, h₈, h₉, h₁₀⟩

theorem User.Complete.whole (hu : u.Complete) : u.Whole := ⟨fun _ => hu, fun _ => hu.authHash⟩

theorem parseStatus_active {status : String} (h : parseStatus status = some .active) : status = "active" := by
  unfold parseStatus at h
  split at h
  · assumption
  · split at h <;> cases h

/-! ## Every command -/

section
variable {db : Db} {c : Command} {m : Option Mark} {a : Accounts}

theorem whole_upsert (ha : db.Whole) {u' : User} (hu : u'.Whole) : ∀ x ∈ db.users.upsert u', x.Whole := by
  intro x hx
  rcases Table.mem_upsert.mp hx with ⟨hx, -⟩ | rfl
  · exact ha x hx
  · exact hu

theorem AccountEffect.whole (h : AccountEffect db c m a) (hv : c.Validated) (hk : c.ActivatesKeyed db)
    (ha : db.Whole) : a.Whole := by
  have hactive : ∀ {k : Id} {u : User}, db.users.get? k = some u → u.status = .active → u.Complete :=
    fun hu hs => ha.usable _ (Table.get?_eq_some.mp hu).1 hs
  cases h with
  | userCreated row hid hst hi hnone =>
    intro x hx
    rcases (Table.mem_insert? hi).mp hx with hx | rfl
    · exact ha x hx
    · refine ⟨fun h => absurd hnone h, ?_⟩
      intro hs
      rw [hst] at hs
      cases hs
  | enrolled hi hused hu hst => exact whole_upsert ha (enrolled_complete hv).whole
  | passwordRotated hu hst hinp => exact whole_upsert ha ((hactive hu hst).passwordRotated hinp).whole
  | recoveryRotated hu hst hinp => exact whole_upsert ha ((hactive hu hst).recoveryRotated hinp).whole
  | recovered ht hused hu hst =>
    exact whole_upsert ha (((hactive hu hst).passwordRotated hv.1).recoveryRotated hv.2).whole
  | enabled hu hp =>
    have hkeyed := hk (parseStatus_active hp) _ hu
    have hcomplete := (ha _ (Table.get?_eq_some.mp hu).1).1 hkeyed
    exact whole_upsert ha (hcomplete.withStatus _).whole
  | @disabled now auditID userID actorID text u hu =>
    refine whole_upsert ha ⟨?_, by intro hs; cases hs⟩
    intro hkeyed
    exact ((ha u (Table.get?_eq_some.mp hu).1).1 hkeyed).withStatus _
  | reset hu hi => exact whole_upsert ha ⟨fun h => absurd rfl h, by intro hs; cases hs⟩
  | userDeleted => exact fun x hx => ha x (Table.mem_delete.mp hx).1
  | _ => exact ha

end

end Keyhole.Store
