import Keyhole.Store.Usable

/-!
# Rows that answer alike

What the sign-in endpoints read of a row: parameters, which the validators
pin, and stored hashes, which the handlers compute. No row holds anything of
either that tells it from another.
-/

namespace Keyhole

def AuthHash.isDigest : AuthHash → Bool
  | argon2id .. => true
  | malformed _ => false

namespace Store
open Sql

structure User.Uniform (u : User) : Prop where
  kdfParams : ∀ params ∈ u.kdfParams, params = defaultKDFParamsJSON
  authHash : ∀ hash ∈ u.authHash, hash.isDigest = true
  recoveryKDFParams : ∀ params ∈ u.recoveryKDFParams, params = defaultKDFParamsJSON
  recoveryAuthHash : ∀ hash ∈ u.recoveryAuthHash, hash.isDigest = true

def Accounts.Uniform (a : Accounts) : Prop := ∀ u ∈ a.users, u.Uniform

def EnrollmentInput.hashed (inp : EnrollmentInput) : Bool := inp.authHash.isDigest && inp.recoveryAuthHash.isDigest

/-- The hashes the command carries are those of `HashAuthHash`. -/
def Command.Hashed : Command → Prop
  | completeEnrollment _ _ inp => inp.hashed = true
  | rotatePassword _ _ _ inp _ => inp.authHash.isDigest = true
  | rotateRecovery _ _ _ inp => inp.recoveryAuthHash.isDigest = true
  | completeRecovery _ _ _ password recovery =>
    password.authHash.isDigest = true ∧ recovery.recoveryAuthHash.isDigest = true
  | _ => True

/-! ## One write of a row -/

variable {u : User} {now : Time}

theorem enrolled_uniform {inp : EnrollmentInput} (hv : inp.validate = .ok ()) (hh : inp.hashed = true) :
    (u.enrolled now inp).Uniform := by
  obtain ⟨hk, hr⟩ := inp.validate_ok hv
  rw [EnrollmentInput.hashed, Bool.and_eq_true] at hh
  constructor <;> simp [User.enrolled, hk, hr, hh]

theorem User.Uniform.passwordRotated (hu : u.Uniform) {inp : PasswordRotation} (hv : inp.validate = .ok ())
    (hh : inp.authHash.isDigest = true) : (u.passwordRotated now inp).Uniform where
  kdfParams := by simp [User.passwordRotated, inp.validate_ok hv]
  authHash := by simp [User.passwordRotated, hh]
  recoveryKDFParams := hu.recoveryKDFParams
  recoveryAuthHash := hu.recoveryAuthHash

theorem User.Uniform.recoveryRotated (hu : u.Uniform) {inp : RecoveryRotation} (hv : inp.validate = .ok ())
    (hh : inp.recoveryAuthHash.isDigest = true) : (u.recoveryRotated now inp).Uniform where
  kdfParams := hu.kdfParams
  authHash := hu.authHash
  recoveryKDFParams := by simp [User.recoveryRotated, inp.validate_ok hv]
  recoveryAuthHash := by simp [User.recoveryRotated, hh]

theorem User.Uniform.withStatus (hu : u.Uniform) (status : UserStatus) : (u.withStatus now status).Uniform :=
  ⟨hu.kdfParams, hu.authHash, hu.recoveryKDFParams, hu.recoveryAuthHash⟩

theorem reset_uniform : (u.reset now).Uniform := by
  constructor <;> simp [User.reset]

/-! ## Every command -/

section
variable {db : Db} {c : Command} {m : Option Mark} {a : Accounts}

theorem uniform_upsert (ha : db.Uniform) {u' : User} (hu : u'.Uniform) : ∀ x ∈ db.users.upsert u', x.Uniform := by
  intro x hx
  rcases Table.mem_upsert.mp hx with ⟨hx, -⟩ | rfl
  · exact ha x hx
  · exact hu

theorem AccountEffect.uniform (h : AccountEffect db c m a) (hv : c.Validated) (hh : c.Hashed) (ha : db.Uniform) :
    a.Uniform := by
  have hrow : ∀ {k : Id} {u : User}, db.users.get? k = some u → u.Uniform :=
    fun hu => ha _ (Table.get?_eq_some.mp hu).1
  cases h with
  | userCreated row hid hst hi hk hn =>
    intro x hx
    rcases (Table.mem_insert? hi).mp hx with hx | rfl
    · exact ha x hx
    · constructor <;> simp [hk, hn]
  | enrolled hi hused hu hst => exact uniform_upsert ha (enrolled_uniform hv hh)
  | passwordRotated hu hst hinp => exact uniform_upsert ha ((hrow hu).passwordRotated hinp hh)
  | recoveryRotated hu hst hinp => exact uniform_upsert ha ((hrow hu).recoveryRotated hinp hh)
  | recovered ht hused hu hst =>
    exact uniform_upsert ha (((hrow hu).passwordRotated hv.1 hh.1).recoveryRotated hv.2 hh.2)
  | enabled hu hp => exact uniform_upsert ha ((hrow hu).withStatus _)
  | disabled hu hadmin => exact uniform_upsert ha ((hrow hu).withStatus _)
  | reset hu hi => exact uniform_upsert ha reset_uniform
  | userDeleted => exact fun x hx => ha x (Table.mem_delete.mp hx).1
  | _ => exact ha

end

end Store

end Keyhole
