import Keyhole.Client.Lifecycle

/-!
# A recovery code in force is a code somebody has seen

A flow that issues a code makes it, sends what the code opens, and hands the
code on. Between the two the server commits and the network answers, not
always the same way.
-/

namespace Keyhole.Client.Codes
open Sql Store Http Vault Lifecycle

/-! ## What a committing request comes to -/

inductive Outcome
  | success
  | uncommitted
  | errorAfter (status : Nat)
  | lostAfter
  deriving DecidableEq, Repr

/-- Every commit of these requests writes a user. -/
def outcome {K α : Type} (x : Call K α) (s : Scene K) : Outcome :=
  match (x.run s).1 with
  | .ok _ => .success
  | .error e =>
    if (x.run s).2.db.users = s.db.users then .uncommitted
    else
      match e.status with
      | some status => .errorAfter status
      | none => .lostAfter

def Outcome.heard : Outcome → Bool
  | success | uncommitted => true
  | errorAfter _ | lostAfter => false

/-- Not answered, after the commit, as if the server had declined the request. -/
def Outcome.undenied : Outcome → Bool
  | errorAfter status => !(400 ≤ status && status < 500)
  | success | uncommitted | lostAfter => true

section
variable {K P : Type} (C : Crypto K P) (D : Kdf K) (decoys : Decoys)

/-- The stored recovery credential is derived from `code`: a client that redeems it is accepted. -/
def accepts (u : User) (code : String) : Bool :=
  ((do
    let recoverySalt ← u.recoverySalt.bind D.fromBase64
    let params ← u.recoveryKDFParams.bind D.parseParams
    deriveRecoveryKey D code recoverySalt params) : Option K).any fun recoveryKey =>
      verifyAuthHash (D.toBase64 (deriveRecoveryAuthHash D recoveryKey)) (u.recoveryAuthHash.getD dummyAuthHash)

def inForce (db : Db) (code : String) : Bool := db.users.any fun u => accepts D u code

/-- If `code` is in force after the flow, the flow has given it to its caller. -/
def Kept {α : Type} (x : Call K α) (codeOf : α → String) (code : String) (s : Scene K) : Prop :=
  inForce D (x.run s).2.db code = true → ∃ a, (x.run s).1 = .ok a ∧ codeOf a = code

/-! ## What precedes the committing request -/

def prepareEnroll (draw : EnrollmentDraw K) (code : CodeDraw K) (masterPassword : String) :
    Option (EnrollmentResult K × EnrollRequest) := do
  let enrolled ← enrollUser C D draw masterPassword defaultKdfParams
  let recovery ← createRecoveryBlob C D code.wrap enrolled.keys.userKey (generateRecoveryCode code.bytes)
    defaultKdfParams
  return (enrolled, enrollRequest D enrolled recovery)

/-- What follows the commit of an enrollment: the browser is to store the address, which nothing catches, and a
sign-in that may fail. -/
def afterEnroll (loginWire : Wire) (stored : Bool) (code : CodeDraw K) (input : EnrolInput)
    (enrolled : EnrollmentResult K) : Call K EnrolmentOutcome := do
  rememberEmail stored
  match ← (login loginWire input.email (D.toBase64 enrolled.authHash) input.deviceLabel).attempt with
  | .ok login =>
    openSession ⟨login.accessToken, login.refreshToken⟩ enrolled.keys
    return ⟨generateRecoveryCode code.bytes, true⟩
  | .error _ => return ⟨generateRecoveryCode code.bytes, false⟩

def prepareRegenerate (preloginWire : Wire) (draw : CodeDraw K) (input : RegenerateInput) :
    Call K RotateRecoveryRequest := do
  let current ← currentAuthHash D decoys preloginWire input.email input.currentPassword
  let keys ← getKeys
  let blob ← Fallible.ofOption .crypto
    (createRecoveryBlob C D draw.wrap keys.userKey (generateRecoveryCode draw.bytes) defaultKdfParams)
  return rotateRecoveryRequest D current blob

def prepareComplete (draw : WrapDraw K) (code : CodeDraw K) (session : RecoverySession K)
    (newMasterPassword : String) :
    Option RecoverCompleteRequest := do
  let rotation ← rotateMasterPassword C D draw newMasterPassword session.keys.userKey defaultKdfParams
  let blob ← createRecoveryBlob C D code.wrap session.keys.userKey (generateRecoveryCode code.bytes)
    defaultKdfParams
  return recoverCompleteRequest D session.recoveryToken rotation blob

/-- What follows the answer of a completed recovery: only an error that reads as a refusal is let through. -/
def afterComplete (code : CodeDraw K) : Except Failure Unit → Call K RecoveryOutcome
  | .ok () => return ⟨generateRecoveryCode code.bytes, true⟩
  | .error e => if e.refuses then Fallible.fail e else return ⟨generateRecoveryCode code.bytes, false⟩

variable {C D decoys}

/-! ## A commit puts the code in force -/

theorem accepts_blob {draw : WrapDraw K} {userKey : K} {code : String} {blob : RecoveryBlob K} {u : User}
    (hashSalt : String) (h : createRecoveryBlob C D draw userKey code defaultKdfParams = some blob)
    (hs : u.recoverySalt = some (D.toBase64 blob.recoverySalt))
    (hp : u.recoveryKDFParams = some defaultKDFParamsJSON)
    (ha : u.recoveryAuthHash = some (hashAuthHash hashSalt (D.toBase64 blob.recoveryAuthHash))) :
    accepts D u code = true := by
  obtain ⟨rk, hrk, rfl⟩ := createRecoveryBlob_eq h
  unfold accepts
  simp [hs, hp, ha, D.fromBase64_toBase64, D.parseParams_default, hrk, hashAuthHash, verifyAuthHash]

theorem inForce_upsert {db : Db} {code : String} {users : Table User.id} {u : User} (hu : db.users = users.upsert u)
    (h : accepts D u code = true) : inForce D db code = true :=
  Table.any_eq_true.mpr ⟨u, by rw [hu]; exact Table.mem_upsert.mpr (Or.inr rfl), h⟩

theorem inForce_congr {db db' : Db} (h : db'.users = db.users) (code : String) :
    inForce D db' code = inForce D db code := by
  unfold inForce
  rw [h]

def Issues {α : Type} (D : Kdf K) (handler : Handler α) (code : String) : Prop :=
  ∀ token now draw db, (handler token now draw db).2.users = db.users ∨
    inForce D (handler token now draw db).2 code = true

theorem enroll_issues {draw : EnrollmentDraw K} {code : CodeDraw K} {masterPassword : String}
    {p : EnrollmentResult K × EnrollRequest} (h : prepareEnroll C D draw code masterPassword = some p)
    (token : String) :
    Issues D (fun _ => handleEnroll token p.2) (generateRecoveryCode code.bytes) := by
  simp only [prepareEnroll, Option.bind_eq_bind, Option.bind_eq_some_iff, Option.pure_def, Option.some.injEq] at h
  obtain ⟨enrolled, -, recovery, hr, rfl⟩ := h
  intro _ now sd db
  rcases handleEnroll_cases token (enrollRequest D enrolled recovery) now sd db with ⟨r, h⟩
    | ⟨_, _, u, -, -, -, h⟩
  · left
    simp only [h]
  · right
    beta_reduce
    rw [h]
    exact inForce_upsert rfl (accepts_blob sd.recoverySalt hr rfl rfl rfl)

theorem rotateRecovery_issues {draw : CodeDraw K} {userKey : K} {blob : RecoveryBlob K}
    (h : createRecoveryBlob C D draw.wrap userKey (generateRecoveryCode draw.bytes) defaultKdfParams = some blob)
    (current : String) :
    Issues D (handleRotateRecovery (rotateRecoveryRequest D current blob)) (generateRecoveryCode draw.bytes) := by
  intro token now sd db
  rcases handleRotateRecovery_cases (rotateRecoveryRequest D current blob) token now sd db with
    ⟨r, hr⟩ | ⟨_, u, _, -, -, -, -, ⟨r, hr⟩ | ⟨auditLog, answer, hr⟩⟩
  · left
    rw [hr]
  · left
    rw [hr]
    rfl
  · right
    rw [hr]
    exact inForce_upsert rfl (accepts_blob sd.recoverySalt h rfl rfl rfl)

theorem complete_issues {draw : WrapDraw K} {code : CodeDraw K} {session : RecoverySession K}
    {newMasterPassword : String} {req : RecoverCompleteRequest}
    (h : prepareComplete C D draw code session newMasterPassword = some req) :
    Issues D (fun _ => handleRecoverComplete req) (generateRecoveryCode code.bytes) := by
  simp only [prepareComplete, Option.bind_eq_bind, Option.bind_eq_some_iff, Option.pure_def, Option.some.injEq] at h
  obtain ⟨rotation, -, blob, hb, rfl⟩ := h
  intro _ now sd db
  rcases handleRecoverComplete_cases (recoverCompleteRequest D session.recoveryToken rotation blob) now sd db with
    ⟨r, h⟩ | ⟨_, u, auditLog, -, -, -, h⟩
  · left
    simp only [h]
  · right
    beta_reduce
    rw [h]
    exact inForce_upsert rfl (accepts_blob sd.recoverySalt hb rfl rfl rfl)

section
variable {α : Type} {handler : Handler α} {code : String} {wire : Wire} {s : Scene K}

theorem request_issues (h : Issues D handler code) (wire : Wire) (s : Scene K) :
    ((request wire handler).run s).2.db.users = s.db.users ∨
    inForce D ((request wire handler).run s).2.db code = true := by
  refine request_keeps (I := fun t => t.db.users = s.db.users ∨ inForce D t.db code = true) ?_ ?_ (Or.inl rfl)
  · intro t now draw ht
    rcases h t.device.accessToken now draw t.db with hsame | hforce
    · rcases ht with ht | ht
      · exact Or.inl (hsame.trans ht)
      · exact Or.inr ((inForce_congr hsame code).trans ht)
    · exact Or.inr hforce
  · intro t hop ht
    have hu := onUnauthorized_users hop t
    rcases ht with ht | ht
    · exact Or.inl (hu.trans ht)
    · exact Or.inr ((inForce_congr hu code).trans ht)

theorem inForce_iff (h : Issues D handler code) (hf : inForce D s.db code = false) :
    inForce D ((request wire handler).run s).2.db code = false ↔
      ((request wire handler).run s).2.db.users = s.db.users := by
  constructor
  · intro hn
    rcases request_issues h wire s with hu | hu
    · exact hu
    · rw [hn] at hu
      cases hu
  · intro hu
    rw [inForce_congr hu]
    exact hf

theorem heard_error {x : Call K α} {e : Failure} (hx : (x.run s).1 = .error e) :
    (outcome x s).heard = true ↔ (x.run s).2.db.users = s.db.users := by
  unfold outcome
  rw [hx]
  by_cases hu : (x.run s).2.db.users = s.db.users
  · simp [hu, Outcome.heard]
  · cases hst : e.status <;> simp [hu, hst, Outcome.heard]

theorem undenied_error {x : Call K α} {e : Failure} (hx : (x.run s).1 = .error e) :
    (outcome x s).undenied = true ↔ (e.refuses = true → (x.run s).2.db.users = s.db.users) := by
  unfold outcome Failure.refuses
  rw [hx]
  by_cases hu : (x.run s).2.db.users = s.db.users
  · simp [hu, Outcome.undenied]
  · cases hst : e.status with
    | none => simp [hu, hst, Outcome.undenied]
    | some status =>
      have hs : status < 400 ∨ 500 ≤ status ↔ (400 ≤ status → 500 ≤ status) := by omega
      simpa [hu, hst, Outcome.undenied] using hs

end

/-! ## The three flows -/

variable {s : Scene K} {wire loginWire preloginWire : Wire} {code : CodeDraw K}

theorem kept_of_silent {α : Type} {x : Call K α} {codeOf : α → String} {c : String} (hf : inForce D s.db c = false)
    (hu : (x.run s).2.db.users = s.db.users) : Kept D x codeOf c s := by
  intro h
  rw [inForce_congr hu, hf] at h
  cases h

theorem kept_of_given {α : Type} {x : Call K α} {codeOf : α → String} {c : String} {a : α}
    (h : (x.run s).1 = .ok a) (hc : codeOf a = c) : Kept D x codeOf c s :=
  fun _ => ⟨a, h, hc⟩

theorem kept_of_error {α : Type} {x : Call K α} {codeOf : α → String} {c : String} {e : Failure}
    (h : (x.run s).1 = .error e) : Kept D x codeOf c s ↔ inForce D (x.run s).2.db c = false := by
  constructor
  · intro hk
    by_contra hc
    rw [Bool.not_eq_false] at hc
    obtain ⟨a, ha, -⟩ := hk hc
    rw [h] at ha
    cases ha
  · intro hc hin
    rw [hc] at hin
    cases hin

theorem kept_bind {α β : Type} {x : Call K α} {rest : α → Call K β} {codeOf : β → String} {c : String}
    (hx : (x.run s).2.db.users = s.db.users) (hf : inForce D s.db c = false) :
    Kept D (x >>= rest) codeOf c s ↔ ∀ a t, x.run s = (.ok a, t) → Kept D (rest a) codeOf c t := by
  cases hr : x.run s with
  | mk answer t =>
    rw [hr] at hx
    cases answer with
    | ok a =>
      have hrun : (x >>= rest).run s = (rest a).run t := by rw [Fallible.run_bind, hr]
      unfold Kept
      rw [hrun]
      constructor
      · intro h a' t' ht
        cases ht
        exact h
      · intro h
        exact h a t rfl
    | error e =>
      have hrun : (x >>= rest).run s = (.error e, t) := by rw [Fallible.run_bind, hr]
      refine ⟨fun _ a t ht => by simp at ht, fun _ => kept_of_silent hf ?_⟩
      rw [hrun]
      exact hx

section
variable {α β : Type} {handler : Handler α} {codeOf : β → String} {c : String}

theorem kept_request {rest : α → Call K β} (h : Issues D handler c) (hf : inForce D s.db c = false)
    (hk : ∀ a t, ∃ b, ((rest a).run t).1 = .ok b ∧ codeOf b = c) :
    Kept D (request wire handler >>= rest) codeOf c s ↔ (outcome (request wire handler) s).heard = true := by
  cases hr : (request wire handler).run s with
  | mk answer t =>
    cases answer with
    | ok a =>
      have hrun : (request wire handler >>= rest).run s = (rest a).run t := by rw [Fallible.run_bind, hr]
      obtain ⟨b, hb, hc⟩ := hk a t
      refine ⟨fun _ => ?_, fun _ => kept_of_given (by rw [hrun]; exact hb) hc⟩
      unfold outcome
      rw [hr]
      rfl
    | error e =>
      have hrun : (request wire handler >>= rest).run s = (.error e, t) := by rw [Fallible.run_bind, hr]
      have he : ((request wire handler).run s).1 = .error e := by rw [hr]
      have hdb : ((request wire handler >>= rest).run s).2 = ((request wire handler).run s).2 := by rw [hrun, hr]
      rw [kept_of_error (by rw [hrun]), heard_error he, hdb]
      exact inForce_iff h hf

theorem success_iff :
    outcome (request wire handler) s = .success ↔ ∃ a, ((request wire handler).run s).1 = .ok a := by
  unfold outcome
  cases ((request wire handler).run s).1 with
  | ok a => simp
  | error e =>
    simp only [reduceCtorEq, exists_false, iff_false]
    split
    · simp
    · cases e.status <;> simp

/-- Where what follows the answer throws, only a request that commits nothing does no harm. -/
theorem kept_thrown {rest : α → Call K β} (h : Issues D handler c) (hf : inForce D s.db c = false)
    (hcommit : ∀ a t, (request wire handler).run s = (.ok a, t) → inForce D t.db c = true)
    (hr : ∀ a t, ∃ e, (rest a).run t = (.error e, t)) :
    Kept D (request wire handler >>= rest) codeOf c s ↔
      (outcome (request wire handler) s).heard = true ∧ outcome (request wire handler) s ≠ .success := by
  cases ha : (request wire handler).run s with
  | mk answer t =>
    cases answer with
    | ok a =>
      obtain ⟨e, he⟩ := hr a t
      have hrun : (request wire handler >>= rest).run s = (.error e, t) := by rw [Fallible.run_bind, ha, ← he]
      rw [kept_of_error (by rw [hrun]), hrun]
      simp only [hcommit a t ha, Bool.true_eq_false, false_iff, not_and, ne_eq, not_not]
      exact fun _ => success_iff.mpr ⟨a, by rw [ha]⟩
    | error e =>
      have hrun : (request wire handler >>= rest).run s = (.error e, t) := by rw [Fallible.run_bind, ha]
      have he : ((request wire handler).run s).1 = .error e := by rw [ha]
      have hdb : ((request wire handler >>= rest).run s).2 = ((request wire handler).run s).2 := by rw [hrun, ha]
      have hno : outcome (request wire handler) s ≠ .success := by
        rw [ne_eq, success_iff, he]
        rintro ⟨a, ha⟩
        cases ha
      rw [kept_of_error (by rw [hrun]), heard_error he, hdb, inForce_iff h hf]
      exact (and_iff_left hno).symm

theorem kept_attempt {rest : Except Failure α → Call K β} (h : Issues D handler c) (hf : inForce D s.db c = false)
    (hk : ∀ answer t, (∀ e, answer = .error e → e.refuses = false) →
      ∃ b, ((rest answer).run t).1 = .ok b ∧ codeOf b = c)
    (hr : ∀ e t, e.refuses = true → (rest (.error e)).run t = (.error e, t)) :
    Kept D ((request wire handler).attempt >>= rest) codeOf c s ↔
      (outcome (request wire handler) s).undenied = true := by
  have hrun : ((request wire handler).attempt >>= rest).run s =
      (rest ((request wire handler).run s).1).run ((request wire handler).run s).2 := rfl
  cases ha : ((request wire handler).run s).1 with
  | ok a =>
    obtain ⟨b, hb, hc⟩ := hk (.ok a) ((request wire handler).run s).2 fun e he => by cases he
    refine ⟨fun _ => ?_, fun _ => kept_of_given (by rw [hrun, ha]; exact hb) hc⟩
    unfold outcome
    rw [ha]
    rfl
  | error e =>
    rw [undenied_error ha]
    by_cases he : e.refuses = true
    · have hfail : ((request wire handler).attempt >>= rest).run s =
        (.error e, ((request wire handler).run s).2) := by
        rw [hrun, ha]
        exact hr e _ he
      rw [kept_of_error (by rw [hfail]), hfail, inForce_iff h hf]
      exact ⟨fun hu _ => hu, fun hu => hu he⟩
    · obtain ⟨b, hb, hc⟩ :=
        hk (.error e) ((request wire handler).run s).2 fun e' he' => by cases he'; simpa using he
      exact ⟨fun _ hre => absurd hre he, fun _ => kept_of_given (by rw [hrun, ha]; exact hb) hc⟩

end

theorem ofOption_users {α : Type} (e : Failure) (o : Option α) :
    ((Fallible.ofOption e o : Call K α).run s).2.db.users = s.db.users := by
  cases o <;> rfl

theorem enroll_eq (stored : Bool) (draw : EnrollmentDraw K) (input : EnrolInput) :
    enroll C D wire loginWire stored draw code input =
      Fallible.ofOption .crypto (prepareEnroll C D draw code input.masterPassword) >>= fun p =>
        request wire (fun _ => handleEnroll input.inviteToken p.2) >>= fun _ =>
          afterEnroll D loginWire stored code input p.1 := by
  unfold enroll prepareEnroll
  cases enrollUser C D draw input.masterPassword defaultKdfParams with
  | none => rfl
  | some enrolled =>
    simp only [Option.bind_eq_bind, Option.bind_some, Fallible.ofOption_some_bind]
    cases createRecoveryBlob C D code.wrap enrolled.keys.userKey (generateRecoveryCode code.bytes)
        defaultKdfParams with
    | none => rfl
    | some recovery => rfl

theorem enroll_commits {draw : EnrollmentDraw K} {masterPassword inviteToken : String}
    {p : EnrollmentResult K × EnrollRequest} (h : prepareEnroll C D draw code masterPassword = some p) {id : Id}
    {t : Scene K} (ht : (request wire fun _ => handleEnroll inviteToken p.2).run s = (.ok id, t)) :
    inForce D t.db (generateRecoveryCode code.bytes) = true := by
  obtain ⟨s₀, now, sd, -, hr, -⟩ := request_triple (I := fun _ => True) (fun _ _ _ _ => trivial)
    (fun _ _ _ => trivial) s trivial id t ht
  simp only [prepareEnroll, Option.bind_eq_bind, Option.bind_eq_some_iff, Option.pure_def, Option.some.injEq] at h
  obtain ⟨enrolled, -, recovery, hb, rfl⟩ := h
  rcases handleEnroll_cases inviteToken (enrollRequest D enrolled recovery) now sd s₀.db with
    ⟨r, h⟩ | ⟨_, _, u, -, -, -, h⟩
  · rw [h] at hr
    cases hr
  · rw [h, Prod.mk.injEq] at hr
    rw [← hr.2]
    exact inForce_upsert rfl (accepts_blob sd.recoverySalt hb rfl rfl rfl)

theorem afterEnroll_gives (p : EnrollmentResult K) (input : EnrolInput) (t : Scene K) :
    ∃ o, ((afterEnroll D loginWire true code input p).run t).1 = .ok o ∧
      o.recoveryCode = generateRecoveryCode code.bytes := by
  have hrun : (afterEnroll D loginWire true code input p).run t = (((login loginWire input.email
      (D.toBase64 p.authHash) input.deviceLabel).attempt >>= fun answer => match answer with
        | .ok login => do
          openSession ⟨login.accessToken, login.refreshToken⟩ p.keys
          return ⟨generateRecoveryCode code.bytes, true⟩
        | .error _ => return ⟨generateRecoveryCode code.bytes, false⟩ : Call K EnrolmentOutcome)).run t := rfl
  rw [hrun, Fallible.run_bind, Fallible.run_attempt]
  cases ((login loginWire input.email (D.toBase64 p.authHash) input.deviceLabel).run t).1 with
  | ok a => exact ⟨_, rfl, rfl⟩
  | error e => exact ⟨_, rfl, rfl⟩

theorem enroll_kept_iff {stored : Bool} {draw : EnrollmentDraw K} {input : EnrolInput}
    (hf : inForce D s.db (generateRecoveryCode code.bytes) = false) :
    Kept D (enroll C D wire loginWire stored draw code input) EnrolmentOutcome.recoveryCode
        (generateRecoveryCode code.bytes) s ↔
      ∀ p, prepareEnroll C D draw code input.masterPassword = some p →
        (outcome (request wire fun _ => handleEnroll input.inviteToken p.2) s).heard = true ∧
        (outcome (request wire fun _ => handleEnroll input.inviteToken p.2) s = .success → stored = true) := by
  rw [enroll_eq, kept_bind (ofOption_users _ _) hf]
  have hpost : ∀ p, prepareEnroll C D draw code input.masterPassword = some p →
      (Kept D (request wire (fun _ => handleEnroll input.inviteToken p.2) >>= fun _ =>
        afterEnroll D loginWire stored code input p.1) EnrolmentOutcome.recoveryCode
        (generateRecoveryCode code.bytes) s ↔
      (outcome (request wire fun _ => handleEnroll input.inviteToken p.2) s).heard = true ∧
      (outcome (request wire fun _ => handleEnroll input.inviteToken p.2) s = .success → stored = true)) := by
    intro p hp
    cases stored with
    | true =>
      rw [kept_request (enroll_issues hp _) hf fun _ t => afterEnroll_gives p.1 input t]
      simp
    | false =>
      have hthrow : ∀ (_ : Id) (t : Scene K), ∃ e,
          (afterEnroll D loginWire false code input p.1).run t = (.error e, t) := fun _ _ => ⟨.storage, rfl⟩
      rw [kept_thrown (enroll_issues hp _) hf (fun _ _ ht => enroll_commits hp ht) hthrow]
      simp
  constructor
  · intro h p hp
    exact (hpost p hp).mp (h p s (Fallible.run_ofOption_ok.mpr ⟨hp, rfl⟩))
  · intro h p t ht
    obtain ⟨hp, rfl⟩ := Fallible.run_ofOption_ok.mp ht
    exact (hpost p hp).mpr (h p hp)

theorem prepareRegenerate_users (draw : CodeDraw K) (input : RegenerateInput) :
    ((prepareRegenerate C D decoys preloginWire draw input).run s).2.db.users = s.db.users := by
  have hread : Fallible.Keeps (fun t : Scene K => t.db.users = s.db.users)
      (prelogin decoys preloginWire input.email) := by
    intro t ht
    exact request_keeps (fun _ _ _ h => h) (fun t' hop h => (onUnauthorized_users hop t').trans h) ht
  have hprepare : Fallible.Keeps (fun t : Scene K => t.db.users = s.db.users)
      (prepareRegenerate C D decoys preloginWire draw input) := by
    refine Fallible.Keeps.bind ?_ fun current => ?_
    · refine Fallible.Keeps.bind hread fun found => ?_
      refine Fallible.Keeps.bind (.ofOption _ _) fun params => ?_
      refine Fallible.Keeps.bind (.ofOption _ _) fun kdfSalt => ?_
      exact Fallible.Keeps.bind (.ofOption _ _) fun masterKey => .pure _
    · refine Fallible.Keeps.bind (Fallible.Keeps.bind (.gets _) fun keys => .ofOption _ _) fun keys => ?_
      exact Fallible.Keeps.bind (.ofOption _ _) fun blob => .pure _
  exact hprepare s rfl

theorem prepareRegenerate_blob {draw : CodeDraw K} {input : RegenerateInput} {req : RotateRecoveryRequest}
    {t : Scene K} (h : (prepareRegenerate C D decoys preloginWire draw input).run s = (.ok req, t)) :
    ∃ current userKey blob, req = rotateRecoveryRequest D current blob ∧
      createRecoveryBlob C D draw.wrap userKey (generateRecoveryCode draw.bytes) defaultKdfParams = some blob := by
  simp only [prepareRegenerate, Fallible.run_bind_ok, Fallible.run_ofOption_ok] at h
  obtain ⟨current, _, -, keys, _, -, blob, _, ⟨hb, -⟩, h⟩ := h
  cases h
  exact ⟨current, keys.userKey, blob, rfl, hb⟩

theorem regenerate_eq (draw : CodeDraw K) (input : RegenerateInput) :
    regenerateRecoveryCode C D decoys preloginWire wire draw input =
      prepareRegenerate C D decoys preloginWire draw input >>= fun req =>
        request wire (handleRotateRecovery req) >>= fun _ => pure (generateRecoveryCode draw.bytes) := by
  unfold regenerateRecoveryCode prepareRegenerate
  simp only [Fallible.bind_assoc]
  rfl

theorem regenerate_kept_iff {input : RegenerateInput}
    (hf : inForce D s.db (generateRecoveryCode code.bytes) = false) :
    Kept D (regenerateRecoveryCode C D decoys preloginWire wire code input) id (generateRecoveryCode code.bytes) s ↔
      ∀ req t, (prepareRegenerate C D decoys preloginWire code input).run s = (.ok req, t) →
        (outcome (request wire (handleRotateRecovery req)) t).heard = true := by
  have husers : ((prepareRegenerate C D decoys preloginWire code input).run s).2.db.users = s.db.users :=
    prepareRegenerate_users code input
  rw [regenerate_eq, kept_bind husers hf]
  have hreq : ∀ req t, (prepareRegenerate C D decoys preloginWire code input).run s = (.ok req, t) →
      (Kept D (request wire (handleRotateRecovery req) >>= fun _ => pure (generateRecoveryCode code.bytes)) id
        (generateRecoveryCode code.bytes) t ↔
          (outcome (request wire (handleRotateRecovery req)) t).heard = true) := by
    intro req t ht
    obtain ⟨current, userKey, blob, rfl, hb⟩ := prepareRegenerate_blob ht
    rw [ht] at husers
    exact kept_request (rotateRecovery_issues hb current) ((inForce_congr husers _).trans hf) fun _ _ =>
      ⟨_, rfl, rfl⟩
  constructor
  · intro h req t ht
    exact (hreq req t ht).mp (h req t ht)
  · intro h req t ht
    exact (hreq req t ht).mpr (h req t ht)

theorem complete_eq (draw : WrapDraw K) (session : RecoverySession K) (newMasterPassword : String) :
    completeRecovery C D wire draw code session newMasterPassword =
      Fallible.ofOption .crypto (prepareComplete C D draw code session newMasterPassword) >>= fun req =>
        (request wire fun _ => handleRecoverComplete req).attempt >>= afterComplete code := by
  unfold completeRecovery prepareComplete
  cases rotateMasterPassword C D draw newMasterPassword session.keys.userKey defaultKdfParams with
  | none => rfl
  | some rotation =>
    simp only [Option.bind_eq_bind, Option.bind_some, Fallible.ofOption_some_bind]
    cases createRecoveryBlob C D code.wrap session.keys.userKey (generateRecoveryCode code.bytes)
      defaultKdfParams with
    | none => rfl
    | some blob => rfl

theorem complete_kept_iff {draw : WrapDraw K} {session : RecoverySession K} {newMasterPassword : String}
    (hf : inForce D s.db (generateRecoveryCode code.bytes) = false) :
    Kept D (completeRecovery C D wire draw code session newMasterPassword) RecoveryOutcome.recoveryCode
        (generateRecoveryCode code.bytes) s ↔
      ∀ req, prepareComplete C D draw code session newMasterPassword = some req →
        (outcome (request wire fun _ => handleRecoverComplete req) s).undenied = true := by
  have hgive : ∀ answer (t : Scene K), (∀ e, answer = .error e → e.refuses = false) →
      ∃ o, ((afterComplete code answer).run t).1 = .ok o ∧ o.recoveryCode = generateRecoveryCode code.bytes := by
    intro answer t h
    cases answer with
    | ok u => exact ⟨_, rfl, rfl⟩
    | error e =>
      simp only [afterComplete, h e rfl]
      exact ⟨_, rfl, rfl⟩
  have hrefuse : ∀ e (t : Scene K), e.refuses = true → (afterComplete code (.error e)).run t = (.error e, t) := by
    intro e t he
    simp only [afterComplete, he]
    rfl
  rw [complete_eq, kept_bind (ofOption_users _ _) hf]
  constructor
  · intro h req hp
    exact (kept_attempt (complete_issues hp) hf hgive hrefuse).mp (h req s (Fallible.run_ofOption_ok.mpr ⟨hp, rfl⟩))
  · intro h req t ht
    obtain ⟨hp, rfl⟩ := Fallible.run_ofOption_ok.mp ht
    exact (kept_attempt (complete_issues hp) hf hgive hrefuse).mpr (h req hp)

/-- A freshly drawn code is kept exactly if the committing request is heard, and for an enrollment that succeeds the
browser stores the address; a recovery, which keeps the code on every doubtful answer, loses it only to a refusal
after the commit. -/
theorem code_kept_iff (hf : inForce D s.db (generateRecoveryCode code.bytes) = false) :
    (∀ loginWire stored draw input,
      Kept D (enroll C D wire loginWire stored draw code input) EnrolmentOutcome.recoveryCode
          (generateRecoveryCode code.bytes) s ↔
        ∀ p, prepareEnroll C D draw code input.masterPassword = some p →
          (outcome (request wire fun _ => handleEnroll input.inviteToken p.2) s).heard = true ∧
          (outcome (request wire fun _ => handleEnroll input.inviteToken p.2) s = .success → stored = true)) ∧
    (∀ input,
      Kept D (regenerateRecoveryCode C D decoys preloginWire wire code input) id
          (generateRecoveryCode code.bytes) s ↔
        ∀ req t, (prepareRegenerate C D decoys preloginWire code input).run s = (.ok req, t) →
          (outcome (request wire (handleRotateRecovery req)) t).heard = true) ∧
    ∀ draw session newMasterPassword,
      Kept D (completeRecovery C D wire draw code session newMasterPassword) RecoveryOutcome.recoveryCode
          (generateRecoveryCode code.bytes) s ↔
        ∀ req, prepareComplete C D draw code session newMasterPassword = some req →
          (outcome (request wire fun _ => handleRecoverComplete req) s).undenied = true :=
  ⟨fun _ _ _ _ => enroll_kept_iff hf, fun _ => regenerate_kept_iff hf, fun _ _ _ => complete_kept_iff hf⟩

end

/-! Ann asks for a new code; the server commits it, and its answer is lost. -/

def lost : Wire :=
  let hop : Hop := ⟨.lost, 0, ⟨⟨"audit-2", "", ""⟩, "server-salt", "server-salt"⟩⟩
  ⟨hop, hop, hop⟩

def annRegenerate : Call (List Char) String :=
  regenerateRecoveryCode symbolic symbolicKdf World.annDecoys (World.delivered "" "" "") lost (World.codeOf 1)
    ⟨"ann@home", "one"⟩

theorem annEnrolled_fresh :
    inForce symbolicKdf World.annEnrolled.db (generateRecoveryCode (World.codeOf 1).bytes) = false := by
  decide +kernel

theorem code_kept_ann :
    Kept symbolicKdf annRegenerate id (generateRecoveryCode (World.codeOf 1).bytes) World.annEnrolled ↔
      ∀ req t, (prepareRegenerate symbolic symbolicKdf World.annDecoys (World.delivered "" "" "") (World.codeOf 1)
          ⟨"ann@home", "one"⟩).run World.annEnrolled = (.ok req, t) →
        (outcome (request lost (handleRotateRecovery req)) t).heard = true := by
  obtain ⟨-, hregenerate, -⟩ := code_kept_iff annEnrolled_fresh
  exact hregenerate ⟨"ann@home", "one"⟩

theorem code_lost :
    ¬ ∀ (preloginWire wire : Wire) (code : CodeDraw (List Char)) (input : RegenerateInput) (s : Scene (List Char)),
      inForce symbolicKdf s.db (generateRecoveryCode code.bytes) = false →
      Kept symbolicKdf (regenerateRecoveryCode symbolic symbolicKdf World.annDecoys preloginWire wire code input) id
        (generateRecoveryCode code.bytes) s := by
  intro h
  have hforce : inForce symbolicKdf (annRegenerate.run World.annEnrolled).2.db
      (generateRecoveryCode (World.codeOf 1).bytes) = true := by
    decide +kernel
  have hlost : (annRegenerate.run World.annEnrolled).1 = .error .network := by
    decide +kernel
  have hkept : Kept symbolicKdf annRegenerate id (generateRecoveryCode (World.codeOf 1).bytes) World.annEnrolled :=
    h (World.delivered "" "" "") lost (World.codeOf 1) ⟨"ann@home", "one"⟩ World.annEnrolled annEnrolled_fresh
  obtain ⟨a, ha, -⟩ := hkept hforce
  cases hlost.symm.trans ha

end Keyhole.Client.Codes
