import Keyhole.Http.Throttle
import Keyhole.Http.Usable
import Keyhole.Store.Uniform

/-!
# Asking whether an address has an account

Two servers whose databases agree on every address but one are asked the same
things, and no sign-in among them succeeds. The limiters, the cost of every
request and everything in the answers but salts are the same on both.
-/

namespace Keyhole.Http
open Store Sql

/-! ## What reaches the database is hashed -/

def Rotation.hashed : Rotation → Bool
  | password inp => inp.authHash.isDigest
  | recovery inp => inp.recoveryAuthHash.isDigest

def Request.hashed : Request → Bool
  | enroll _ inp => inp.hashed
  | recoverComplete _ password recovery => password.authHash.isDigest && recovery.recoveryAuthHash.isDigest
  | rotate _ _ rotation => rotation.hashed
  | login .. | refresh _ | recover .. => true

def Task.hashed : Task → Bool
  | completeEnrollment _ inp => inp.hashed
  | completeRecovery _ password recovery => password.authHash.isDigest && recovery.recoveryAuthHash.isDigest
  | loadUser _ _ rotation | verifyCurrent _ _ _ rotation | rotate _ _ rotation => rotation.hashed
  | verifyLogin .. | createSession .. | rotateSession .. | verifyRecovery .. | createRecoveryToken _ => true

/-- The handlers put every secret they are given through `HashAuthHash`. -/
def Hashed (_ : State) : Event → Prop
  | .receive _ _ req => req.hashed = true
  | _ => True

instance (s : State) : (e : Event) → Decidable (Hashed s e)
  | .receive .. => inferInstanceAs (Decidable (_ = _))
  | .advance _ | .commit .. | .drop _ | .command _ => inferInstanceAs (Decidable True)

theorem read_hashed {req : Request} {now : Time} {db : Db} {t : Task} (h : req.read now db = some t)
    (hr : req.hashed = true) : t.hashed = true := by
  cases read_cases h with
  | login | refresh | recover => rfl
  | recoverComplete | enroll | rotate => exact hr

theorem advance_hashed {t t' : Task} {db : Db} (h : t.advance db = some t') (ht : t.hashed = true) :
    t'.hashed = true := by
  cases advance_cases h with
  | login | recovery => rfl
  | loaded | verified | ready => exact ht

theorem command_hashed {t : Task} {now : Time} {drawn : Drawn} {c : Command} (h : t.command now drawn = some c)
    (ht : t.hashed = true) : c.Hashed := by
  cases t with
  | rotate user session rotation => cases rotation <;> cases h <;> exact ht
  | completeEnrollment invite inp => cases h; exact ht
  | completeRecovery rt password recovery =>
    cases h
    exact Bool.and_eq_true_iff.mp ht
  | createSession | rotateSession | createRecoveryToken => cases h; trivial
  | _ => cases h

theorem direct_hashed {c : Command} (h : direct c = true) : c.Hashed := by
  cases c with
  | completeEnrollment | completeRecovery | rotatePassword | rotateRecovery => cases h
  | _ => trivial

namespace State

variable {s s' : State} {e : Event}

def FlightsHashed (s : State) : Prop := ∀ f ∈ s.flights, f.task.hashed = true

theorem flightsHashed_step (h : Lts.Guarded step Hashed s e s') (hf : s.FlightsHashed) : s'.FlightsHashed := by
  obtain ⟨hstep, hhash⟩ := h
  intro f hmem
  rcases mem_flights hstep hmem with hmem | ⟨ticket, now, req, task, rfl, hread, rfl⟩
    | ⟨f₀, h₀, task, hadv, -, -, rfl⟩
  · exact hf f hmem
  · exact read_hashed hread hhash
  · exact advance_hashed hadv (hf f₀ h₀)

theorem performs_hashed (h : step s e s') (hf : s.FlightsHashed) {c : Command} (hp : s.performs e = some c) :
    c.Hashed := by
  by_cases hc : direct c = true
  · exact direct_hashed hc
  · obtain ⟨ticket, now, drawn, f, rfl, hg, ht⟩ := performs_flight h hp (Bool.not_eq_true _ ▸ hc)
    exact command_hashed ht (hf f (Table.get?_eq_some.mp hg).1)

theorem uniform_step (h : step s e s') (hv : s.FlightsValidated) (hf : s.FlightsHashed) (hu : s.db.Uniform) :
    s'.db.Uniform := by
  rcases step_cases h with ⟨-, hs, -⟩ | ⟨c, hp, -, hs, -⟩
  · rw [db, hs]
    exact hu
  · rw [db, hs]
    exact (account_effect c s.db).uniform (performs_validated h hv hp) (performs_hashed h hf hp) hu

theorem reachable_uniform {es : List Event} (h : Lts.Run (Lts.Guarded step Hashed) fresh es s) : s.db.Uniform := by
  have hinv : s.FlightsValidated ∧ s.FlightsHashed ∧ s.db.Uniform := by
    refine h.inv (P := fun s => s.FlightsValidated ∧ s.FlightsHashed ∧ s.db.Uniform) ?_ ⟨?_, ?_, ?_⟩
    · intro s e s' hs ⟨hv, hf, hu⟩
      exact ⟨flightsValidated_step hs.1 hv, flightsHashed_step hs hf, uniform_step hs.1 hv hf hu⟩
    · intro f hf
      cases hf
    · intro f hf
      cases hf
    · intro u hu
      cases hu
  exact hinv.2.2

end State

/-! ## Answers from uniform rows -/

theorem userByEmail_mem {email : String} {db : Db} {user : User} (h : userByEmail email db = .ok user) :
    user ∈ db.users := by
  unfold userByEmail at h
  split at h
  · rename_i found hf
    cases h
    exact Table.mem_of_find? hf
  · cases h

theorem prelogin_params {db : Db} (hu : db.Uniform) (decoys : Decoys) (email : String) :
    (handlePrelogin decoys email db).params = defaultKDFParamsJSON := by
  unfold handlePrelogin
  cases h : userByEmail email db with
  | error e => rfl
  | ok user =>
    simp only
    split
    · rename_i hp
      exact (hu user (userByEmail_mem h)).kdfParams _ hp
    · rfl

theorem recoverPrelogin_params {db : Db} (hu : db.Uniform) (decoys : Decoys) (email : String) :
    (handleRecoverPrelogin decoys email db).recoveryKdfParams = defaultKDFParamsJSON := by
  unfold handleRecoverPrelogin
  cases h : userByEmail email db with
  | error e => rfl
  | ok user =>
    simp only
    split
    · rename_i hp
      exact (hu user (userByEmail_mem h)).recoveryKDFParams _ hp
    · rfl

theorem argon2Calls_digest {hash : AuthHash} (h : hash.isDigest = true) : hash.argon2Calls = 1 := by
  cases hash with
  | argon2id salt digest => rfl
  | malformed text => cases h

theorem storedHash_calls {db : Db} {column : User → Option AuthHash}
    (hc : ∀ u ∈ db.users, ∀ hash ∈ column u, hash.isDigest = true) (email : String) :
    (Front.storedHash (userByEmail email db).toOption column).argon2Calls = 1 := by
  unfold Front.storedHash
  cases h : userByEmail email db with
  | error e => rfl
  | ok user =>
    simp only [Except.toOption, Option.bind_some]
    cases hcol : column user with
    | none => rfl
    | some hash => exact argon2Calls_digest (hc user (userByEmail_mem h) hash hcol)

/-! ## Two fronts, one conversation -/

/-- What happens to a front: a request, or the periodic sweep of its two limiters. -/
inductive Turn
  | visit (v : Visit)
  | sweep (now now' : Time)

/-- The same to anyone who compares the two, salts apart. -/
structure Answer.Alike (x y : Answer) : Prop where
  status : x.body.status = y.body.status
  fields : x.body.fields = y.body.fields
  params : x.body.params = y.body.params
  refusal : ∀ response, x.body = .error response ↔ y.body = .error response
  retryAfter : x.retryAfter = y.retryAfter
  argon2Calls : x.argon2Calls = y.argon2Calls

theorem Answer.Alike.refl (x : Answer) : x.Alike x := ⟨rfl, rfl, rfl, fun _ => Iff.rfl, rfl, rfl⟩

section
variable (decoys : Decoys) (toLower : Char → Char)

namespace Front

def address (v : Visit) : String := normalizeEmail toLower v.ask.email

/-- The limit lets the request through and its credential is the right one. -/
def admits (f : Front) (v : Visit) : Bool :=
  let found := (userByEmail (address toLower v) f.db).toOption
  match v.ask with
  | .prelogin _ | .recoverPrelogin _ => false
  | .login _ authHash _ _ =>
    (f.limiter.allow (ipKey v.ip) (v.clock 0)).1 && accepted found User.authHash authHash
  | .recover _ recoveryAuthHash _ =>
    (f.limiter.allow (ipKey v.ip) (v.clock 0)).1 && accepted found User.recoveryAuthHash recoveryAuthHash

def turn (f : Front) : Turn → Option Answer × Front
  | .visit v => ((f.handle decoys toLower v).1, (f.handle decoys toLower v).2)
  | .sweep now now' => (none, { f with
      limiter := f.limiter.sweep (3600 * second) now
      preloginLimiter := f.preloginLimiter.sweep (3600 * second) now' })

def Refuses (f : Front) : Turn → Prop
  | .visit v => f.admits toLower v = false
  | .sweep .. => True

instance (f : Front) : (t : Turn) → Decidable (f.Refuses toLower t)
  | .visit _ => inferInstanceAs (Decidable (_ = _))
  | .sweep .. => inferInstanceAs (Decidable True)

/-- Two fronts that differ only in what they hold about one address. -/
structure Twins (a : String) (f f' : Front) : Prop where
  limiter : f.limiter = f'.limiter
  preloginLimiter : f.preloginLimiter = f'.preloginLimiter
  uniform : f.db.Uniform
  uniform' : f'.db.Uniform
  others : ∀ email, email ≠ a → userByEmail email f.db = userByEmail email f'.db

variable {f f' : Front} {a : String}

theorem preloginWith_twins (h : Twins a f f') (ip : String) (clock : Nat → Time) {answer answer' : Db → Body}
    {M : Answer → Answer → Prop} (hrefl : ∀ x, M x x)
    (hm : M ⟨answer f.db, none, 0⟩ ⟨answer' f'.db, none, 0⟩) :
    M (f.preloginWith ip clock answer).1 (f'.preloginWith ip clock answer').1 ∧
      Twins a (f.preloginWith ip clock answer).2 (f'.preloginWith ip clock answer').2 := by
  unfold preloginWith
  rw [← h.preloginLimiter]
  rcases f.preloginLimiter.allow (preloginKey ip) (clock 0) with ⟨allowed, retryAfter⟩
  cases allowed with
  | true => exact ⟨hm, h.limiter, rfl, h.uniform, h.uniform', h.others⟩
  | false => exact ⟨hrefl _, h⟩

theorem credentialWith_refused {ip : String} {clock : Nat → Time} {email : String} {column : User → Option AuthHash}
    {presented : String} {refusal : Response} {grant : Time → Db → Reply Body}
    (hc : ∀ u ∈ f.db.users, ∀ hash ∈ column u, hash.isDigest = true)
    (hr : ((f.limiter.allow (ipKey ip) (clock 0)).1 &&
      accepted (userByEmail email f.db).toOption column presented) = false) :
    f.credentialWith ip clock email column presented refusal grant =
      if (f.limiter.allow (ipKey ip) (clock 0)).1 then
        (if (f.limiter.allow (accountKey email) (clock 1)).1 then ⟨.error refusal, none, 1⟩
          else tooManyAttempts (f.limiter.allow (accountKey email) (clock 1)).2 1,
        { f with
          limiter := (f.limiter.recordFailure (ipKey ip) (clock 2)).recordFailure (accountKey email) (clock 3) })
      else (tooManyAttempts (f.limiter.allow (ipKey ip) (clock 0)).2 0, f) := by
  unfold credentialWith
  by_cases ha : (f.limiter.allow (ipKey ip) (clock 0)).1 = true
  · rw [ha, Bool.true_and] at hr
    simp only [ha, hr, storedHash_calls hc, if_true, Bool.false_eq_true, if_false]
    by_cases hk : (f.limiter.allow (accountKey email) (clock 1)).1 = true
    · simp only [hk, if_true]
    · simp only [hk, Bool.false_eq_true, if_false]
  · simp only [ha, Bool.false_eq_true, if_false]

theorem credentialWith_twins (h : Twins a f f') {ip : String} {clock : Nat → Time} {email : String}
    {column : User → Option AuthHash} {presented : String} {refusal : Response} {grant : Time → Db → Reply Body}
    (hc : ∀ u, u.Uniform → ∀ hash ∈ column u, hash.isDigest = true)
    (hr : ((f.limiter.allow (ipKey ip) (clock 0)).1 &&
      accepted (userByEmail email f.db).toOption column presented) = false)
    (hr' : ((f'.limiter.allow (ipKey ip) (clock 0)).1 &&
      accepted (userByEmail email f'.db).toOption column presented) = false) :
    (f.credentialWith ip clock email column presented refusal grant).1 =
        (f'.credentialWith ip clock email column presented refusal grant).1 ∧
      Twins a (f.credentialWith ip clock email column presented refusal grant).2
        (f'.credentialWith ip clock email column presented refusal grant).2 := by
  rw [credentialWith_refused (fun u hu => hc u (h.uniform u hu)) hr,
    credentialWith_refused (fun u hu => hc u (h.uniform' u hu)) hr', ← h.limiter]
  by_cases ha : (f.limiter.allow (ipKey ip) (clock 0)).1 = true
  · simp only [ha, if_true]
    exact ⟨trivial, rfl, h.preloginLimiter, h.uniform, h.uniform', h.others⟩
  · simp only [ha, Bool.false_eq_true, if_false]
    exact ⟨trivial, h⟩

/-- Alike, and the same altogether where the two databases agree on the address. -/
def Matches (a email : String) (x y : Answer) : Prop := x.Alike y ∧ (email ≠ a → x = y)

theorem Matches.of_eq {a email : String} {x y : Answer} (h : x = y) : Matches a email x y :=
  ⟨h ▸ .refl x, fun _ => h⟩

theorem handlePrelogin_congr {email : String} {db db' : Db} (h : userByEmail email db = userByEmail email db') :
    handlePrelogin decoys email db = handlePrelogin decoys email db' := by
  unfold handlePrelogin
  rw [h]

theorem handleRecoverPrelogin_congr {email : String} {db db' : Db}
    (h : userByEmail email db = userByEmail email db') :
    handleRecoverPrelogin decoys email db = handleRecoverPrelogin decoys email db' := by
  unfold handleRecoverPrelogin
  rw [h]

theorem handle_twins (h : Twins a f f') {v : Visit} (hr : f.admits toLower v = false)
    (hr' : f'.admits toLower v = false) :
    Matches a (address toLower v) (f.handle decoys toLower v).1 (f'.handle decoys toLower v).1 ∧
      Twins a (f.handle decoys toLower v).2 (f'.handle decoys toLower v).2 := by
  obtain ⟨ip, clock, ask⟩ := v
  cases ask with
  | prelogin email =>
    refine preloginWith_twins h ip clock (fun x => .of_eq rfl) ⟨⟨rfl, rfl, ?_, ?_, rfl, rfl⟩, ?_⟩
    · simp only [Body.params, prelogin_params h.uniform, prelogin_params h.uniform']
    · simp
    · intro hne
      exact congrArg (Answer.mk · none 0) <| congrArg Body.prelogin (handlePrelogin_congr decoys (h.others _ hne))
  | recoverPrelogin email =>
    refine preloginWith_twins h ip clock (fun x => .of_eq rfl) ⟨⟨rfl, rfl, ?_, ?_, rfl, rfl⟩, ?_⟩
    · simp only [Body.params, recoverPrelogin_params h.uniform, recoverPrelogin_params h.uniform']
    · simp
    · intro hne
      exact congrArg (Answer.mk · none 0) <|
        congrArg Body.recoverPrelogin (handleRecoverPrelogin_congr decoys (h.others _ hne))
  | login email authHash deviceLabel draw =>
    obtain ⟨heq, ht⟩ := credentialWith_twins h (fun u hu => hu.authHash) hr hr'
    exact ⟨.of_eq heq, ht⟩
  | recover email recoveryAuthHash draw =>
    obtain ⟨heq, ht⟩ := credentialWith_twins h (fun u hu => hu.recoveryAuthHash) hr hr'
    exact ⟨.of_eq heq, ht⟩

theorem turn_twins {t : Turn} (h : Twins a f f') (hr : f.Refuses toLower t) (hr' : f'.Refuses toLower t) :
    (∀ v, t = .visit v → ∃ x y, (f.turn decoys toLower t).1 = some x ∧ (f'.turn decoys toLower t).1 = some y ∧
        Matches a (address toLower v) x y) ∧
      Twins a (f.turn decoys toLower t).2 (f'.turn decoys toLower t).2 := by
  cases t with
  | visit v =>
    obtain ⟨hm, ht⟩ := handle_twins decoys toLower h hr hr'
    refine ⟨?_, ht⟩
    intro w hw
    cases hw
    exact ⟨_, _, rfl, rfl, hm⟩
  | sweep now now' =>
    refine ⟨fun v hv => (by cases hv), ?_, ?_, h.uniform, h.uniform', h.others⟩
    · simp only [turn, h.limiter]
    · simp only [turn, h.preloginLimiter]

/-! ## One front, asked again -/

theorem preloginWith_cases (f : Front) (ip : String) (clock : Nat → Time) (answer : Db → Body) :
    (f.preloginWith ip clock answer).2.db = f.db ∧
      ((f.preloginWith ip clock answer).1.body = answer f.db ∨
        ∃ response, (f.preloginWith ip clock answer).1.body = .error response) := by
  unfold preloginWith
  rcases f.preloginLimiter.allow (preloginKey ip) (clock 0) with ⟨allowed, retryAfter⟩
  cases allowed with
  | true => exact ⟨rfl, Or.inl rfl⟩
  | false => exact ⟨rfl, Or.inr ⟨_, rfl⟩⟩

theorem credentialWith_error {ip : String} {clock : Nat → Time} {email : String} {column : User → Option AuthHash}
    {presented : String} {refusal : Response} {grant : Time → Db → Reply Body}
    (hc : ∀ u ∈ f.db.users, ∀ hash ∈ column u, hash.isDigest = true)
    (hr : ((f.limiter.allow (ipKey ip) (clock 0)).1 &&
      accepted (userByEmail email f.db).toOption column presented) = false) :
    (f.credentialWith ip clock email column presented refusal grant).2.db = f.db ∧
      ∃ response, (f.credentialWith ip clock email column presented refusal grant).1.body = .error response := by
  rw [credentialWith_refused hc hr]
  split
  · refine ⟨rfl, ?_⟩
    simp only
    split
    · exact ⟨_, rfl⟩
    · exact ⟨_, rfl⟩
  · exact ⟨rfl, _, rfl⟩

/-- The salts an answer carries are functions of the database and the address. -/
def Told (db : Db) (v : Visit) (x : Answer) : Prop :=
  (∀ r, x.body = .prelogin r → r = handlePrelogin decoys (address toLower v) db) ∧
    ∀ r, x.body = .recoverPrelogin r → r = handleRecoverPrelogin decoys (address toLower v) db

theorem handle_told (hu : f.db.Uniform) {v : Visit} (hr : f.admits toLower v = false) :
    Told decoys toLower f.db v (f.handle decoys toLower v).1 ∧ (f.handle decoys toLower v).2.db = f.db := by
  obtain ⟨ip, clock, ask⟩ := v
  have hsilent : ∀ {w : Visit} {x : Answer}, (∃ response, x.body = .error response) →
    Told decoys toLower f.db w x := by
    rintro w x ⟨response, hx⟩
    refine ⟨fun r h => ?_, fun r h => ?_⟩ <;> rw [hx] at h <;> cases h
  cases ask with
  | prelogin email =>
    obtain ⟨hdb, hb | he⟩ := preloginWith_cases f ip clock fun db =>
      .prelogin (handlePrelogin decoys (normalizeEmail toLower email) db)
    · refine ⟨⟨fun r h => ?_, fun r h => ?_⟩, hdb⟩ <;> cases hb.symm.trans h
      rfl
    · exact ⟨hsilent he, hdb⟩
  | recoverPrelogin email =>
    obtain ⟨hdb, hb | he⟩ := preloginWith_cases f ip clock fun db =>
      .recoverPrelogin (handleRecoverPrelogin decoys (normalizeEmail toLower email) db)
    · refine ⟨⟨fun r h => ?_, fun r h => ?_⟩, hdb⟩ <;> cases hb.symm.trans h
      rfl
    · exact ⟨hsilent he, hdb⟩
  | login email authHash deviceLabel draw =>
    obtain ⟨hdb, he⟩ := credentialWith_error (fun u hm => (hu u hm).authHash) hr
    exact ⟨hsilent he, hdb⟩
  | recover email recoveryAuthHash draw =>
    obtain ⟨hdb, he⟩ := credentialWith_error (fun u hm => (hu u hm).recoveryAuthHash) hr
    exact ⟨hsilent he, hdb⟩

theorem turn_told (hu : f.db.Uniform) {t : Turn} (hr : f.Refuses toLower t) :
    (∀ v, t = .visit v → ∀ x, (f.turn decoys toLower t).1 = some x → Told decoys toLower f.db v x) ∧
      (f.turn decoys toLower t).2.db = f.db := by
  cases t with
  | visit v =>
    obtain ⟨ht, hdb⟩ := handle_told decoys toLower hu hr
    refine ⟨?_, hdb⟩
    intro w hw x hx
    cases hw
    cases hx
    exact ht
  | sweep now now' => exact ⟨fun v hv => (by cases hv), rfl⟩

end Front

/-! ## No enumeration -/

abbrev Transcript : Type := List (Mealy.Exchange Front Turn (Option Answer))

def Front.transcript (f : Front) (turns : List Turn) : Transcript :=
  Mealy.trace (Front.turn decoys toLower) f turns

/-- Asked the same, answered so that only `a` could tell them apart, by a salt; the limiters agree throughout. -/
def Transcript.Matches (a : String) (tr tr' : Transcript) : Prop :=
  List.Forall₂ (fun p p' => p.input = p'.input ∧
    (∀ v, p.input = .visit v → ∃ x y, p.output = some x ∧ p'.output = some y ∧
      Front.Matches a (Front.address toLower v) x y) ∧
    p.after.limiter = p'.after.limiter ∧ p.after.preloginLimiter = p'.after.preloginLimiter) tr tr'

/-- Every time an address is asked about, the same salt. -/
def Transcript.Steady (tr : Transcript) : Prop :=
  ∀ p ∈ tr, ∀ q ∈ tr, ∀ v w x y, p.input = .visit v → q.input = .visit w → p.output = some x →
    q.output = some y →
    Front.address toLower v = Front.address toLower w →
    (∀ r r', x.body = .prelogin r → y.body = .prelogin r' → r = r') ∧
      ∀ r r', x.body = .recoverPrelogin r → y.body = .recoverPrelogin r' → r = r'

theorem transcript_told {f : Front} (hu : f.db.Uniform) {turns : List Turn}
    (hr : Mealy.Along (Front.Refuses toLower) (Front.turn decoys toLower) f turns) :
    ∀ p ∈ f.transcript decoys toLower turns,
      (∀ v, p.input = .visit v → ∀ x, p.output = some x → Front.Told decoys toLower f.db v x) ∧
        p.after.db = f.db := by
  refine Mealy.trace_all (P := fun f' => f'.db = f.db)
    (Q := fun t o => ∀ v, t = .visit v → ∀ x, o = some x → Front.Told decoys toLower f.db v x) ?_ rfl hr
  intro f' t hf hr
  rw [← hf]
  exact Front.turn_told decoys toLower (hf ▸ hu) hr

theorem transcript_steady {f : Front} (hu : f.db.Uniform) {turns : List Turn}
    (hr : Mealy.Along (Front.Refuses toLower) (Front.turn decoys toLower) f turns) :
    (f.transcript decoys toLower turns).Steady toLower := by
  intro p hp q hq v w x y hv hw hx hy hvw
  have hpx := (transcript_told decoys toLower hu hr p hp).1 v hv x hx
  have hqy := (transcript_told decoys toLower hu hr q hq).1 w hw y hy
  refine ⟨fun r r' h h' => ?_, fun r r' h h' => ?_⟩
  · rw [hpx.1 r h, hqy.1 r' h', hvw]
  · rw [hpx.2 r h, hqy.2 r' h', hvw]

/-- Nobody who has no credential learns whether `a` has an account. -/
theorem no_enumeration {s s' : State} {es es' : List Event}
    (hs : Lts.Run (Lts.Guarded State.step Hashed) State.fresh es s)
    (hs' : Lts.Run (Lts.Guarded State.step Hashed) State.fresh es' s') {a : String}
    (hothers : ∀ email, email ≠ a → userByEmail email s.db = userByEmail email s'.db)
    (limiter preloginLimiter : Limiter) (turns : List Turn)
    (hr : Mealy.Along (Front.Refuses toLower) (Front.turn decoys toLower) ⟨s.db, limiter, preloginLimiter⟩ turns)
    (hr' : Mealy.Along (Front.Refuses toLower) (Front.turn decoys toLower)
      ⟨s'.db, limiter, preloginLimiter⟩ turns) :
    (Front.transcript decoys toLower ⟨s.db, limiter, preloginLimiter⟩ turns).Matches toLower a
      (Front.transcript decoys toLower ⟨s'.db, limiter, preloginLimiter⟩ turns) ∧
    (Front.transcript decoys toLower ⟨s.db, limiter, preloginLimiter⟩ turns).Steady toLower ∧
    (Front.transcript decoys toLower ⟨s'.db, limiter, preloginLimiter⟩ turns).Steady toLower := by
  have hu := State.reachable_uniform hs
  have hu' := State.reachable_uniform hs'
  have htwins : Front.Twins a ⟨s.db, limiter, preloginLimiter⟩ ⟨s'.db, limiter, preloginLimiter⟩ :=
    ⟨rfl, rfl, hu, hu', hothers⟩
  refine ⟨?_, transcript_steady decoys toLower hu hr, transcript_steady decoys toLower hu' hr'⟩
  have hlock := Mealy.lockstep (R := Front.Twins a) (C := Front.Refuses toLower)
    (A := fun t o o' => ∀ v, t = .visit v → ∃ x y, o = some x ∧ o' = some y ∧
      Front.Matches a (Front.address toLower v) x y)
    (fun f f' t h hr hr' => Front.turn_twins decoys toLower h hr hr') htwins hr hr'
  refine hlock.imp ?_
  intro p p' hp
  exact ⟨hp.1, hp.2.1, hp.2.2.limiter, hp.2.2.preloginLimiter⟩

end

/-! ## With Alice and without -/

theorem others_of_delete {db db' : Db} {a : String}
    (h : (db.users.delete fun u => u.email = a) = db'.users.delete fun u => u.email = a) (email : String)
    (hne : email ≠ a) : userByEmail email db = userByEmail email db' := by
  have hq : ∀ u : User, decide (u.email = email) = true → decide (u.email = a) = false := by
    intro u hu
    rw [decide_eq_true_eq] at hu
    simp [hu, hne]
  unfold userByEmail
  rw [← Table.find?_delete (t := db.users) hq, h, Table.find?_delete hq]

def secondly (ip : String) (t : Nat) (ask : Ask) : Turn := .visit ⟨ip, fun n => t * second + n, ask⟩

def noDraw : Draw := ⟨⟨"", "", ""⟩, "", ""⟩

/-- Alice's address is asked for and tried with wrong secrets until it is
throttled; the administrator's is asked for in between. -/
def askedAbout : List Turn := [
  secondly "10.0.0.1" 100 (.prelogin " Alice@home"), secondly "10.0.0.1" 101 (.recoverPrelogin "alice@home"),
  secondly "10.0.0.1" 102 (.login "alice@home" "guess-1" "laptop" noDraw),
  secondly "10.0.0.2" 103 (.recover "alice@home" "guess-2" noDraw),
  secondly "10.0.0.3" 104 (.login "alice@home" "guess-3" "laptop" noDraw), .sweep 0 0,
  secondly "10.0.0.4" 105 (.login "alice@home" "guess-4" "laptop" noDraw),
  secondly "10.0.0.5" 106 (.recover "alice@home" "guess-5" noDraw),
  secondly "10.0.0.6" 107 (.login "ALICE@home" "guess-6" "laptop" noDraw),
  secondly "10.0.0.1" 108 (.prelogin "admin@home"), secondly "10.0.0.1" 109 (.prelogin "alice@home")]

def labelled : Decoys := ⟨fun email => "decoy-salt:" ++ email, fun email => "decoy-recovery-salt:" ++ email⟩

theorem no_enumeration_alice :
    (Front.transcript labelled Char.toLower (Front.new (State.script (adminEnrolls ++ aliceEnrolls)).db)
      askedAbout).Matches
        Char.toLower "alice@home"
        (Front.transcript labelled Char.toLower (Front.new (State.script adminEnrolls).db) askedAbout) ∧
      (Front.transcript labelled Char.toLower (Front.new (State.script (adminEnrolls ++ aliceEnrolls)).db)
        askedAbout).Steady Char.toLower ∧
      (Front.transcript labelled Char.toLower (Front.new (State.script adminEnrolls).db) askedAbout).Steady
        Char.toLower :=
  no_enumeration labelled Char.toLower (State.run_guarded_script (by decide)) (State.run_guarded_script (by decide))
    (others_of_delete (by decide)) _ _ askedAbout (by decide) (by decide)

end Keyhole.Http
