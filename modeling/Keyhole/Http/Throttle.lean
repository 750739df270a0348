import Mathlib.Algebra.Group.Nat.Defs
import Keyhole.Http.Account
import Keyhole.Lib.Mealy

/-!
# The endpoints anyone may call, behind their rate limits

The limiters are in memory, beside the database. Every call of a limiter
reads the clock for itself, so a request brings its readings in order. Beside
its answer a request is charged the Argon2id computations it caused.
-/

namespace Keyhole

/-- How often `VerifyAuthHash` runs Argon2id against a stored text. -/
def AuthHash.argon2Calls (hash : AuthHash) : Nat :=
  match hash with
  | argon2id .. => 1
  | malformed _ => if hash = dummyAuthHash then 1 else 0

namespace Http
open Store Sql

structure Entry where
  failures : Nat
  lastSeen : Time
  blockedTo : Time
  deriving DecidableEq, Repr

structure Limiter where
  entries : String → Option Entry
  maxFree : Nat
  baseWait : Time
  maxWait : Time

namespace Limiter

def new (maxFree : Nat) (base max : Time) : Limiter := ⟨fun _ => none, maxFree, base, max⟩

def allow (l : Limiter) (key : String) (now : Time) : Bool × Time :=
  match l.entries key with
  | none => (true, 0)
  | some e => if now < e.blockedTo then (false, e.blockedTo - now) else (true, 0)

/-- The source doubles in floating point and clamps whatever the conversion back makes of it. -/
def wait (l : Limiter) (failures : Nat) : Time :=
  let wait := l.baseWait * 2 ^ (failures - l.maxFree)
  if l.maxWait < wait ∨ wait = 0 then l.maxWait else wait

def recordFailure (l : Limiter) (key : String) (now : Time) : Limiter :=
  let e := (l.entries key).getD ⟨0, 0, 0⟩
  let failures := e.failures + 1
  let e := if failures < l.maxFree then ⟨failures, now, e.blockedTo⟩ else ⟨failures, now, now + l.wait failures⟩
  { l with entries := fun k => if k = key then some e else l.entries k }

def reset (l : Limiter) (key : String) : Limiter :=
  { l with entries := fun k => if k = key then none else l.entries k }

def sweep (l : Limiter) (olderThan now : Time) : Limiter :=
  { l with entries := fun k => (l.entries k).filter fun e => now - olderThan ≤ e.lastSeen }

end Limiter

/-! ## Requests and answers -/

inductive Ask
  | prelogin (email : String)
  | recoverPrelogin (email : String)
  | login (email authHash deviceLabel : String) (draw : Draw)
  | recover (email recoveryAuthHash : String) (draw : Draw)

structure Visit where
  ip : String
  clock : Nat → Time
  ask : Ask

def Ask.email : Ask → String
  | prelogin email | recoverPrelogin email | login email _ _ _ | recover email _ _ => email

inductive Body
  | prelogin (response : PreloginResponse)
  | recoverPrelogin (response : RecoverPreloginResponse)
  | login (response : LoginResponse)
  | recover (response : RecoverResponse)
  | error (response : Response)
  deriving DecidableEq, Repr

structure Answer where
  body : Body
  retryAfter : Option Nat
  argon2Calls : Nat
  deriving DecidableEq, Repr

def Response.status : Response → Nat
  | item status _ | items status _ | error status _ _ => status
  | conflict .. => 409

def Body.status : Body → Nat
  | error response => response.status
  | prelogin _ | recoverPrelogin _ | login _ | recover _ => 200

/-- The fields of the JSON object, a nested one's under its path. -/
def Body.fields : Body → List String
  | prelogin _ => ["kdfSalt", "params"]
  | recoverPrelogin _ => ["recoverySalt", "recoveryKdfParams"]
  | login _ => ["accessToken", "refreshToken", "expiresAt", "protectedUserKey", "encryptedPrivateKey", "user.id",
      "user.email", "user.name", "user.role"]
  | recover _ => ["recoveryProtectedUserKey", "encryptedPrivateKey", "recoveryToken", "expiresIn"]
  | error _ => ["error.code", "error.message"]

def Body.params : Body → Option String
  | prelogin response => some response.params
  | recoverPrelogin response => some response.recoveryKdfParams
  | login _ | recover _ | error _ => none

def tooManyAttempts (retryAfter : Time) (argon2Calls : Nat) : Answer where
  body := .error (.error 429 "rate_limited" "too many attempts; please wait before trying again")
  retryAfter := some (max 1 (retryAfter / second))
  argon2Calls := argon2Calls

/-! ## The handlers -/

structure Front where
  db : Db
  limiter : Limiter
  preloginLimiter : Limiter

namespace Front

def new (db : Db) : Front := ⟨db, .new 5 (2 * second) (300 * second), .new 20 second (60 * second)⟩

def preloginKey (ip : String) : String := "prelogin:" ++ ip

def ipKey (ip : String) : String := "ip:" ++ ip

def accountKey (email : String) : String := "account:" ++ email

/-- Both prelogin endpoints record on every call that is let through. -/
def preloginWith (f : Front) (ip : String) (clock : Nat → Time) (answer : Db → Body) : Answer × Front :=
  let (allowed, retryAfter) := f.preloginLimiter.allow (preloginKey ip) (clock 0)
  if allowed then
    (⟨answer f.db, none, 0⟩,
      { f with preloginLimiter := f.preloginLimiter.recordFailure (preloginKey ip) (clock 1) })
  else (tooManyAttempts retryAfter 0, f)

def storedHash (found : Option User) (column : User → Option AuthHash) : AuthHash :=
  (found.bind column).getD dummyAuthHash

def accepted (found : Option User) (column : User → Option AuthHash) (presented : String) : Bool :=
  let ok := verifyAuthHash presented (storedHash found column)
  found.any fun user => ok && user.status = .active

/-- Both endpoints that verify a hash against an address the caller chose. The
address's own verdict is read after the verification, before the failure counts. -/
def credentialWith (f : Front) (ip : String) (clock : Nat → Time) (email : String) (column : User → Option AuthHash)
    (presented : String) (refusal : Response) (grant : Time → Db → Reply Body) : Answer × Front :=
  let (allowed, retryAfter) := f.limiter.allow (ipKey ip) (clock 0)
  if allowed then
    let found := (userByEmail email f.db).toOption
    let calls := (storedHash found column).argon2Calls
    if accepted found column presented then
      match grant (clock 1) f.db with
      | (.error response, db) => (⟨.error response, none, calls⟩, { f with db })
      | (.ok body, db) =>
        (⟨body, none, calls⟩, {
          db
          limiter := (f.limiter.reset (ipKey ip)).reset (accountKey email)
          preloginLimiter := f.preloginLimiter.reset (preloginKey ip) })
    else
      let (allowed, retryAfter) := f.limiter.allow (accountKey email) (clock 1)
      let limiter := (f.limiter.recordFailure (ipKey ip) (clock 2)).recordFailure (accountKey email) (clock 3)
      if allowed then (⟨.error refusal, none, calls⟩, { f with limiter })
      else (tooManyAttempts retryAfter calls, { f with limiter })
  else (tooManyAttempts retryAfter 0, f)

def mapOk {α β : Type} (g : α → β) (r : Reply α) : Reply β := (r.1.map g, r.2)

/-- `toLower` is what `strings.ToLower` does to a rune. `UserByEmail` does all of
this once more, which changes nothing. -/
def normalizeEmail (toLower : Char → Char) (email : String) : String :=
  String.ofList ((Go.trimSpace email).toList.map toLower)

def handle (decoys : Decoys) (toLower : Char → Char) (f : Front) (v : Visit) : Answer × Front :=
  let email := normalizeEmail toLower v.ask.email
  match v.ask with
  | .prelogin _ =>
    f.preloginWith v.ip v.clock fun db => .prelogin (handlePrelogin decoys email db)
  | .recoverPrelogin _ =>
    f.preloginWith v.ip v.clock fun db => .recoverPrelogin (handleRecoverPrelogin decoys email db)
  | .login _ authHash deviceLabel draw =>
    f.credentialWith v.ip v.clock email User.authHash authHash
      (unauthorized "email or master password is incorrect")
      fun now db => mapOk Body.login (handleLogin email authHash deviceLabel now draw db)
  | .recover _ recoveryAuthHash draw =>
    f.credentialWith v.ip v.clock email User.recoveryAuthHash recoveryAuthHash
      (unauthorized "email or recovery code is incorrect")
      fun now db => mapOk Body.recover (handleRecover email recoveryAuthHash now draw db)

/-! ## Without the limits -/

def bodyOf (r : Reply Body) : Body × Db :=
  match r with
  | (.ok body, db) => (body, db)
  | (.error response, db) => (.error response, db)

def unlimited (decoys : Decoys) (toLower : Char → Char) (v : Visit) (db : Db) : Body × Db :=
  let email := normalizeEmail toLower v.ask.email
  match v.ask with
  | .prelogin _ => (.prelogin (handlePrelogin decoys email db), db)
  | .recoverPrelogin _ => (.recoverPrelogin (handleRecoverPrelogin decoys email db), db)
  | .login _ authHash deviceLabel draw =>
    bodyOf (mapOk Body.login (handleLogin email authHash deviceLabel (v.clock 1) draw db))
  | .recover _ recoveryAuthHash draw =>
    bodyOf (mapOk Body.recover (handleRecover email recoveryAuthHash (v.clock 1) draw db))

theorem credentialWith_open {f : Front} {ip : String} {clock : Nat → Time} {email : String}
    {column : User → Option AuthHash} {presented : String} {refusal : Response} {grant : Time → Db → Reply Body}
    (hip : (f.limiter.allow (ipKey ip) (clock 0)).1 = true)
    (haccount : (f.limiter.allow (accountKey email) (clock 1)).1 = true)
    (hg : accepted (userByEmail email f.db).toOption column presented = false →
      grant (clock 1) f.db = (.error refusal, f.db)) :
    ((f.credentialWith ip clock email column presented refusal grant).1.body,
      (f.credentialWith ip clock email column presented refusal grant).2.db) = bodyOf (grant (clock 1) f.db) := by
  unfold credentialWith
  simp only [hip, haccount, if_true]
  by_cases ha : accepted (userByEmail email f.db).toOption column presented = true
  · simp only [ha, if_true]
    rcases grant (clock 1) f.db with ⟨answer, db⟩
    cases answer <;> rfl
  · simp only [ha, hg (Bool.not_eq_true _ ▸ ha), Bool.false_eq_true, if_false, bodyOf]

theorem handleLogin_refused {email authHash deviceLabel : String} {now : Time} {draw : Draw} {db : Db}
    (h : accepted (userByEmail email db).toOption User.authHash authHash = false) :
    handleLogin email authHash deviceLabel now draw db =
      (.error (unauthorized "email or master password is incorrect"), db) := by
  unfold handleLogin
  cases hu : (userByEmail email db).toOption with
  | none => rfl
  | some user =>
    rw [hu] at h
    have hv : (verifyAuthHash authHash ((user.authHash).getD dummyAuthHash) && user.status = .active) = false := h
    simp only [Option.bind_some, hv, Bool.false_eq_true, if_false]

theorem handleRecover_refused {email recoveryAuthHash : String} {now : Time} {draw : Draw} {db : Db}
    (h : accepted (userByEmail email db).toOption User.recoveryAuthHash recoveryAuthHash = false) :
    handleRecover email recoveryAuthHash now draw db =
      (.error (unauthorized "email or recovery code is incorrect"), db) := by
  unfold handleRecover
  cases hu : (userByEmail email db).toOption with
  | none => rfl
  | some user =>
    rw [hu] at h
    have hv : (verifyAuthHash recoveryAuthHash ((user.recoveryAuthHash).getD dummyAuthHash) &&
        user.status = .active) = false := h
    simp only [Option.bind_some, hv, Bool.false_eq_true, if_false]

theorem handle_open {decoys : Decoys} {toLower : Char → Char} {f : Front} {v : Visit}
    (hpre : (f.preloginLimiter.allow (preloginKey v.ip) (v.clock 0)).1 = true)
    (hip : (f.limiter.allow (ipKey v.ip) (v.clock 0)).1 = true)
    (haccount : (f.limiter.allow (accountKey (normalizeEmail toLower v.ask.email)) (v.clock 1)).1 = true) :
    ((f.handle decoys toLower v).1.body, (f.handle decoys toLower v).2.db) = unlimited decoys toLower v f.db := by
  obtain ⟨ip, clock, ask⟩ := v
  cases ask with
  | prelogin email => simp only [handle, preloginWith, hpre, if_true, unlimited, Ask.email]
  | recoverPrelogin email => simp only [handle, preloginWith, hpre, if_true, unlimited, Ask.email]
  | login email authHash deviceLabel draw =>
    refine credentialWith_open hip haccount fun h => ?_
    rw [handleLogin_refused h]
    rfl
  | recover email recoveryAuthHash draw =>
    refine credentialWith_open hip haccount fun h => ?_
    rw [handleRecover_refused h]
    rfl

end Front

end Http

end Keyhole
