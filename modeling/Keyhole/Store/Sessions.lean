import Keyhole.Store.Schema

/-!
# Sessions

`RotateSession` reads the session in one statement and replaces its hashes
in another, which matches on the hash it read under.
-/

namespace Keyhole.Store
open Sql

def accessTokenLifetime : Time := 30 * 60 * second

def refreshTokenLifetime : Time := 30 * 24 * 3600 * second

/-- A unique index on a hash column admits `row` beside the rows of other ids. -/
def hashesFree (db : Db) (row : Session) : Bool :=
  !db.sessions.any fun s => s.id ≠ row.id && (s.tokenHash = row.tokenHash || s.refreshHash = row.refreshHash)

def insertSession (row : Session) (db : Db) : Except SqlError (Unit × Db) :=
  match db.sessions.insert? row with
  | none => .error .primaryKey
  | some sessions =>
    if !hashesFree db row then .error .unique
    else if db.hasUser row.userID then .ok ((), { db with sessions })
    else .error .foreignKey

def newSession (now : Time) (id : Id) (accessToken refreshToken : String) (userID : Id) (deviceLabel : String) :
    Session := {
  id, userID, tokenHash := hashToken accessToken, refreshHash := hashToken refreshToken
  deviceLabel := if deviceLabel = "" then "unknown device" else deviceLabel
  createdAt := stamp now, lastSeenAt := stamp now, expiresAt := stamp (now + accessTokenLifetime)
  revokedAt := none }

def createSessionTx (now : Time) (id : Id) (accessToken refreshToken : String) (userID : Id)
    (deviceLabel : String) : Txn Session := do
  let session := newSession now id accessToken refreshToken userID deviceLabel
  sql (wrap "insert session") (insertSession session)
  return session

def createSession (now : Time) (id : Id) (accessToken refreshToken : String) (userID : Id) (deviceLabel : String)
    (db : Db) : Except StoreError Session × Db :=
  (createSessionTx now id accessToken refreshToken userID deviceLabel).autocommit db

def Session.outlived (session : Session) (now : Time) : Bool := session.createdAt + refreshTokenLifetime < now

def sessionByAccessToken (now : Time) (token : String) (db : Db) : Except StoreError Session :=
  match db.sessions.find? fun s => s.tokenHash = hashToken token && s.revokedAt.isNone with
  | none => .error .notFound
  | some session =>
    if session.expiresAt < now then .error .notFound
    else if session.outlived now then .error .notFound
    else .ok session

def sessionByRefreshToken (now : Time) (refreshToken : String) (db : Db) : Except StoreError Session :=
  match db.sessions.find? fun s => s.refreshHash = hashToken refreshToken && s.revokedAt.isNone with
  | none => .error .notFound
  | some session => if session.outlived now then .error .notFound else .ok session

def Session.rotated (session : Session) (now : Time) (newAccess newRefresh : String) : Session :=
  { session with
    tokenHash := hashToken newAccess, refreshHash := hashToken newRefresh
    lastSeenAt := stamp now, expiresAt := stamp (now + accessTokenLifetime) }

@[simp] theorem Session.rotated_id (s : Session) (now : Time) (a r : String) : (s.rotated now a r).id = s.id := rfl

@[simp] theorem Session.rotated_userID (s : Session) (now : Time) (a r : String) :
    (s.rotated now a r).userID = s.userID := rfl

/-- `UPDATE sessions SET … WHERE id = ? AND refresh_hash = ? AND revoked_at IS NULL`. -/
def rotateSessionRow (now : Time) (id : Id) (refreshToken newAccess newRefresh : String) (db : Db) :
    Except SqlError (Nat × Db) :=
  let p : Session → Bool := fun s => s.id = id && s.refreshHash = hashToken refreshToken && s.revokedAt.isNone
  if (db.sessions.filter p).all fun s => hashesFree db (s.rotated now newAccess newRefresh) then
    .ok (db.sessions.count p, { db with sessions := db.sessions.update p (·.rotated now newAccess newRefresh) })
  else .error .unique

def rotateSessionTx (now : Time) (session : Session) (refreshToken newAccess newRefresh : String) :
    Txn Session := do
  let affected ← sql (wrap "rotate session") (rotateSessionRow now session.id refreshToken newAccess newRefresh)
  require (affected ≠ 0) .notFound
  return { session with lastSeenAt := now, expiresAt := now + accessTokenLifetime }

def rotateSession (now : Time) (refreshToken newAccess newRefresh : String) (db : Db) :
    Except StoreError Session × Db :=
  match sessionByRefreshToken now refreshToken db with
  | .error e => (.error e, db)
  | .ok session => (rotateSessionTx now session refreshToken newAccess newRefresh).autocommit db

def Session.touched (session : Session) (now : Time) : Session :=
  { session with lastSeenAt := stamp now, expiresAt := stamp (now + accessTokenLifetime) }

def touchSession (now : Time) (id : Id) (db : Db) : Db :=
  { db with sessions := db.sessions.update (fun s => s.id = id && s.revokedAt.isNone) (·.touched now) }

def Session.revoked (session : Session) (now : Time) : Session := { session with revokedAt := some (stamp now) }

theorem Session.revoked_id (now : Time) (s : Session) : (s.revoked now).id = s.id := rfl

def revokeSessions (now : Time) (which : Session → Bool) (db : Db) : Nat × Db :=
  let p : Session → Bool := fun s => which s && s.revokedAt.isNone
  (db.sessions.count p, { db with sessions := db.sessions.update p (·.revoked now) })

def revokeSessionTx (now : Time) (which : Session → Bool) : Txn Unit := do
  let affected ← write (revokeSessions now which)
  require (affected ≠ 0) .notFound

def revokeSession (now : Time) (id : Id) (db : Db) : Except StoreError Unit × Db :=
  (revokeSessionTx now fun s => s.id = id).autocommit db

def revokeSessionForUser (now : Time) (id userID : Id) (db : Db) : Except StoreError Unit × Db :=
  (revokeSessionTx now fun s => s.id = id && s.userID = userID).autocommit db

/-! ## What each of them does -/

theorem insertSession_ok {row : Session} {db db' : Db} {u : Unit} (h : insertSession row db = .ok (u, db')) :
    ∃ sessions, db.sessions.insert? row = some sessions ∧ hashesFree db row = true ∧
      db.hasUser row.userID = true ∧ db' = { db with sessions } := by
  unfold insertSession at h
  split at h
  · cases h
  · rename_i t ht
    split at h
    · cases h
    · rename_i hf
      split at h
      · rename_i hu
        cases h
        exact ⟨t, ht, by simpa using hf, hu, rfl⟩
      · cases h

theorem sessionByAccessToken_ok {now : Time} {token : String} {db : Db} {s : Session}
    (h : sessionByAccessToken now token db = .ok s) :
    s ∈ db.sessions ∧ s.tokenHash = hashToken token ∧ s.revokedAt = none := by
  unfold sessionByAccessToken at h
  split at h
  · cases h
  · rename_i s' hf
    have hp := Table.prop_of_find? hf
    simp only [Bool.and_eq_true, decide_eq_true_eq, Option.isNone_iff_eq_none] at hp
    split at h
    · cases h
    · split at h
      · cases h
      · cases h
        exact ⟨Table.mem_of_find? hf, hp.1, hp.2⟩

theorem rotateSessionRow_ok {now : Time} {id : Id} {refresh newAccess newRefresh : String} {db db' : Db} {n : Nat}
    (h : rotateSessionRow now id refresh newAccess newRefresh db = .ok (n, db')) (hn : n ≠ 0) :
    ∃ s, db.sessions.get? id = some s ∧ s.refreshHash = hashToken refresh ∧ s.revokedAt = none ∧
      hashesFree db (s.rotated now newAccess newRefresh) = true ∧
      db' = { db with sessions := db.sessions.upsert (s.rotated now newAccess newRefresh) } := by
  unfold rotateSessionRow at h
  simp only at h
  split at h
  · rename_i hfree
    simp only [Except.ok.injEq, Prod.mk.injEq] at h
    obtain ⟨rfl, rfl⟩ := h
    obtain ⟨s, hs, hp, hup⟩ := Table.update_one (k := id) (by simp +contextual) hn
    have hf := List.all_eq_true.mp hfree s (Table.mem_filter.mpr ⟨(Table.get?_eq_some.mp hs).1, hp⟩)
    simp only [Bool.and_eq_true, decide_eq_true_eq, Option.isNone_iff_eq_none] at hp
    exact ⟨s, hs, hp.1.2, hp.2, hf, congrArg (fun sessions => { db with sessions }) hup⟩
  · cases h

theorem rotateSessionTx_ok {now : Time} {session : Session} {refresh newAccess newRefresh : String} {db db' : Db}
    {s' : Session} (h : (rotateSessionTx now session refresh newAccess newRefresh).exec db = .ok (s', db')) :
    ∃ s, db.sessions.get? session.id = some s ∧ s.refreshHash = hashToken refresh ∧ s.revokedAt = none ∧
      hashesFree db (s.rotated now newAccess newRefresh) = true ∧
      s' = { session with lastSeenAt := now, expiresAt := now + accessTokenLifetime } ∧
      db' = { db with sessions := db.sessions.upsert (s.rotated now newAccess newRefresh) } := by
  simp only [rotateSessionTx, Prog.exec_bind_ok, exec_sql_ok, exec_require_ok, decide_eq_true_eq] at h
  obtain ⟨n, db₁, h₁, _, _, ⟨hn, rfl⟩, h₂⟩ := h
  obtain ⟨s, hs, hr, hv, hf, rfl⟩ := rotateSessionRow_ok h₁ hn
  cases h₂
  exact ⟨s, hs, hr, hv, hf, rfl, rfl⟩

/-- Nothing but a hash that is taken can stop it. -/
theorem rotateSessionTx_able {session s : Session} {refresh newAccess newRefresh : String} {db : Db} (now : Time)
    (hs : db.sessions.get? session.id = some s) (hr : s.refreshHash = hashToken refresh) (hv : s.revokedAt = none)
    (hf : hashesFree db (s.rotated now newAccess newRefresh) = true) :
    ∃ r, (rotateSessionTx now session refresh newAccess newRefresh).exec db = .ok r := by
  obtain ⟨hmem, hid⟩ := Table.get?_eq_some.mp hs
  have hfree : ((db.sessions.filter fun s => s.id = session.id && s.refreshHash = hashToken refresh &&
      s.revokedAt.isNone).all fun s => hashesFree db (s.rotated now newAccess newRefresh)) = true := by
    refine List.all_eq_true.mpr fun x hx => ?_
    obtain ⟨hx, hp⟩ := Table.mem_filter.mp hx
    simp only [Bool.and_eq_true, decide_eq_true_eq] at hp
    rw [Table.eq_of_key hx hmem (hp.1.1.trans hid.symm)]
    exact hf
  have hrow : ∃ r, rotateSessionRow now session.id refresh newAccess newRefresh db = .ok r ∧ r.1 ≠ 0 := by
    unfold rotateSessionRow
    simp only [hfree, if_true]
    exact ⟨_, rfl, Table.count_ne_zero hmem (by simp [hid, hr, hv])⟩
  obtain ⟨r, hr, hn⟩ := hrow
  unfold rotateSessionTx
  rw [Prog.exec_bind, exec_sql_ok.mpr hr]
  simp only
  rw [Prog.exec_bind, exec_require, if_pos (decide_eq_true hn)]
  exact ⟨_, rfl⟩

end Keyhole.Store
