import Keyhole.Store.Lifetime

/-!
# The sessions a user is shown

`SessionsForUser` leaves out what the access token could no longer open, and
the refresh token may still.
-/

namespace Keyhole.Store
open Sql

def sessionsForUser (now : Time) (userID : Id) (db : Db) : List Session :=
  ((db.sessions.filter fun s => s.userID = userID && s.revokedAt.isNone).insertionSort
    fun s s' => s'.lastSeenAt ≤ s.lastSeenAt).filter fun s => !(s.expiresAt < now || s.outlived now)

def Usable (now : Time) (s : Session) (db : Db) : Prop :=
  (∃ token, sessionByAccessToken now token db = .ok s) ∨
  ∃ token newAccess newRefresh s', (rotateSession now token newAccess newRefresh db).1 = .ok s' ∧ s'.id = s.id

def revokeListed (now : Time) (userID : Id) (db : Db) : Db :=
  (sessionsForUser now userID db).foldl (fun db s => (revokeSessionForUser now s.id userID db).2) db

/-- The list is the user's usable sessions, and revoking all of it ends them. -/
structure ListComplete (now : Time) (userID : Id) (db : Db) : Prop where
  listed : ∀ s ∈ db.sessions, s.userID = userID → Usable now s db → s ∈ sessionsForUser now userID db
  usable : ∀ s ∈ sessionsForUser now userID db, Usable now s db
  ended : ∀ now', now ≤ now' → ∀ s ∈ (revokeListed now userID db).sessions, s.userID = userID →
    ¬ Usable now' s (revokeListed now userID db)

/-- No session of the user has gone past its access expiry while its refresh token is still good. -/
def NoneIdle (now : Time) (userID : Id) (db : Db) : Prop :=
  ∀ s ∈ db.sessions, s.userID = userID → s.revokedAt = none → s.outlived now = false → ¬ s.expiresAt < now

instance (now : Time) (userID : Id) (db : Db) : Decidable (NoneIdle now userID db) :=
  inferInstanceAs (Decidable (∀ s ∈ db.sessions, _))

theorem mem_sessionsForUser {now : Time} {userID : Id} {db : Db} {s : Session} :
    s ∈ sessionsForUser now userID db ↔
      s ∈ db.sessions ∧ s.userID = userID ∧ s.revokedAt = none ∧ ¬ s.expiresAt < now ∧
        s.outlived now = false := by
  unfold sessionsForUser
  rw [List.mem_filter, List.mem_insertionSort, Table.mem_filter]
  simp only [Bool.and_eq_true, decide_eq_true_eq, Option.isNone_iff_eq_none, Bool.not_eq_true',
    Bool.or_eq_false_iff,
    decide_eq_false_iff_not, and_assoc]

/-! ## What is let in -/

theorem rotateSession_ok {now : Time} {token a r : String} {db : Db} {s' : Session}
    (h : (rotateSession now token a r db).1 = .ok s') :
    ∃ s, sessionByRefreshToken now token db = .ok s ∧ s.id = s'.id := by
  unfold rotateSession at h
  split at h
  · cases h
  · rename_i s hs
    refine ⟨s, hs, ?_⟩
    cases hx : (rotateSessionTx now s token a r).autocommit db with
    | mk out db' =>
      rw [hx] at h
      cases h
      obtain ⟨-, -, -, -, -, rfl, -⟩ := rotateSessionTx_ok (Prog.autocommit_ok.mp hx)
      rfl

theorem live_of_usable {now : Time} {s : Session} {db : Db} (hs : s ∈ db.sessions) (h : Usable now s db) :
    s.revokedAt = none ∧ s.outlived now = false := by
  rcases h with ⟨token, h⟩ | ⟨token, a, r, s', h, hid⟩
  · exact ⟨(sessionByAccessToken_ok h).2.2, (SessionWorld.sessionByAccessToken_live h).2⟩
  · obtain ⟨s₀, h₀, hid₀⟩ := rotateSession_ok h
    obtain ⟨hs₀, -, hv, ho⟩ := SessionWorld.sessionByRefreshToken_ok h₀
    rw [Table.eq_of_key hs hs₀ (hid.symm.trans hid₀.symm)]
    exact ⟨hv, ho⟩

section
variable {w : SessionWorld} (hw : w.Inv) {s : Session} (hs : s ∈ w.db.sessions)
include hw hs

theorem same_of_hash {s' : Session} (hs' : s' ∈ w.db.sessions)
    (h : s'.tokenHash = s.tokenHash ∨ s'.refreshHash = s.refreshHash) : s' = s := by
  apply Table.eq_of_key hs' hs
  rcases h with h | h
  · exact SessionWorld.row_of_token hw (hw.rows s hs).1 hs' (.inl h)
  · exact SessionWorld.row_of_token hw (hw.rows s hs).2 hs' (.inr h)

theorem found_by_refresh (hv : s.revokedAt = none) :
    (w.db.sessions.find? fun s' => s'.refreshHash = hashToken s.refreshHash.token && s'.revokedAt.isNone) =
      some s := by
  apply Table.find?_eq_some hs
  intro s' hs'
  rw [Bool.and_eq_true, decide_eq_true_eq, Option.isNone_iff_eq_none]
  constructor
  · exact fun h => same_of_hash hw hs hs' (.inr h.1)
  · rintro rfl
    exact ⟨rfl, hv⟩

/-- Whatever is drawn, as long as no other row has it. -/
theorem refresh_lets_in {now : Time} (hv : s.revokedAt = none) (ho : s.outlived now = false) {a r : String}
    (hfree : hashesFree w.db (s.rotated now a r) = true) :
    ∃ s', (rotateSession now s.refreshHash.token a r w.db).1 = .ok s' ∧ s'.id = s.id := by
  have hfind : sessionByRefreshToken now s.refreshHash.token w.db = .ok s := by
    unfold sessionByRefreshToken
    rw [found_by_refresh hw hs hv]
    simp only [ho, Bool.false_eq_true, if_false]
  have hp : (decide (s.id = s.id) && decide (s.refreshHash = hashToken s.refreshHash.token) && s.revokedAt.isNone) =
      true := by
    simp [hv, hashToken]
  have hall : ((w.db.sessions.filter fun s' => s'.id = s.id && s'.refreshHash = hashToken s.refreshHash.token &&
      s'.revokedAt.isNone).all fun s' => hashesFree w.db (s'.rotated now a r)) = true := by
    rw [List.all_eq_true]
    intro s' hs'
    obtain ⟨hs', hp⟩ := Table.mem_filter.mp hs'
    simp only [Bool.and_eq_true, decide_eq_true_eq] at hp
    rw [Table.eq_of_key hs' hs hp.1.1]
    exact hfree
  have hcount : w.db.sessions.count (fun s' => s'.id = s.id && s'.refreshHash = hashToken s.refreshHash.token &&
      s'.revokedAt.isNone) ≠ 0 := by
    intro h
    have := Table.count_eq_zero.mp h s hs
    rw [hp] at this
    cases this
  refine ⟨{ s with lastSeenAt := now, expiresAt := now + accessTokenLifetime }, ?_, rfl⟩
  simp only [rotateSession, hfind, rotateSessionTx, rotateSessionRow, hall, if_true, sql, Prog.autocommit_bind,
    Prog.autocommit, require, hcount, ne_eq, not_false_eq_true, decide_true]
  rfl

theorem usable_iff (now : Time) :
    Usable now s w.db ↔ s.revokedAt = none ∧ s.outlived now = false := by
  constructor
  · exact live_of_usable hs
  · rintro ⟨hv, ho⟩
    have hfree : hashesFree w.db (s.rotated now s.tokenHash.token s.refreshHash.token) = true := by
      unfold hashesFree
      rw [Bool.not_eq_true', ← Bool.not_eq_true, Table.any_eq_true]
      rintro ⟨s', hs', h⟩
      simp only [Bool.and_eq_true, Bool.or_eq_true, decide_eq_true_eq] at h
      have hid : s'.id = s.id := congrArg Session.id (same_of_hash hw hs hs' h.2)
      exact h.1 hid
    obtain ⟨s', h, hid⟩ := refresh_lets_in hw hs hv ho hfree
    exact .inr ⟨_, _, _, s', h, hid⟩

end

/-! ## Ending what is listed -/

theorem revokeAll_row (now : Time) (userID : Id) (listed : List Session) {db : Db} {s' : Session}
    (h : s' ∈ (listed.foldl (fun db s => (revokeSessionForUser now s.id userID db).2) db).sessions)
    (hv : s'.revokedAt = none) (hu : s'.userID = userID) : s' ∈ db.sessions ∧ ∀ s ∈ listed, s.id ≠ s'.id := by
  induction listed generalizing db with
  | nil => exact ⟨h, fun _ hs => nomatch hs⟩
  | cons l listed ih =>
    obtain ⟨hmem, hne⟩ := ih h
    rcases SessionWorld.mem_revoked.mp hmem with ⟨hmem, hp⟩ | ⟨s, -, -, rfl⟩
    · refine ⟨hmem, fun s hs => ?_⟩
      rcases List.mem_cons.mp hs with rfl | hs
      · intro hid
        simp [hid, hu, hv] at hp
      · exact hne s hs
    · cases hv

theorem outlived_mono {s : Session} {now now' : Time} (h : now ≤ now') (ho : s.outlived now = true) :
    s.outlived now' = true := by
  simp only [Session.outlived, decide_eq_true_eq] at ho ⊢
  exact lt_of_lt_of_le ho h

/-- In a reachable table the list is complete for a user who has no idle
session, one whose access has expired and whose refresh token is still good. -/
theorem sessionsForUser_complete_iff {w : SessionWorld} (h : w.Reachable) (now : Time) (userID : Id) :
    ListComplete now userID w.db ↔ NoneIdle now userID w.db := by
  have hw := SessionWorld.inv_reachable h
  constructor
  · intro hc s hs hu hv ho
    have hlisted := hc.listed s hs hu ((usable_iff hw hs now).mpr ⟨hv, ho⟩)
    exact (mem_sessionsForUser.mp hlisted).2.2.2.1
  · intro hidle
    have hall : ∀ s ∈ w.db.sessions, s.userID = userID → s.revokedAt = none → s.outlived now = false →
        s ∈ sessionsForUser now userID w.db :=
      fun s hs hu hv ho => mem_sessionsForUser.mpr ⟨hs, hu, hv, hidle s hs hu hv ho, ho⟩
    refine ⟨fun s hs hu huse => ?_, fun s hs => ?_, fun now' hle s hs hu huse => ?_⟩
    · obtain ⟨hv, ho⟩ := live_of_usable hs huse
      exact hall s hs hu hv ho
    · obtain ⟨hs, -, hv, -, ho⟩ := mem_sessionsForUser.mp hs
      exact (usable_iff hw hs now).mpr ⟨hv, ho⟩
    · obtain ⟨hv, ho⟩ := live_of_usable hs huse
      obtain ⟨hmem, hne⟩ := revokeAll_row now userID _ hs hv hu
      have ho' : s.outlived now = false := by
        rw [Bool.eq_false_iff]
        intro ho'
        rw [outlived_mono hle ho'] at ho
        cases ho
      exact hne s (hall s hmem hu hv ho') rfl

theorem sessionsForUser_complete_fresh :
    ListComplete (120 * second) "alice" (SessionWorld.script SessionWorld.rotationHeld).db :=
  (sessionsForUser_complete_iff (@SessionWorld.script_reachable SessionWorld.rotationHeld (by decide)) _ _).mpr
    (by decide)

/-- Alice's laptop is quiet for an hour: the list is empty, and its refresh token still opens the account. -/
theorem idle_session_unlisted :
    ¬ ∀ w : SessionWorld, w.Reachable → ∀ now userID, ∀ s ∈ w.db.sessions, s.userID = userID →
      Usable now s w.db → s ∈ sessionsForUser now userID w.db := by
  intro h
  have hr := @SessionWorld.script_reachable SessionWorld.rotationHeld (by decide)
  have hw := SessionWorld.inv_reachable hr
  have hs : (newSession 0 "session-1" "access-1" "refresh-1" "alice" "laptop").touched 60 ∈
      (SessionWorld.script SessionWorld.rotationHeld).db.sessions := by decide
  have hlisted := h _ hr (3600 * second) "alice" _ hs rfl ((usable_iff hw hs _).mpr (by decide))
  exact absurd hlisted (by decide)

end Keyhole.Store
