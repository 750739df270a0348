import Keyhole.Http.Auth

/-!
# A credential change ends the sessions of the old credential

It revokes the sessions it finds. A login that has compared the old hash and
not yet inserted its session is not among them.
-/

namespace Keyhole.Http
open Store Sql

/-- `requireAuth` lets the session in, or the UPDATE of `RotateSession` finds it. -/
def Accepted (db : Db) (id : Id) : Prop :=
  (∃ now token, (requireAuth now token db).any (·.2.id = id) = true) ∨
  ∃ now session refreshToken newAccess newRefresh r, session.id = id ∧
    (rotateSessionTx now session refreshToken newAccess newRefresh).exec db = .ok r

/-- The session's login compared a hash that has since been replaced or
cleared, and not by the rotation that keeps it; or compared it before a
disabling of the account. -/
def Outdated (log : List Mark) (origin : Origin) (id : Id) : Bool :=
  History.since log origin.readAt (Mark.replacesPassword origin.userID id) ||
  History.since log origin.verifiedAt (Mark.disables origin.userID)

/-- The user's password is the one this login read, and the account has not
been disabled since the comparison. -/
def Flight.undisturbed (log : List Mark) (f : Flight) : Bool :=
  match f.task with
  | .createSession user _ =>
    !History.since log f.readAt (Mark.writesPassword user.id) &&
      !History.since log f.verifiedAt (Mark.disables user.id)
  | _ => true

abbrev Undisturbed : State → Event → Prop := State.OnCommit Flight.undisturbed

namespace State

def Current (s : State) : Prop :=
  ∀ row ∈ s.db.sessions, row.revokedAt = none →
    (s.origins row.id).userID = row.userID ∧ Outdated s.log (s.origins row.id) row.id = false

end State

theorem outdated_append {log new : List Mark} {origin : Origin} {id : Id} (h : Outdated log origin id = false)
    (hm : ∀ m ∈ new, m.endsSession origin.userID id = false) : Outdated (log ++ new) origin id = false := by
  unfold Outdated at h ⊢
  rw [Bool.or_eq_false_iff] at h ⊢
  have hnone : ∀ m ∈ new, m.replacesPassword origin.userID id = false ∧ m.disables origin.userID = false := by
    intro m hnew
    exact Bool.or_eq_false_iff.mp (hm m hnew)
  constructor
  · exact History.not_since_append h.1 fun m hnew => (hnone m hnew).1
  · exact History.not_since_append h.2 fun m hnew => (hnone m hnew).2

theorem writesPassword_of_replaces {m : Mark} {userID id : Id} (h : m.writesPassword userID = false) :
    m.replacesPassword userID id = false := by
  cases m <;> simp_all [Mark.writesPassword, Mark.replacesPassword]

theorem not_outdated_of_undisturbed {log : List Mark} {origin : Origin} {id : Id}
    (hp : History.since log origin.readAt (Mark.writesPassword origin.userID) = false)
    (hd : History.since log origin.verifiedAt (Mark.disables origin.userID) = false) :
    Outdated log origin id = false := by
  unfold Outdated
  rw [hd, Bool.or_false]
  unfold History.since at hp ⊢
  rw [List.any_eq_false] at hp ⊢
  intro m hm hr
  have hw : m.writesPassword origin.userID = false := by simpa using hp m hm
  rw [writesPassword_of_replaces hw] at hr
  cases hr

namespace State

theorem current_step {s s' : State} {e : Event} (h : Lts.Guarded step Undisturbed s e s') (hk : s.Known)
    (hc : s.Current) : s'.Current := by
  obtain ⟨h, hg⟩ := h
  intro row hrow hv
  rcases step_cases h with ⟨hp, hs, hl⟩ | ⟨c, hp, hd, hs, hl⟩
  · rw [db, hs] at hrow
    rw [hl, origins_issued h (hk.sessions row hrow)]
    exact hc row hrow hv
  · rw [db, hs] at hrow
    have hfrom := (account_effect c s.db).sessionFrom (session_ids hk) hrow hv
    rw [hl]
    generalize hm : c.mark s.db = m at hfrom
    cases hfrom with
    | kept hs₀ hv₀ hid hu hr hkept =>
      obtain ⟨huser, hold⟩ := hc _ hs₀ hv₀
      rw [hid, hu, origins_issued h (hk.sessions _ hs₀)]
      refine ⟨huser, outdated_append hold ?_⟩
      intro x hx
      rw [huser]
      exact (hkept x (Option.mem_toList.mp hx)).1
    | rotated hg₀ hr hv₀ =>
      obtain ⟨hs₀, hid⟩ := Table.get?_eq_some.mp hg₀
      obtain ⟨huser, hold⟩ := hc _ hs₀ hv₀
      rw [Session.rotated_id, Session.rotated_userID, origins_issued h (hk.sessions _ hs₀)]
      refine ⟨huser, ?_⟩
      exact outdated_append hold (by simp [Mark.endsSession, Mark.replacesPassword, Mark.disables])
    | created =>
      obtain ⟨ticket, now, drawn, f, rfl, hf, ht, ho⟩ := origins_created h hp rfl
      obtain ⟨user, htask, rfl, rfl⟩ := command_createSession ht
      have horigin := ho ⟨user.id, f.readAt, f.verifiedAt⟩ (by simp [Flight.origin?, htask])
      have hclean := hg f hf
      simp only [Flight.undisturbed, htask, Bool.and_eq_true, Bool.not_eq_true'] at hclean
      simp only [newSession, horigin, Option.toList_none, List.append_nil]
      refine ⟨trivial, ?_⟩
      exact not_outdated_of_undisturbed hclean.1 hclean.2

theorem current_run {s : State} {es : List Event} (h : Lts.Run (Lts.Guarded step Undisturbed) fresh es s) :
    s.Current := by
  refine guarded_inv ?_ (fun _ _ _ => current_step) h
  intro row hrow
  cases hrow

end State

/-! ## What is accepted -/

theorem accepted_unrevoked {db : Db} {id : Id} (h : Accepted db id) :
    ∃ row ∈ db.sessions, row.id = id ∧ row.revokedAt = none := by
  rcases h with ⟨now, token, h⟩ | ⟨now, session, refreshToken, newAccess, newRefresh, ⟨r, db'⟩, rfl, h⟩
  · obtain ⟨⟨user, session⟩, hr, hid⟩ := (Option.any_eq_true _ _).mp h
    obtain ⟨hs, -, -⟩ := requireAuth_some hr
    obtain ⟨hmem, -, hv⟩ := sessionByAccessToken_ok hs
    exact ⟨session, hmem, by simpa using hid, hv⟩
  · obtain ⟨row, hrow, -, hv, -⟩ := rotateSessionTx_ok h
    obtain ⟨hmem, hid⟩ := Table.get?_eq_some.mp hrow
    exact ⟨row, hmem, hid, hv⟩

/-- Where no credential change comes between a login's read and its insert,
an accepted session is never one of a credential that is gone. -/
theorem credential_change_ends_sessions {s : State} {es : List Event}
    (h : Lts.Run (Lts.Guarded State.step Undisturbed) State.fresh es s) {id : Id} (ha : Accepted s.db id) :
    ∃ row ∈ s.db.sessions, row.id = id ∧ (s.origins id).userID = row.userID ∧
      Outdated s.log (s.origins id) id = false := by
  obtain ⟨row, hrow, rfl, hv⟩ := accepted_unrevoked ha
  obtain ⟨huser, hcurrent⟩ := State.current_run h row hrow hv
  exact ⟨row, hrow, rfl, huser, hcurrent⟩

theorem credential_change_ends_sessions_kept :
    ∃ row ∈ (State.script (aliceEnrolls ++ aliceRotates)).db.sessions, row.id = "session-1" ∧
      "alice" = row.userID ∧
      Outdated [.enrolled "alice" "invite-1", .password "alice" "session-1"] ⟨"alice", 1, 1⟩
        "session-1" = false := by
  have ha : Accepted (State.script (aliceEnrolls ++ aliceRotates)).db "session-1" :=
    Or.inl ⟨0, "access-1", by decide⟩
  exact credential_change_ends_sessions (State.run_guarded_script (by decide)) ha

/-- A second login compares the hash, Alice changes her password, and then the
login inserts its session. -/
def loginOverRotation : List Event :=
  aliceEnrolls ++ [.receive 3 0 (.login "alice@home" "password-1" "stolen"), .advance 3] ++ aliceRotates ++
    [.commit 3 0 ⟨"session-2", "access-2", "refresh-2"⟩]

theorem session_outlives_rotation :
    ¬ ∀ s es, Lts.Run State.step State.fresh es s → ∀ id, Accepted s.db id →
      Outdated s.log (s.origins id) id = false := by
  intro h
  have hcurrent := h _ loginOverRotation (State.run_script (by decide)) "session-2"
    (Or.inl ⟨0, "access-2", by decide⟩)
  exact absurd hcurrent (by decide)

end Keyhole.Http
