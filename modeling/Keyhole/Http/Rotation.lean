import Keyhole.Http.Auth

/-!
# A rotation commits against the password it verified

The password is compared with the row `requireAuth` read. The UPDATE asks
only that the account is active, so it is the history in between that says
whether the row was still the same.
-/

namespace Keyhole.Http
open Store Sql

def Task.user? : Task → Option User
  | verifyCurrent user _ _ _ | rotate user _ _ => some user
  | _ => none

/-- No password of the user was written since the rotation read the row. -/
def Flight.unreplaced (log : List Mark) (f : Flight) : Bool :=
  match f.task with
  | .rotate user _ _ => !History.since log f.readAt (Mark.writesPassword user.id)
  | _ => true

abbrev Unreplaced : State → Event → Prop := State.OnCommit Flight.unreplaced

namespace State

/-- The row a flight holds is the user's row as it was, unless the password
has been written since; and what it is to commit it has verified. -/
structure Held (s : State) (f : Flight) : Prop where
  past : f.readAt ≤ s.log.length
  issued : ∀ user ∈ f.task.user?, user.id ∈ s.server.issued
  row : ∀ user ∈ f.task.user?, ∀ row ∈ s.db.users, row.id = user.id →
    row.authHash = user.authHash ∨ History.since s.log f.readAt (Mark.writesPassword user.id) = true
  verified : ∀ user session rotation, f.task = .rotate user session rotation →
    ∃ currentAuthHash, verifyCurrentCredential user currentAuthHash = true

variable {s s' : State} {e : Event}

theorem held_kept (h : step s e s') {f : Flight} (hf : s.Held f) : s'.Held f := by
  rcases step_cases h with ⟨-, hs, hl⟩ | ⟨c, -, hd, hs, hl⟩
  · refine ⟨by rw [hl]; exact hf.past, by rw [hs]; exact hf.issued, ?_, hf.verified⟩
    rw [db, hs, hl]
    exact hf.row
  · refine ⟨?_, ?_, ?_, hf.verified⟩
    · rw [hl, List.length_append]
      exact Nat.le_add_right_of_le hf.past
    · intro user hu
      rw [hs]
      exact List.mem_append_right _ (hf.issued user hu)
    · intro user hu row hrow hid
      rw [db, hs] at hrow
      rw [hl]
      rcases (account_effect c s.db).userFrom hrow with ⟨old, hold, hsame, hw⟩ | hnew
      · rw [hid] at hsame
        rcases hf.row user hu old hold hsame with heq | hsince
        · rcases hw with hw | ⟨m, hm, hw⟩
          · exact Or.inl (hw.trans heq)
          · right
            apply History.since_append_right hf.past
            exact List.any_eq_true.mpr ⟨m, Option.mem_toList.mpr hm, hsame ▸ hw⟩
        · exact Or.inr (History.since_append_left hsince)
      · exact absurd (hid ▸ hf.issued user hu) (hd.2 _ hnew).2

theorem held_step (h : step s e s') (hk : s.Known) (hheld : ∀ f ∈ s.flights, s.Held f) :
    ∀ f ∈ s'.flights, s'.Held f := by
  intro f hf
  rcases mem_flights h hf with hf | ⟨ticket, now, req, task, rfl, hread, rfl⟩
    | ⟨f₀, h₀, task, ht, hs, hl, rfl⟩
  · exact held_kept h (hheld f hf)
  · -- the first read of a request loads no user for a rotation
    apply held_kept h
    cases read_cases hread <;>
      exact ⟨le_rfl, by simp [Task.user?], by simp [Task.user?], by simp⟩
  · have hold := held_kept h (hheld f₀ h₀)
    obtain ⟨ticket, readAt, verifiedAt, t⟩ := f₀
    cases advance_cases ht with
    | ready t =>
      cases t with
      | loadUser session currentAuthHash rotation =>
        exact ⟨by rw [hl]; exact le_rfl, by simp [Flight.advance, Task.user?], by simp [Flight.advance, Task.user?],
          by simp [Flight.advance]⟩
      | _ => exact ⟨hold.past, hold.issued, hold.row, hold.verified⟩
    | loaded hu ha =>
      obtain ⟨hmem, -⟩ := Table.get?_eq_some.mp hu
      refine ⟨by rw [hl]; exact le_rfl, ?_, ?_, by simp [Flight.advance]⟩
      · intro user huser
        cases huser
        rw [hs]
        exact hk.users _ hmem
      · intro user huser row hrow hid
        cases huser
        rw [db, hs] at hrow
        exact Or.inl (congrArg User.authHash (Table.eq_of_key hrow hmem hid))
    | verified hv =>
      refine ⟨hold.past, hold.issued, hold.row, ?_⟩
      intro user session rotation htask
      cases htask
      exact ⟨_, hv⟩
    | login hv ha =>
      exact ⟨hold.past, by simp [Flight.advance, Task.user?], by simp [Flight.advance, Task.user?],
        by simp [Flight.advance]⟩
    | recovery hv ha =>
      exact ⟨hold.past, by simp [Flight.advance, Task.user?], by simp [Flight.advance, Task.user?],
        by simp [Flight.advance]⟩

theorem held_run {es : List Event} (h : Lts.Run (Lts.Guarded step Unreplaced) fresh es s) :
    ∀ f ∈ s.flights, s.Held f := by
  refine guarded_inv (P := fun s => ∀ f ∈ s.flights, s.Held f) ?_ (fun _ _ _ hs => held_step hs.1) h
  intro f hf
  cases hf

theorem rotate_finds {ticket : Nat} {now : Time} {drawn : Drawn} {f : Flight} {user : User} {session : Session}
    {rotation : Rotation} (hf : s.flights.get? ticket = some f) (ht : f.task = .rotate user session rotation)
    (hm : s.marks (.commit ticket now drawn) ≠ []) : ∃ row, s.db.users.get? user.id = some row := by
  cases rotation with
  | password inp =>
    have heffect := account_effect (.rotatePassword now drawn.id user.id inp session.id) s.db
    simp only [marks, performs, hf, ht, Option.bind_some, Task.command] at hm
    generalize Command.mark s.db (.rotatePassword now drawn.id user.id inp session.id) = m at heffect hm
    generalize (Command.run _ s.db).toAccounts = a at heffect
    cases heffect with
    | passwordRotated hu hs => exact ⟨_, hu⟩
    | _ => exact absurd rfl hm
  | recovery inp =>
    have heffect := account_effect (.rotateRecovery now drawn.id user.id inp) s.db
    simp only [marks, performs, hf, ht, Option.bind_some, Task.command] at hm
    generalize Command.mark s.db (.rotateRecovery now drawn.id user.id inp) = m at heffect hm
    generalize (Command.run _ s.db).toAccounts = a at heffect
    cases heffect with
    | recoveryRotated hu hs => exact ⟨_, hu⟩
    | _ => exact absurd rfl hm

end State

/-- Where no password of the user is written between `requireAuth`'s read and
the commit, a rotation commits against the credential it verified. -/
theorem rotation_commits_against_verified {s s' : State} {es : List Event} {ticket : Nat} {now : Time}
    {drawn : Drawn} (h : Lts.Run (Lts.Guarded State.step Unreplaced) State.fresh es s)
    (hs : Lts.Guarded State.step Unreplaced s (.commit ticket now drawn) s') {f : Flight} {user : User}
    {session : Session} {rotation : Rotation} (hf : s.flights.get? ticket = some f)
    (ht : f.task = .rotate user session rotation) (hm : s.marks (.commit ticket now drawn) ≠ []) :
    ∃ row currentAuthHash, s.db.users.get? user.id = some row ∧ row.authHash = user.authHash ∧
      verifyCurrentCredential row currentAuthHash = true := by
  have hheld := State.held_run h f (Table.get?_eq_some.mp hf).1
  obtain ⟨row, hrow⟩ := State.rotate_finds hf ht hm
  obtain ⟨hmem, hid⟩ := Table.get?_eq_some.mp hrow
  obtain ⟨currentAuthHash, hv⟩ := hheld.verified user session rotation ht
  have hclean := hs.2 f hf
  simp only [Flight.unreplaced, ht, Bool.not_eq_true'] at hclean
  have hsame : row.authHash = user.authHash := by
    rcases hheld.row user (by rw [ht]; rfl) row hmem hid with hsame | hsince
    · exact hsame
    · rw [hclean] at hsince
      cases hsince
  refine ⟨row, currentAuthHash, hrow, hsame, ?_⟩
  unfold verifyCurrentCredential at hv ⊢
  rw [hsame]
  exact hv

theorem rotation_commits_against_verified_kept :
    ∃ row currentAuthHash, (State.script (aliceEnrolls ++ aliceRotates.dropLast)).db.users.get? "alice" = some row ∧
      row.authHash = alice.authHash ∧ verifyCurrentCredential row currentAuthHash = true := by
  have hs : Lts.Guarded State.step Unreplaced (State.script (aliceEnrolls ++ aliceRotates.dropLast))
      (.commit 2 0 ⟨"audit-1", "", ""⟩) _ := ⟨⟨by decide, rfl⟩, by decide⟩
  have hf : (State.script (aliceEnrolls ++ aliceRotates.dropLast)).flights.get? 2 = some
      ⟨2, 1, 1, .rotate alice (newSession 0 "session-1" "access-1" "refresh-1" "alice" "laptop")
        (.password secondPassword)⟩ := by decide
  exact rotation_commits_against_verified (State.run_guarded_script (by decide)) hs hf rfl (by decide)

/-- While a rotation holds the comparison it made, Alice recovers the account. -/
def rotationOverRecovery : List Event :=
  aliceEnrolls ++ [
    .receive 1 0 (.login "alice@home" "password-1" "stolen"), .advance 1,
    .commit 1 0 ⟨"session-1", "access-1", "refresh-1"⟩,
    .receive 2 0 (.rotate "access-1" "password-1" (.password secondPassword)), .advance 2, .advance 2,
    .receive 3 0 (.recover "alice@home" "code-1"), .advance 3, .commit 3 0 ⟨"token-1", "recovery-1", ""⟩,
    .receive 4 0 (.recoverComplete "recovery-1" thirdPassword secondCode), .commit 4 0 ⟨"audit-1", "", ""⟩]

theorem rotation_overwrites_recovery :
    ¬ ∀ s s' es ticket now drawn, Lts.Run State.step State.fresh es s →
      State.step s (.commit ticket now drawn) s' → ∀ f user session rotation, s.flights.get? ticket = some f →
      f.task = .rotate user session rotation → s.marks (.commit ticket now drawn) ≠ [] →
      ∃ row, s.db.users.get? user.id = some row ∧ row.authHash = user.authHash := by
  intro h
  obtain ⟨row, hrow, hsame⟩ := h _ _ rotationOverRecovery 2 0 ⟨"audit-2", "", ""⟩ (State.run_script (by decide))
    ⟨by decide, rfl⟩
    ⟨2, 1, 1, .rotate alice (newSession 0 "session-1" "access-1" "refresh-1" "alice" "stolen")
      (.password secondPassword)⟩
    alice _ _ (by decide) rfl (by decide)
  have hstored : ((State.script rotationOverRecovery).db.users.get? alice.id).map (·.authHash) =
      some (some (hashAuthHash "salt-5" "password-3")) := by decide
  rw [hrow, Option.map_some, hsame] at hstored
  exact absurd hstored (by decide)

end Keyhole.Http
