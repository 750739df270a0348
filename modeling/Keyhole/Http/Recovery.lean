import Keyhole.Http.Auth

/-!
# Recovery tokens and the code they were minted from

A completed recovery spends every token of the account. A rotation of the
code and a reset spend none, and no change reaches a token that a recovery
still on its way is about to mint.
-/

namespace Keyhole.Http
open Store Sql

def Task.token? : Task → Option RecoveryToken
  | completeRecovery rt _ _ => some rt
  | _ => none

/-- The changes of the recovery code that leave the user's tokens as they are. -/
def leavesTokens (userID : Id) : Mark → Bool
  | .recovery u | .reset u => u = userID
  | _ => false

def Flight.unrotated (log : List Mark) (f : Flight) : Bool :=
  match f.task with
  | .createRecoveryToken user => !History.since log f.readAt (Mark.replacesRecovery user.id)
  | _ => true

/-- The clock does not go back; no token is minted from a code that is gone;
and a change that leaves the user's tokens finds each of them spent, or
expired and looked up by nobody. -/
def TokensRetired (s : State) (e : Event) : Prop :=
  (∀ now ∈ e.time, s.clock ≤ now) ∧ s.OnCommit Flight.unrotated e ∧
  ∀ m ∈ s.marks e, ∀ rt ∈ s.db.recoveryTokens, leavesTokens rt.userID m = true → rt.usedAt = none →
    rt.expiresAt < e.time.getD s.clock ∧ ∀ f ∈ s.flights, f.task.token? ≠ some rt

instance (s : State) (e : Event) : Decidable (TokensRetired s e) := inferInstanceAs (Decidable (_ ∧ _ ∧ _))

namespace State

variable {s s' : State} {e : Event}

def LiveToken (s : State) (rt : RecoveryToken) : Prop := rt ∈ s.db.recoveryTokens ∧ rt.usedAt = none

def StaleToken (s : State) (rt : RecoveryToken) : Prop :=
  History.since s.log (s.origins rt.id).readAt (Mark.replacesRecovery rt.userID) = true

def HeldToken (s : State) (rt : RecoveryToken) : Prop := ∃ f ∈ s.flights, f.task.token? = some rt

theorem token_issued (hk : s.Known) {rt : RecoveryToken} (h : s.LiveToken rt) : rt.id ∈ s.server.issued :=
  hk.recoveryTokens rt h.1

theorem liveToken_cases (h : step s e s') {rt : RecoveryToken} (hr : s'.LiveToken rt) :
    (s.LiveToken rt ∧ ∀ u id, .recovered u id ∈ s.marks e → rt.userID ≠ u) ∨
    ∃ ticket now drawn f user, e = .commit ticket now drawn ∧ s.flights.get? ticket = some f ∧
      f.task = .createRecoveryToken user ∧ rt.userID = user.id ∧ rt.id ∉ s.server.issued ∧
      s.marks e = [] ∧ s'.origins rt.id = ⟨user.id, f.readAt, f.verifiedAt⟩ := by
  obtain ⟨hmem, hv⟩ := hr
  rcases step_cases h with ⟨hp, hs, hl⟩ | ⟨c, hp, hd, hs, hl⟩
  · left
    rw [db, hs] at hmem
    refine ⟨⟨hmem, hv⟩, ?_⟩
    intro u id hm
    simp only [marks, hp] at hm
    cases hm
  · rw [db, hs] at hmem
    have hfrom := (account_effect c s.db).tokenFrom hmem hv
    rw [marks_of_performs hp]
    generalize c.mark s.db = m at hfrom
    cases hfrom with
    | kept hold hkept =>
      left
      refine ⟨⟨hold, hv⟩, ?_⟩
      intro u id hm
      exact (hkept u id (Option.mem_toList.mp hm)).1
    | created =>
      right
      obtain ⟨ticket, now, drawn, f, rfl, hf, ht, ho⟩ := origins_created h hp rfl
      obtain ⟨user, htask, rfl, rfl⟩ := command_createRecoveryToken ht
      have hfresh := (hd.2 drawn.id (by simp [Command.draws])).2
      exact ⟨ticket, now, drawn, f, user, rfl, hf, htask, rfl, hfresh, rfl, ho _ (by simp [Flight.origin?, htask])⟩

theorem heldToken_cases (h : step s e s') {rt : RecoveryToken} (hr : s'.HeldToken rt) :
    s.HeldToken rt ∨ (s.LiveToken rt ∧ s'.clock ≤ rt.expiresAt) := by
  obtain ⟨f, hf, ht⟩ := hr
  rcases mem_flights h hf with hf | ⟨ticket, now, req, task, rfl, hread, rfl⟩
    | ⟨f₀, h₀, task, hadv, -, -, rfl⟩
  · exact Or.inl ⟨f, hf, ht⟩
  · right
    cases read_cases hread with
    | recoverComplete hlook =>
      cases ht
      obtain ⟨hmem, -, hv, hexp⟩ := recoveryTokenByToken_ok hlook
      rw [step_clock h]
      exact ⟨⟨hmem, hv⟩, hexp⟩
    | _ => cases ht
  · left
    refine ⟨f₀, h₀, ?_⟩
    obtain ⟨ticket, readAt, verifiedAt, t⟩ := f₀
    cases advance_cases hadv with
    | ready => exact ht
    | _ => cases ht

def TokensPinned (s : State) : Prop :=
  Pinned RecoveryToken.id s.LiveToken s.HeldToken s.server.issued

theorem tokensPinned_step (h : step s e s') (hk : s.Known) (hh : s.TokensPinned) : s'.TokensPinned := by
  apply Pinned.step hh (issued_step h)
  · intro r r' hr hr' hid
    exact Table.eq_of_key hr'.1 hr.1 hid
  · intro r hr
    exact token_issued hk hr
  · intro r hr
    rcases liveToken_cases h hr with ⟨hr, -⟩ | ⟨_, _, _, _, _, _, _, _, _, hfresh, _⟩
    · exact Or.inl hr
    · exact Or.inr hfresh
  · intro r hr
    rcases heldToken_cases h hr with hr | ⟨hr, -⟩
    · exact Or.inl hr
    · exact Or.inr hr

def StaleRetired (s : State) : Prop :=
  Retired RecoveryToken.expiresAt s.LiveToken s.StaleToken s.HeldToken s.clock

theorem staleRetired_step (h : Lts.Guarded step TokensRetired s e s') (hk : s.Known) (hr : s.StaleRetired) :
    s'.StaleRetired := by
  obtain ⟨h, hclock, hminted, hretired⟩ := h
  apply Retired.step hr
  · rw [step_clock h]
    cases ht : e.time with
    | none => exact le_rfl
    | some now => exact hclock now ht
  · -- a token just minted is not stale
    intro rt hlive hstale
    rcases liveToken_cases h hlive with ⟨hlive, -⟩
      | ⟨ticket, now, drawn, f, user, rfl, hf, htask, hu, -, hm, ho⟩
    · exact hlive
    · have hclean := hminted f hf
      simp only [Flight.unrotated, htask, Bool.not_eq_true'] at hclean
      unfold StaleToken at hstale
      rw [ho, hu, step_log h, hm, List.append_nil, hclean] at hstale
      cases hstale
  · intro rt hlive hlive' hstale
    unfold StaleToken at hstale ⊢
    rw [origins_issued h (token_issued hk hlive), step_log h] at hstale
    rcases History.since_append hstale with hold | hnew
    · exact Or.inl hold
    · right
      obtain ⟨m, hm, hrep⟩ := List.any_eq_true.mp hnew
      have hleaves : leavesTokens rt.userID m = true := by
        rcases liveToken_cases h hlive' with ⟨-, hkept⟩ | ⟨_, _, _, _, _, _, _, _, _, _, hnone, _⟩
        · cases m with
          | recovered u id =>
            have hu : u = rt.userID := of_decide_eq_true hrep
            exact absurd hu.symm (hkept u id hm)
          | recovery u => exact hrep
          | reset u => exact hrep
          | _ => cases hrep
        · rw [hnone] at hm
          cases hm
      obtain ⟨hexp, hnobody⟩ := hretired m hm rt hlive.1 hleaves hlive.2
      refine ⟨by rw [step_clock h]; exact hexp, ?_⟩
      intro hheld
      rcases heldToken_cases h hheld with ⟨f, hf, ht⟩ | ⟨-, hle⟩
      · exact hnobody f hf ht
      · rw [step_clock h] at hle
        exact absurd hexp (Nat.not_lt.mpr hle)
  · intro rt hlive hheld
    rcases heldToken_cases h hheld with hheld | ⟨-, hle⟩
    · exact Or.inl hheld
    · exact Or.inr hle

theorem tokens_run {es : List Event} (h : Lts.Run (Lts.Guarded step TokensRetired) fresh es s) :
    s.TokensPinned ∧ s.StaleRetired := by
  refine guarded_inv (P := fun s => s.TokensPinned ∧ s.StaleRetired) ⟨?_, ?_⟩ ?_ h
  · intro rt ⟨f, hf, _⟩
    cases hf
  · intro rt ⟨hmem, _⟩
    cases hmem
  · intro s e s' hs hk ⟨hp, hr⟩
    exact ⟨tokensPinned_step hs.1 hk hp, staleRetired_step hs hk hr⟩

theorem completeRecovery_finds {ticket : Nat} {now : Time} {drawn : Drawn} {f : Flight} {rt : RecoveryToken}
    {password : PasswordRotation} {recovery : RecoveryRotation} (hf : s.flights.get? ticket = some f)
    (ht : f.task = .completeRecovery rt password recovery) (hm : s.marks (.commit ticket now drawn) ≠ []) :
    ∃ row, s.LiveToken row ∧ row.id = rt.id := by
  have heffect := account_effect (.completeRecovery now drawn.id rt password recovery) s.db
  simp only [marks, performs, hf, ht, Option.bind_some, Task.command] at hm
  generalize Command.mark s.db (.completeRecovery now drawn.id rt password recovery) = m at heffect hm
  generalize (Command.run _ s.db).toAccounts = a at heffect
  cases heffect with
  | recovered hg hused hu hs =>
    obtain ⟨hmem, hid⟩ := Table.get?_eq_some.mp hg
    exact ⟨_, ⟨hmem, hused⟩, hid⟩
  | _ => exact absurd rfl hm

end State

/-- Where every change retires the tokens it outdates, no recovery completes on
a token whose code has been replaced or cleared since the code was read. -/
theorem recovery_token_dies_with_code {s : State} {es : List Event} {ticket : Nat} {now : Time} {drawn : Drawn}
    (h : Lts.Run (Lts.Guarded State.step TokensRetired) State.fresh es s) {f : Flight} {rt : RecoveryToken}
    {password : PasswordRotation} {recovery : RecoveryRotation} (hf : s.flights.get? ticket = some f)
    (ht : f.task = .completeRecovery rt password recovery) (hm : s.marks (.commit ticket now drawn) ≠ []) :
    History.since s.log (s.origins rt.id).readAt (Mark.replacesRecovery rt.userID) = false := by
  obtain ⟨hrows, hretired⟩ := State.tokens_run h
  obtain ⟨row, hlive, hid⟩ := State.completeRecovery_finds hf ht hm
  have hheld : s.HeldToken rt := ⟨f, (Table.get?_eq_some.mp hf).1, by rw [ht]; rfl⟩
  have hrow : row = rt := (hrows rt hheld).2 row hlive hid
  by_contra hstale
  rw [Bool.not_eq_false] at hstale
  exact (hretired rt (hrow ▸ hlive) hstale).2 hheld

def aliceRecovers : List Event := aliceEnrolls ++ [
  .receive 1 0 (.recover "alice@home" "code-1"), .advance 1, .commit 1 0 ⟨"token-1", "recovery-1", ""⟩,
  .receive 2 0 (.recover "alice@home" "code-1"), .advance 2, .commit 2 0 ⟨"token-2", "recovery-2", ""⟩,
  .receive 3 0 (.recoverComplete "recovery-2" secondPassword secondCode)]

theorem recovery_token_dies_with_code_live :
    History.since (State.script aliceRecovers).log ((State.script aliceRecovers).origins "token-2").readAt
      (Mark.replacesRecovery "alice") = false := by
  have hf : (State.script aliceRecovers).flights.get? 3 =
      some ⟨3, 1, 1, .completeRecovery (newRecoveryToken 0 "token-2" "recovery-2" "alice" recoveryTokenTTL)
        secondPassword secondCode⟩ := by decide
  have hm : (State.script aliceRecovers).marks (.commit 3 0 ⟨"audit-1", "", ""⟩) ≠ [] := by decide
  exact recovery_token_dies_with_code (State.run_guarded_script (by decide)) hf rfl hm

/-- Alice suspects her code has been read and replaces it; whoever read it has a token. -/
def tokenOverRotation : List Event := aliceEnrolls ++ [
  .receive 1 0 (.recover "alice@home" "code-1"), .advance 1, .commit 1 0 ⟨"token-1", "recovery-1", ""⟩,
  .receive 2 0 (.login "alice@home" "password-1" "laptop"), .advance 2,
  .commit 2 0 ⟨"session-1", "access-1", "refresh-1"⟩,
  .receive 3 0 (.rotate "access-1" "password-1" (.recovery secondCode)), .advance 3, .advance 3,
  .commit 3 0 ⟨"audit-1", "", ""⟩,
  .receive 4 0 (.recoverComplete "recovery-1" secondPassword secondCode)]

theorem token_outlives_code :
    ¬ ∀ s es, Lts.Run State.step State.fresh es s → ∀ ticket now drawn f rt password recovery,
      s.flights.get? ticket = some f → f.task = .completeRecovery rt password recovery →
      s.marks (.commit ticket now drawn) ≠ [] →
      History.since s.log (s.origins rt.id).readAt (Mark.replacesRecovery rt.userID) = false := by
  intro h
  have hfresh := h _ tokenOverRotation (State.run_script (by decide)) 4 0 ⟨"audit-2", "", ""⟩
    ⟨4, 2, 2, .completeRecovery (newRecoveryToken 0 "token-1" "recovery-1" "alice" recoveryTokenTTL)
      secondPassword secondCode⟩ _ _ _ (by decide) rfl (by decide)
  exact absurd hfresh (by decide)

end Keyhole.Http
