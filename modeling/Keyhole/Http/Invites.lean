import Keyhole.Http.Auth

/-!
# Invites and the resets that should supersede them

A reset adds an invite and makes the account pending again; the invites that
were there stay.
-/

namespace Keyhole.Http
open Store Sql

def Task.invite? : Task → Option Invite
  | completeEnrollment invite _ => some invite
  | _ => none

/-- The clock does not go back, and a reset finds each invite of the user
spent, or expired and looked up by nobody. -/
def InvitesRetired (s : State) (e : Event) : Prop :=
  (∀ now ∈ e.time, s.clock ≤ now) ∧
  ∀ m ∈ s.marks e, ∀ inv ∈ s.db.invites, m.resets inv.userID = true → inv.usedAt = none →
    inv.expiresAt < e.time.getD s.clock ∧ ∀ f ∈ s.flights, f.task.invite? ≠ some inv

instance (s : State) (e : Event) : Decidable (InvitesRetired s e) := inferInstanceAs (Decidable (_ ∧ _))

namespace State

variable {s s' : State} {e : Event}

def LiveInvite (s : State) (inv : Invite) : Prop := inv ∈ s.db.invites ∧ inv.usedAt = none

def StaleInvite (s : State) (inv : Invite) : Prop :=
  History.since s.log (s.invitedAt inv.id) (Mark.resets inv.userID) = true

def HeldInvite (s : State) (inv : Invite) : Prop := ∃ f ∈ s.flights, f.task.invite? = some inv

theorem invite_issued (hk : s.Known) {inv : Invite} (h : s.LiveInvite inv) : inv.id ∈ s.server.issued :=
  hk.invites inv h.1

theorem liveInvite_cases (h : step s e s') {inv : Invite} (hi : s'.LiveInvite inv) :
    s.LiveInvite inv ∨ (inv.id ∉ s.server.issued ∧ s'.invitedAt inv.id = s'.log.length) := by
  obtain ⟨hmem, hv⟩ := hi
  rcases step_cases h with ⟨hp, hs, hl⟩ | ⟨c, hp, hd, hs, hl⟩
  · rw [db, hs] at hmem
    exact Or.inl ⟨hmem, hv⟩
  · rw [db, hs] at hmem
    have hfrom := (account_effect c s.db).inviteFrom hmem hv
    generalize c.mark s.db = m at hfrom
    cases hfrom with
    | kept hold _ => exact Or.inl ⟨hold, hv⟩
    | created => exact Or.inr ⟨(hd.2 _ (by simp [Command.draws, newInvite])).2, invited_created h hp⟩
    | reset => exact Or.inr ⟨(hd.2 _ (by simp [Command.draws, newInvite])).2, invited_reset h hp⟩

theorem heldInvite_cases (h : step s e s') {inv : Invite} (hi : s'.HeldInvite inv) :
    s.HeldInvite inv ∨ (s.LiveInvite inv ∧ s'.clock ≤ inv.expiresAt) := by
  obtain ⟨f, hf, ht⟩ := hi
  rcases mem_flights h hf with hf | ⟨ticket, now, req, task, rfl, hread, rfl⟩
    | ⟨f₀, h₀, task, hadv, -, -, rfl⟩
  · exact Or.inl ⟨f, hf, ht⟩
  · right
    cases read_cases hread with
    | enroll hlook =>
      cases ht
      obtain ⟨hmem, -, hv, hexp⟩ := inviteByToken_ok hlook
      rw [step_clock h]
      exact ⟨⟨hmem, hv⟩, hexp⟩
    | _ => cases ht
  · left
    refine ⟨f₀, h₀, ?_⟩
    obtain ⟨ticket, readAt, verifiedAt, t⟩ := f₀
    cases advance_cases hadv with
    | ready => exact ht
    | _ => cases ht

def InvitesPinned (s : State) : Prop := Pinned Invite.id s.LiveInvite s.HeldInvite s.server.issued

theorem invitesPinned_step (h : step s e s') (hk : s.Known) (hh : s.InvitesPinned) : s'.InvitesPinned := by
  apply Pinned.step hh (issued_step h)
  · intro r r' hr hr' hid
    exact Table.eq_of_key hr'.1 hr.1 hid
  · intro r hr
    exact invite_issued hk hr
  · intro r hr
    rcases liveInvite_cases h hr with hr | ⟨hfresh, -⟩
    · exact Or.inl hr
    · exact Or.inr hfresh
  · intro r hr
    rcases heldInvite_cases h hr with hr | ⟨hr, -⟩
    · exact Or.inl hr
    · exact Or.inr hr

def StaleInvitesRetired (s : State) : Prop :=
  Retired Invite.expiresAt s.LiveInvite s.StaleInvite s.HeldInvite s.clock

theorem staleInvitesRetired_step (h : Lts.Guarded step InvitesRetired s e s') (hk : s.Known)
    (hr : s.StaleInvitesRetired) : s'.StaleInvitesRetired := by
  obtain ⟨h, hclock, hretired⟩ := h
  apply Retired.step hr
  · rw [step_clock h]
    cases ht : e.time with
    | none => exact le_rfl
    | some now => exact hclock now ht
  · intro inv hlive hstale
    rcases liveInvite_cases h hlive with hlive | ⟨-, hminted⟩
    · exact hlive
    · unfold StaleInvite at hstale
      rw [hminted, History.since_length] at hstale
      cases hstale
  · intro inv hlive hlive' hstale
    unfold StaleInvite at hstale ⊢
    rw [invited_issued h (invite_issued hk hlive), step_log h] at hstale
    rcases History.since_append hstale with hold | hnew
    · exact Or.inl hold
    · right
      obtain ⟨m, hm, hreset⟩ := List.any_eq_true.mp hnew
      obtain ⟨hexp, hnobody⟩ := hretired m hm inv hlive.1 hreset hlive.2
      refine ⟨by rw [step_clock h]; exact hexp, ?_⟩
      intro hheld
      rcases heldInvite_cases h hheld with ⟨f, hf, ht⟩ | ⟨-, hle⟩
      · exact hnobody f hf ht
      · rw [step_clock h] at hle
        exact absurd hexp (Nat.not_lt.mpr hle)
  · intro inv hlive hheld
    rcases heldInvite_cases h hheld with hheld | ⟨-, hle⟩
    · exact Or.inl hheld
    · exact Or.inr hle

theorem invites_run {es : List Event} (h : Lts.Run (Lts.Guarded step InvitesRetired) fresh es s) :
    s.InvitesPinned ∧ s.StaleInvitesRetired := by
  refine guarded_inv (P := fun s => s.InvitesPinned ∧ s.StaleInvitesRetired) ⟨?_, ?_⟩ ?_ h
  · intro inv ⟨f, hf, _⟩
    cases hf
  · intro inv ⟨hmem, _⟩
    cases hmem
  · intro s e s' hs hk ⟨hp, hr⟩
    exact ⟨invitesPinned_step hs.1 hk hp, staleInvitesRetired_step hs hk hr⟩

theorem completeEnrollment_finds {ticket : Nat} {now : Time} {drawn : Drawn} {f : Flight} {invite : Invite}
    {inp : EnrollmentInput} (hf : s.flights.get? ticket = some f) (ht : f.task = .completeEnrollment invite inp)
    (hm : s.marks (.commit ticket now drawn) ≠ []) : ∃ row, s.LiveInvite row ∧ row.id = invite.id := by
  have heffect := account_effect (.completeEnrollment now invite inp) s.db
  simp only [marks, performs, hf, ht, Option.bind_some, Task.command] at hm
  generalize Command.mark s.db (.completeEnrollment now invite inp) = m at heffect hm
  generalize (Command.run _ s.db).toAccounts = a at heffect
  cases heffect with
  | enrolled hg hused hu hs =>
    obtain ⟨hmem, hid⟩ := Table.get?_eq_some.mp hg
    exact ⟨_, ⟨hmem, hused⟩, hid⟩
  | _ => exact absurd rfl hm

end State

/-- Where a reset finds no invite of the user that could still be redeemed, an
enrollment after it succeeds only with an invite minted by it or after it. -/
theorem reset_supersedes_invites {s : State} {es : List Event} {ticket : Nat} {now : Time} {drawn : Drawn}
    (h : Lts.Run (Lts.Guarded State.step InvitesRetired) State.fresh es s) {f : Flight} {invite : Invite}
    {inp : EnrollmentInput} (hf : s.flights.get? ticket = some f) (ht : f.task = .completeEnrollment invite inp)
    (hm : s.marks (.commit ticket now drawn) ≠ []) :
    History.since s.log (s.invitedAt invite.id) (Mark.resets invite.userID) = false := by
  obtain ⟨hpinned, hretired⟩ := State.invites_run h
  obtain ⟨row, hlive, hid⟩ := State.completeEnrollment_finds hf ht hm
  have hheld : s.HeldInvite invite := ⟨f, (Table.get?_eq_some.mp hf).1, by rw [ht]; rfl⟩
  have hrow : row = invite := (hpinned invite hheld).2 row hlive hid
  by_contra hstale
  rw [Bool.not_eq_false] at hstale
  exact (hretired invite (hrow ▸ hlive) hstale).2 hheld

def aliceReset : List Event := adminEnrolls ++ aliceEnrolls ++ [
  .command (.resetUser 0 "invite-2" "audit-1" "link-2" "alice" "admin"), .receive 1 0 (.enroll "link-2" aliceKeys)]

theorem reset_supersedes_invites_new :
    History.since (State.script aliceReset).log ((State.script aliceReset).invitedAt "invite-2")
      (Mark.resets "alice") = false := by
  have hf : (State.script aliceReset).flights.get? 1 =
      some ⟨1, 3, 3, .completeEnrollment (newInvite 0 "invite-2" "link-2" "alice" inviteTTL) aliceKeys⟩ := by decide
  have hm : (State.script aliceReset).marks (.commit 1 0 ⟨"", "", ""⟩) ≠ [] := by decide
  exact reset_supersedes_invites (State.run_guarded_script (by decide)) hf rfl hm

/-- Alice was sent two links and used the second; she is reset, and whoever has the first opens it. -/
def oldLinkAfterReset : List Event := adminEnrolls ++ [
  .command (.createPendingUser 0 "alice" "alice@home" "Alice" "user"),
  .command (.createInvite 0 "invite-1" "link-1" "alice" inviteTTL),
  .command (.createInvite 0 "invite-2" "link-2" "alice" inviteTTL),
  .receive 1 0 (.enroll "link-2" aliceKeys), .commit 1 0 ⟨"", "", ""⟩,
  .command (.resetUser 0 "invite-3" "audit-1" "link-3" "alice" "admin"),
  .receive 2 0 (.enroll "link-1" aliceKeys)]

theorem old_link_survives_reset :
    ¬ ∀ s es, Lts.Run State.step State.fresh es s → ∀ ticket now drawn f invite inp,
      s.flights.get? ticket = some f → f.task = .completeEnrollment invite inp →
      s.marks (.commit ticket now drawn) ≠ [] →
      History.since s.log (s.invitedAt invite.id) (Mark.resets invite.userID) = false := by
  intro h
  have hnew := h _ oldLinkAfterReset (State.run_script (by decide)) 2 0 ⟨"", "", ""⟩
    ⟨2, 3, 3, .completeEnrollment (newInvite 0 "invite-1" "link-1" "alice" inviteTTL) aliceKeys⟩ _ _
    (by decide) rfl (by decide)
  exact absurd hnew (by decide)

end Keyhole.Http
