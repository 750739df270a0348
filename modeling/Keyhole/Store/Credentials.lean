import Keyhole.Store.AccountEffect

/-!
# Where the rows of accounts come from

Each row a command leaves is traced to the row it was, or to what the
command drew. The marks say which rows cannot be among them.
-/

namespace Keyhole.Store
open Sql

/-! ## What a mark means for a user -/

namespace Mark

/-- The password of `userID` was replaced or cleared, and session `id` is not the one it was kept for. -/
def replacesPassword (userID id : Id) : Mark → Bool
  | password u keep => u = userID && keep ≠ id
  | recovered u _ | reset u => u = userID
  | _ => false

def disables (userID : Id) : Mark → Bool
  | disabled u => u = userID
  | _ => false

def endsSession (userID id : Id) (m : Mark) : Bool := m.replacesPassword userID id || m.disables userID

def writesPassword (userID : Id) : Mark → Bool
  | password u _ | recovered u _ | reset u | enrolled u _ => u = userID
  | _ => false

def replacesRecovery (userID : Id) : Mark → Bool
  | recovery u | recovered u _ | reset u => u = userID
  | _ => false

def resets (userID : Id) : Mark → Bool
  | reset u => u = userID
  | _ => false

end Mark

/-! ## Ids -/

structure Accounts.Known (a : Accounts) (issued : List String) : Prop where
  users : ∀ u ∈ a.users, u.id ∈ issued
  invites : ∀ inv ∈ a.invites, inv.id ∈ issued
  recoveryTokens : ∀ rt ∈ a.recoveryTokens, rt.id ∈ issued
  sessions : ∀ s ∈ a.sessions, s.id ∈ issued
  empty : "" ∉ issued

section
variable {κ ρ : Type} {key : ρ → κ} {P : κ → Prop} {t : Table key}

theorem keys_update {p : ρ → Bool} {f : ρ → ρ} (hf : ∀ r, key (f r) = key r) (h : ∀ r ∈ t, P (key r)) :
    ∀ r ∈ t.update p f hf, P (key r) := by
  intro r hr
  rcases Table.mem_update.mp hr with ⟨hr, -⟩ | ⟨r₀, h₀, -, rfl⟩
  · exact h r hr
  · rw [hf]
    exact h r₀ h₀

theorem keys_delete {p : ρ → Bool} (h : ∀ r ∈ t, P (key r)) : ∀ r ∈ t.delete p, P (key r) :=
  fun r hr => h r (Table.mem_delete.mp hr).1

variable [DecidableEq κ]

theorem keys_insert {t' : Table key} {r : ρ} (hi : t.insert? r = some t') (h : ∀ r ∈ t, P (key r))
    (hr : P (key r)) :
    ∀ r ∈ t', P (key r) := by
  intro x hx
  rcases (Table.mem_insert? hi).mp hx with hx | rfl
  · exact h x hx
  · exact hr

theorem keys_upsert {k : κ} {r r' : ρ} (hg : t.get? k = some r) (hk : key r' = key r) (h : ∀ r ∈ t, P (key r)) :
    ∀ x ∈ t.upsert r', P (key x) := by
  intro x hx
  rcases Table.mem_upsert.mp hx with ⟨hx, -⟩ | rfl
  · exact h x hx
  · rw [hk]
    exact h r (Table.get?_eq_some.mp hg).1

end

variable {db : Db} {c : Command} {m : Option Mark} {a : Accounts}

theorem Accounts.Known.mono {a : Accounts} {issued drawn : List String} (h : a.Known issued) (hd : "" ∉ drawn) :
    a.Known (drawn ++ issued) where
  users u hu := List.mem_append_right _ (h.users u hu)
  invites inv hi := List.mem_append_right _ (h.invites inv hi)
  recoveryTokens rt hr := List.mem_append_right _ (h.recoveryTokens rt hr)
  sessions s hs := List.mem_append_right _ (h.sessions s hs)
  empty he := (List.mem_append.mp he).elim hd h.empty

theorem mem_touched {now : Time} {id : Id} {sessions : Table Session.id} {s : Session}
    (hs : s ∈ sessions.update (fun s => s.id = id && s.revokedAt.isNone) (·.touched now)) :
    ∃ s₀ ∈ sessions, s.id = s₀.id ∧ s.userID = s₀.userID ∧ s.refreshHash = s₀.refreshHash ∧
      s.revokedAt = s₀.revokedAt := by
  rcases Table.mem_update.mp hs with ⟨hs, -⟩ | ⟨s₀, h₀, -, rfl⟩
  · exact ⟨s, hs, rfl, rfl, rfl, rfl⟩
  · exact ⟨s₀, h₀, rfl, rfl, rfl, rfl⟩

theorem ids_revoked {P : Id → Prop} {now : Time} {which : Session → Bool} {sessions : Table Session.id}
    (h : ∀ s ∈ sessions, P s.id) :
    ∀ s ∈ sessions.update (fun s => which s && s.revokedAt.isNone) (·.revoked now), P s.id :=
  keys_update (f := (·.revoked now)) (fun _ => rfl) h

theorem ids_retired {P : Id → Prop} {now : Time} {id userID : Id} {tokens : Table RecoveryToken.id}
    (h : ∀ rt ∈ tokens, P rt.id) : ∀ rt ∈ retireTokens now id userID tokens, P rt.id :=
  keys_update (f := fun t : RecoveryToken => t.spent now) (fun _ => rfl)
    (keys_update (f := fun t : RecoveryToken => t.spent now) (fun _ => rfl) h)

theorem AccountEffect.known (h : AccountEffect db c m a) {issued : List String} (hd : Server.Draws issued c.draws)
    (hk : db.Known issued) : a.Known (c.draws ++ issued) := by
  have hempty : "" ∉ c.draws := fun he => (hd.2 _ he).1 rfl
  have hk' := hk.mono hempty
  cases h with
  | still => exact hk'
  | userCreated row hid hs hi => exact { hk' with users := keys_insert hi hk'.users (by simp [hid, Command.draws]) }
  | inviteCreated hi =>
    exact { hk' with invites := keys_insert hi hk'.invites (by simp [newInvite, Command.draws]) }
  | enrolled hi hused hu hs =>
    exact { hk' with invites := keys_upsert hi rfl hk'.invites, users := keys_upsert hu rfl hk'.users }
  | sessionCreated hi =>
    exact { hk' with sessions := keys_insert hi hk'.sessions (by simp [newSession, Command.draws]) }
  | sessionRotated hs hr hv => exact { hk' with sessions := keys_upsert hs rfl hk'.sessions }
  | sessionTouched =>
    refine { hk' with sessions := ?_ }
    intro s hs
    obtain ⟨s₀, h₀, hid, -, -, -⟩ := mem_touched hs
    exact hid ▸ hk'.sessions s₀ h₀
  | sessionsRevoked _ which => exact { hk' with sessions := ids_revoked hk'.sessions }
  | passwordRotated hu hs =>
    exact { hk' with users := keys_upsert hu rfl hk'.users, sessions := ids_revoked hk'.sessions }
  | recoveryRotated hu hs => exact { hk' with users := keys_upsert hu rfl hk'.users }
  | tokenCreated hi =>
    exact { hk' with
      recoveryTokens := keys_insert hi hk'.recoveryTokens (by simp [newRecoveryToken, Command.draws]) }
  | recovered ht hused hu hs =>
    exact { hk' with
      recoveryTokens := ids_retired hk'.recoveryTokens
      users := keys_upsert hu rfl hk'.users
      sessions := ids_revoked hk'.sessions }
  | enabled hu => exact { hk' with users := keys_upsert hu rfl hk'.users }
  | disabled hu => exact { hk' with users := keys_upsert hu rfl hk'.users, sessions := ids_revoked hk'.sessions }
  | reset hu hi =>
    exact { hk' with
      users := keys_upsert hu rfl hk'.users
      sessions := ids_revoked hk'.sessions
      invites := keys_insert hi hk'.invites (by simp [newInvite, Command.draws]) }
  | userDeleted =>
    exact {
      users := keys_delete hk'.users
      invites := keys_delete hk'.invites
      recoveryTokens := keys_delete hk'.recoveryTokens
      sessions := keys_delete hk'.sessions
      empty := hk'.empty }

/-! ## The tokens of sessions -/

/-- Both its hashes are of tokens that were drawn. -/
def Session.Minted (issued : List String) (s : Session) : Prop :=
  (∃ tok ∈ issued, s.tokenHash = hashToken tok) ∧ ∃ tok ∈ issued, s.refreshHash = hashToken tok

theorem Session.Minted.mono {issued issued' : List String} {s : Session} (h : s.Minted issued)
    (hi : ∀ tok ∈ issued, tok ∈ issued') : s.Minted issued' := by
  obtain ⟨⟨tok, htok, hs⟩, ⟨tok', htok', hs'⟩⟩ := h
  exact ⟨⟨tok, hi tok htok, hs⟩, ⟨tok', hi tok' htok', hs'⟩⟩

theorem minted_update {issued : List String} {sessions : Table Session.id} {p : Session → Bool}
    {f : Session → Session} (hf : ∀ s, (f s).id = s.id)
    (hkeep : ∀ s, (f s).tokenHash = s.tokenHash ∧ (f s).refreshHash = s.refreshHash)
    (h : ∀ s ∈ sessions, s.Minted issued) : ∀ s ∈ sessions.update p f hf, s.Minted issued := by
  intro s hs
  rcases Table.mem_update.mp hs with ⟨hs, -⟩ | ⟨s₀, h₀, -, rfl⟩
  · exact h s hs
  · unfold Session.Minted
    rw [(hkeep s₀).1, (hkeep s₀).2]
    exact h s₀ h₀

theorem AccountEffect.minted (h : AccountEffect db c m a) {issued : List String}
    (hm : ∀ s ∈ db.sessions, s.Minted issued) : ∀ s ∈ a.sessions, s.Minted (c.draws ++ issued) := by
  have hm' : ∀ s ∈ db.sessions, s.Minted (c.draws ++ issued) :=
    fun s hs => (hm s hs).mono fun _ => List.mem_append_right _
  cases h with
  | sessionCreated hi =>
    intro s hs
    rcases (Table.mem_insert? hi).mp hs with hs | rfl
    · exact hm' s hs
    · exact ⟨⟨_, by simp [Command.draws], rfl⟩, ⟨_, by simp [Command.draws], rfl⟩⟩
  | sessionRotated hs hr hv =>
    intro s hs
    rcases Table.mem_upsert.mp hs with ⟨hs, -⟩ | rfl
    · exact hm' s hs
    · exact ⟨⟨_, by simp [Command.draws], rfl⟩, ⟨_, by simp [Command.draws], rfl⟩⟩
  | sessionTouched => exact minted_update (f := fun s => s.touched _) (fun _ => rfl) (fun _ => ⟨rfl, rfl⟩) hm'
  | sessionsRevoked | passwordRotated | recovered | disabled | reset =>
    exact minted_update (f := fun s => s.revoked _) (fun _ => rfl) (fun _ => ⟨rfl, rfl⟩) hm'
  | userDeleted => exact fun s hs => hm' s (Table.mem_delete.mp hs).1
  | _ => exact hm'

/-- A row with two new tokens meets none of the others. -/
theorem hashesFree_of_minted {issued : List String} {access refresh : String} {row : Session}
    (hm : ∀ s ∈ db.sessions, s.Minted issued) (ha : access ∉ issued) (hr : refresh ∉ issued)
    (hrow : row.tokenHash = hashToken access ∧ row.refreshHash = hashToken refresh) : hashesFree db row = true := by
  unfold hashesFree
  rw [Bool.not_eq_true', Table.any_eq_false]
  intro s hs
  obtain ⟨⟨tok, htok, hh⟩, ⟨tok', htok', hh'⟩⟩ := hm s hs
  have haccess : s.tokenHash ≠ row.tokenHash := by
    rw [hh, hrow.1]
    intro heq
    exact ha (hashToken_inj heq ▸ htok)
  have hrefresh : s.refreshHash ≠ row.refreshHash := by
    rw [hh', hrow.2]
    intro heq
    exact hr (hashToken_inj heq ▸ htok')
  simp [haccess, hrefresh]

/-! ## Sessions -/

/-- What an unrevoked session was before the command. -/
inductive SessionFrom (db : Db) : Command → Option Mark → Session → Prop
  | kept {c : Command} {m : Option Mark} {s s' : Session} (hs : s ∈ db.sessions) (hv : s.revokedAt = none)
      (hid : s'.id = s.id) (hu : s'.userID = s.userID) (hr : s'.refreshHash = s.refreshHash)
      (hm : ∀ x ∈ m, x.endsSession s.userID s.id = false ∧ ∀ tok, x ≠ .refreshed s.id tok) :
        SessionFrom db c m s'
  | rotated {now : Time} {session s : Session} {refresh newAccess newRefresh : String}
      (hs : db.sessions.get? session.id = some s) (hr : s.refreshHash = hashToken refresh)
      (hv : s.revokedAt = none) :
      SessionFrom db (.rotateSession now session refresh newAccess newRefresh)
        (some (.refreshed session.id refresh))
        (s.rotated now newAccess newRefresh)
  | created {now : Time} {id : Id} {access refresh : String} {userID : Id} {label : String} :
      SessionFrom db (.createSession now id access refresh userID label) none
        (newSession now id access refresh userID label)

theorem SessionFrom.same {s : Session} (hs : s ∈ db.sessions) (hv : s.revokedAt = none)
    (hm : ∀ x ∈ m, x.endsSession s.userID s.id = false ∧ ∀ tok, x ≠ .refreshed s.id tok) :
    SessionFrom db c m s :=
  .kept hs hv rfl rfl rfl hm

theorem mem_revoked {now : Time} {which : Session → Bool} {sessions : Table Session.id} {s : Session}
    (hs : s ∈ sessions.update (fun s => which s && s.revokedAt.isNone) (·.revoked now)) (hv : s.revokedAt = none) :
    s ∈ sessions ∧ which s = false := by
  rcases Table.mem_update.mp hs with ⟨hs, hw⟩ | ⟨s₀, -, -, rfl⟩
  · rw [hv] at hw
    exact ⟨hs, by simpa using hw⟩
  · cases hv

theorem AccountEffect.sessionFrom (h : AccountEffect db c m a) (hne : ∀ s ∈ db.sessions, s.id ≠ "") {s : Session}
    (hs : s ∈ a.sessions) (hv : s.revokedAt = none) : SessionFrom db c m s := by
  cases h with
  | sessionCreated hi =>
    rcases (Table.mem_insert? hi).mp hs with hs | rfl
    · exact .same hs hv (by simp)
    · exact .created
  | @sessionRotated now session s₀ refresh _ _ hg hr hv₀ =>
    rcases Table.mem_upsert.mp hs with ⟨hs, hk⟩ | rfl
    · refine .same hs hv ?_
      intro x hx
      cases hx
      refine ⟨rfl, ?_⟩
      intro tok htok
      injection htok with hid
      exact hk (hid.symm.trans (Table.get?_eq_some.mp hg).2.symm)
    · exact .rotated hg hr hv₀
  | sessionTouched =>
    obtain ⟨s₀, h₀, hid, hu, hr, hv₀⟩ := mem_touched hs
    exact .kept h₀ (hv₀ ▸ hv) hid hu hr (by simp)
  | sessionsRevoked _ which => exact .same (mem_revoked hs hv).1 hv (by simp)
  | @passwordRotated now auditID userID keep inp u hu hst =>
    obtain ⟨hs, hw⟩ := mem_revoked hs hv
    refine .same hs hv ?_
    intro x hx
    cases hx
    refine ⟨?_, by simp⟩
    simp only [Mark.endsSession, Mark.replacesPassword, Mark.disables, Bool.or_false]
    by_cases hu : userID = s.userID
    · have hkeep : s.id = keep := by simpa [hu] using hw
      simp [hkeep]
    · simp [hu]
  | @recovered now auditID rt t password recovery u ht hused hu hst =>
    obtain ⟨hs, hw⟩ := mem_revoked hs hv
    refine .same hs hv ?_
    intro x hx
    cases hx
    refine ⟨?_, by simp⟩
    have hother : s.userID ≠ rt.userID := by simpa [hne s hs] using hw
    simpa [Mark.endsSession, Mark.replacesPassword, Mark.disables] using Ne.symm hother
  | disabled hu =>
    obtain ⟨hs, hw⟩ := mem_revoked hs hv
    refine .same hs hv ?_
    intro x hx
    cases hx
    have hother := of_decide_eq_false hw
    simpa [Mark.endsSession, Mark.replacesPassword, Mark.disables] using Ne.symm hother
  | reset hu hi =>
    obtain ⟨hs, hw⟩ := mem_revoked hs hv
    refine .same hs hv ?_
    intro x hx
    cases hx
    have hother := of_decide_eq_false hw
    simpa [Mark.endsSession, Mark.replacesPassword, Mark.disables] using Ne.symm hother
  | userDeleted => exact .same (Table.mem_delete.mp hs).1 hv (by simp)
  | _ => exact .same hs hv (by simp_all [Mark.endsSession, Mark.replacesPassword, Mark.disables])

/-! ## Invites and recovery tokens -/

inductive InviteFrom (db : Db) : Command → Option Mark → Invite → Prop
  | kept {c : Command} {m : Option Mark} {inv : Invite} (hi : inv ∈ db.invites)
      (hm : ∀ u, m ≠ some (.enrolled u inv.id)) : InviteFrom db c m inv
  | created {now : Time} {id : Id} {token : String} {userID : Id} {ttl : Time} :
      InviteFrom db (.createInvite now id token userID ttl) none (newInvite now id token userID ttl)
  | reset {now : Time} {inviteID auditID : Id} {token : String} {userID actorID : Id} :
      InviteFrom db (.resetUser now inviteID auditID token userID actorID) (some (.reset userID))
        (newInvite now inviteID token userID inviteTTL)

theorem AccountEffect.inviteFrom (h : AccountEffect db c m a) {inv : Invite} (hi : inv ∈ a.invites)
    (hv : inv.usedAt = none) : InviteFrom db c m inv := by
  cases h with
  | inviteCreated hins =>
    rcases (Table.mem_insert? hins).mp hi with hi | rfl
    · exact .kept hi (by simp)
    · exact .created
  | enrolled hg hused hu hs =>
    rcases Table.mem_upsert.mp hi with ⟨hi, hk⟩ | rfl
    · refine .kept hi ?_
      intro u hm
      injection hm with hm
      injection hm with _ hid
      exact hk (hid.symm.trans (Table.get?_eq_some.mp hg).2.symm)
    · cases hv
  | reset hu hins =>
    rcases (Table.mem_insert? hins).mp hi with hi | rfl
    · exact .kept hi (by simp)
    · exact .reset
  | userDeleted => exact .kept (Table.mem_delete.mp hi).1 (by simp)
  | _ => exact .kept hi (by simp)

inductive TokenFrom (db : Db) : Command → Option Mark → RecoveryToken → Prop
  | kept {c : Command} {m : Option Mark} {rt : RecoveryToken} (hr : rt ∈ db.recoveryTokens)
      (hm : ∀ u id, m = some (.recovered u id) → rt.userID ≠ u ∧ rt.id ≠ id) : TokenFrom db c m rt
  | created {now : Time} {id : Id} {token : String} {userID : Id} {ttl : Time} :
      TokenFrom db (.createRecoveryToken now id token userID ttl) none (newRecoveryToken now id token userID ttl)

theorem mem_retired {now : Time} {id userID : Id} {tokens : Table RecoveryToken.id} {rt : RecoveryToken}
    (h : rt ∈ retireTokens now id userID tokens) (hv : rt.usedAt = none) :
    rt ∈ tokens ∧ rt.userID ≠ userID ∧ rt.id ≠ id := by
  rcases Table.mem_update.mp h with ⟨h, hw⟩ | ⟨t₀, -, -, rfl⟩
  · rcases Table.mem_update.mp h with ⟨h, hw'⟩ | ⟨t₀, -, -, rfl⟩
    · rw [hv] at hw hw'
      exact ⟨h, by simpa using hw, by simpa using hw'⟩
    · cases hv
  · cases hv

theorem AccountEffect.tokenFrom (h : AccountEffect db c m a) {rt : RecoveryToken} (hr : rt ∈ a.recoveryTokens)
    (hv : rt.usedAt = none) : TokenFrom db c m rt := by
  cases h with
  | tokenCreated hins =>
    rcases (Table.mem_insert? hins).mp hr with hr | rfl
    · exact .kept hr (by simp)
    · exact .created
  | recovered ht hused hu hs =>
    obtain ⟨hr, hu', hid⟩ := mem_retired hr hv
    refine .kept hr ?_
    intro u id hm
    cases hm
    exact ⟨hu', hid⟩
  | userDeleted => exact .kept (Table.mem_delete.mp hr).1 (by simp)
  | _ => exact .kept hr (by simp)

/-! ## Users -/

theorem userFrom_upsert {k : Id} {u u' x : User} {users : Table User.id} (hg : users.get? k = some u)
    (hx : x ∈ users.upsert u') (hid : u'.id = u.id)
    (hw : u'.authHash = u.authHash ∨ ∃ y ∈ m, y.writesPassword k = true) :
    ∃ y ∈ users, y.id = x.id ∧ (x.authHash = y.authHash ∨ ∃ z ∈ m, z.writesPassword y.id = true) := by
  rcases Table.mem_upsert.mp hx with ⟨hx, -⟩ | rfl
  · exact ⟨x, hx, rfl, Or.inl rfl⟩
  · obtain ⟨hu, rfl⟩ := Table.get?_eq_some.mp hg
    exact ⟨u, hu, hid.symm, hw⟩

theorem AccountEffect.userFrom (h : AccountEffect db c m a) {u' : User} (hu' : u' ∈ a.users) :
    (∃ u ∈ db.users, u.id = u'.id ∧ (u'.authHash = u.authHash ∨ ∃ x ∈ m, x.writesPassword u.id = true)) ∨
    u'.id ∈ c.draws := by
  cases h with
  | userCreated row hid hs hi =>
    rcases (Table.mem_insert? hi).mp hu' with hu' | rfl
    · exact Or.inl ⟨u', hu', rfl, Or.inl rfl⟩
    · right
      simp [Command.draws, hid]
  | enrolled hi hused hg hs => exact Or.inl (userFrom_upsert hg hu' rfl
    (Or.inr ⟨_, rfl, by simp [Mark.writesPassword]⟩))
  | passwordRotated hg hs =>
    exact Or.inl (userFrom_upsert hg hu' rfl (Or.inr ⟨_, rfl, by simp [Mark.writesPassword]⟩))
  | recovered ht hused hg hs => exact Or.inl (userFrom_upsert hg hu' rfl
    (Or.inr ⟨_, rfl, by simp [Mark.writesPassword]⟩))
  | reset hg hi => exact Or.inl (userFrom_upsert hg hu' rfl (Or.inr ⟨_, rfl, by simp [Mark.writesPassword]⟩))
  | recoveryRotated hg hs => exact Or.inl (userFrom_upsert hg hu' rfl (Or.inl rfl))
  | enabled hg => exact Or.inl (userFrom_upsert hg hu' rfl (Or.inl rfl))
  | disabled hg => exact Or.inl (userFrom_upsert hg hu' rfl (Or.inl rfl))
  | userDeleted => exact Or.inl ⟨u', (Table.mem_delete.mp hu').1, rfl, Or.inl rfl⟩
  | _ => exact Or.inl ⟨u', hu', rfl, Or.inl rfl⟩

end Keyhole.Store
