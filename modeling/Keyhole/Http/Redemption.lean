import Keyhole.Store.References
import Keyhole.Http.Invites
import Keyhole.Http.Recovery

/-!
# Single use, all or nothing

Enrollment, recovery and refresh look a token up first and spend it later.
The guard of the UPDATE that spends it decides who was first, and what
follows it is in the same commit.
-/

namespace Keyhole.Http
open Store Sql

/-! ## What a mark redeems -/

def invite? : Mark → Option Id
  | .enrolled _ inviteID => some inviteID
  | _ => none

def recoveryToken? : Mark → Option Id
  | .recovered _ tokenID => some tokenID
  | _ => none

def refreshToken? : Mark → Option String
  | .refreshed _ refreshToken => some refreshToken
  | _ => none

/-! ## What a commit writes -/

structure HoldsKeys (inp : EnrollmentInput) (u : User) : Prop where
  kdfSalt : u.kdfSalt = some inp.kdfSalt
  kdfParams : u.kdfParams = some inp.kdfParams
  authHash : u.authHash = some inp.authHash
  protectedUserKey : u.protectedUserKey = some inp.protectedUserKey
  publicKey : u.publicKey = some inp.publicKey
  encryptedPrivateKey : u.encryptedPrivateKey = some inp.encryptedPrivateKey
  recoverySalt : u.recoverySalt = some inp.recoverySalt
  recoveryKDFParams : u.recoveryKDFParams = some inp.recoveryKDFParams
  recoveryProtectedUserKey : u.recoveryProtectedUserKey = some inp.recoveryProtectedUserKey
  recoveryAuthHash : u.recoveryAuthHash = some inp.recoveryAuthHash

structure HoldsPassword (inp : PasswordRotation) (u : User) : Prop where
  kdfSalt : u.kdfSalt = some inp.kdfSalt
  kdfParams : u.kdfParams = some inp.kdfParams
  authHash : u.authHash = some inp.authHash
  protectedUserKey : u.protectedUserKey = some inp.protectedUserKey

structure HoldsRecovery (inp : RecoveryRotation) (u : User) : Prop where
  recoverySalt : u.recoverySalt = some inp.recoverySalt
  recoveryKDFParams : u.recoveryKDFParams = some inp.recoveryKDFParams
  recoveryProtectedUserKey : u.recoveryProtectedUserKey = some inp.recoveryProtectedUserKey
  recoveryAuthHash : u.recoveryAuthHash = some inp.recoveryAuthHash

structure CanEnroll (invite : Invite) (db : Db) : Prop where
  unspent : ∃ inv, db.invites.get? invite.id = some inv ∧ inv.usedAt = none
  pending : ∃ u, db.users.get? invite.userID = some u ∧ u.status = .pending

structure Enrolled (now : Time) (invite : Invite) (inp : EnrollmentInput) (db db' : Db) : Prop where
  spent : ∃ inv, db'.invites.get? invite.id = some inv ∧ inv.usedAt = some (stamp now)
  enrolled : ∃ u, db'.users.get? invite.userID = some u ∧ u.status = .active ∧ HoldsKeys inp u
  otherInvites : ∀ id, id ≠ invite.id → db'.invites.get? id = db.invites.get? id
  otherUsers : ∀ id, id ≠ invite.userID → db'.users.get? id = db.users.get? id
  rest : db' = { db with invites := db'.invites, users := db'.users }

structure CanRecover (rt : RecoveryToken) (db : Db) : Prop where
  unspent : ∃ t, db.recoveryTokens.get? rt.id = some t ∧ t.usedAt = none
  active : ∃ u, db.users.get? rt.userID = some u ∧ u.status = .active

structure Recovered (now : Time) (rt : RecoveryToken) (password : PasswordRotation) (recovery : RecoveryRotation)
    (db db' : Db) : Prop where
  spent : ∃ t, db'.recoveryTokens.get? rt.id = some t ∧ t.usedAt = some (stamp now)
  replaced : ∃ u, db'.users.get? rt.userID = some u ∧ u.status = .active ∧ HoldsPassword password u ∧
    HoldsRecovery recovery u
  signedOut : ∀ s ∈ db'.sessions, s.userID = rt.userID → s.revokedAt ≠ none
  otherUsers : ∀ id, id ≠ rt.userID → db'.users.get? id = db.users.get? id
  otherSessions : ∀ s, s.userID ≠ rt.userID → (s ∈ db'.sessions ↔ s ∈ db.sessions)
  otherTokens : ∀ t, t.id ≠ rt.id → t.userID ≠ rt.userID →
    (t ∈ db'.recoveryTokens ↔ t ∈ db.recoveryTokens)
  rest : db' = { db with
    recoveryTokens := db'.recoveryTokens, users := db'.users, sessions := db'.sessions, auditLog := db'.auditLog }

def CanRefresh (session : Session) (refreshToken : String) (db : Db) : Prop :=
  ∃ s, db.sessions.get? session.id = some s ∧ s.refreshHash = hashToken refreshToken ∧ s.revokedAt = none

structure Refreshed (session : Session) (refreshToken newAccess newRefresh : String) (db db' : Db) : Prop where
  rotated : ∃ s, db'.sessions.get? session.id = some s ∧ s.revokedAt = none ∧
    s.tokenHash = hashToken newAccess ∧
    s.refreshHash = hashToken newRefresh
  spent : newRefresh ≠ refreshToken
  otherSessions : ∀ id, id ≠ session.id → db'.sessions.get? id = db.sessions.get? id
  rest : db' = { db with sessions := db'.sessions }

theorem completeEnrollmentTx_enrolled {now : Time} {invite : Invite} {inp : EnrollmentInput} {db db' : Db}
    {user : User} (h : (completeEnrollmentTx now invite inp).exec db = .ok (user, db')) :
    CanEnroll invite db ∧ Enrolled now invite inp db db' := by
  obtain ⟨inv, u, hi, hused, hu, hs, rfl, rfl⟩ := completeEnrollmentTx_ok h
  obtain ⟨hinvite, hinvites⟩ := Table.upsert_at (inv.spent now) hi rfl
  obtain ⟨huser, husers⟩ := Table.upsert_at (u.enrolled now inp) hu rfl
  refine ⟨⟨⟨inv, hi, hused⟩, ⟨u, hu, hs⟩⟩, ⟨_, hinvite, rfl⟩, ⟨_, huser, rfl, ?_⟩, hinvites,
    husers, rfl⟩
  exact ⟨rfl, rfl, rfl, rfl, rfl, rfl, rfl, rfl, rfl, rfl⟩

theorem mem_retireTokens {now : Time} {tokens : Table RecoveryToken.id} {id userID : Id} {t : RecoveryToken}
    (hid : t.id ≠ id) (hu : t.userID ≠ userID) : t ∈ retireTokens now id userID tokens ↔ t ∈ tokens := by
  refine (Table.mem_update_iff (by simp [hu]) ?_).trans (Table.mem_update_iff (by simp [hid]) ?_)
  · rintro t₀ h₀ rfl
    simp only [Bool.and_eq_true, decide_eq_true_eq] at h₀
    exact hu h₀.1
  · rintro t₀ h₀ rfl
    simp only [Bool.and_eq_true, decide_eq_true_eq] at h₀
    exact hid h₀.1

theorem get_retireTokens {now : Time} {tokens : Table RecoveryToken.id} {id userID : Id} {t : RecoveryToken}
    (hg : tokens.get? id = some t) (hused : t.usedAt = none) :
    (retireTokens now id userID tokens).get? id = some (t.spent now) := by
  obtain ⟨hmem, hid⟩ := Table.get?_eq_some.mp hg
  refine Table.get?_eq_some.mpr ⟨?_, hid⟩
  refine Table.mem_update.mpr (.inl ⟨Table.mem_update.mpr (.inr ⟨t, hmem, by simp [hid, hused], rfl⟩), ?_⟩)
  simp [RecoveryToken.spent]

theorem mem_endOtherSessions {now : Time} {userID keep : Id} {sessions : Table Session.id} {s : Session} :
    s ∈ endOtherSessions now userID keep sessions ↔
      (s ∈ sessions ∧ ((s.userID = userID && s.id ≠ keep) && s.revokedAt.isNone) = false) ∨
      ∃ s₀ ∈ sessions, ((s₀.userID = userID && s₀.id ≠ keep) && s₀.revokedAt.isNone) = true ∧
        s₀.revoked now = s :=
  @Table.mem_update _ _ _ _ _ _ (Session.revoked_id now) _

theorem completeRecoveryTx_recovered {now : Time} {auditID : Id} {rt : RecoveryToken} {password : PasswordRotation}
    {recovery : RecoveryRotation} {db db' : Db} {r : Unit} (hids : ∀ s ∈ db.sessions, s.id ≠ "")
    (h : (completeRecoveryTx now auditID rt password recovery).exec db = .ok (r, db')) :
    CanRecover rt db ∧ Recovered now rt password recovery db db' := by
  obtain ⟨t, u, auditLog, ht, hused, hu, hs, rfl⟩ := completeRecoveryTx_ok h
  obtain ⟨huser, husers⟩ :=
    Table.upsert_at ((u.passwordRotated now password).recoveryRotated now recovery) hu rfl
  refine ⟨⟨⟨t, ht, hused⟩, ⟨u, hu, hs⟩⟩, ⟨_, get_retireTokens ht hused, rfl⟩,
    ⟨_, huser, hs, ⟨rfl, rfl, rfl, rfl⟩, ⟨rfl, rfl, rfl, rfl⟩⟩, ?_, husers, ?_, ?_, rfl⟩
  · intro s hsession howner
    rcases mem_endOtherSessions.mp hsession with ⟨hmem, hp⟩ | ⟨s₀, -, -, rfl⟩
    · simpa [howner, hids s hmem, Option.isSome_iff_ne_none] using hp
    · simp [Session.revoked]
  · intro s hother
    refine @Table.mem_update_iff _ _ _ _ _ _ (Session.revoked_id now) _ (by simp [hother]) ?_
    rintro s₀ h₀ rfl
    simp only [Bool.and_eq_true, decide_eq_true_eq] at h₀
    exact hother h₀.1.1
  · exact fun t hid howner => mem_retireTokens hid howner

theorem rotateSessionTx_refreshed {now : Time} {session s' : Session} {refreshToken newAccess newRefresh : String}
    {db db' : Db} (hnew : newRefresh ≠ refreshToken)
    (h : (rotateSessionTx now session refreshToken newAccess newRefresh).exec db = .ok (s', db')) :
    CanRefresh session refreshToken db ∧ Refreshed session refreshToken newAccess newRefresh db db' := by
  obtain ⟨s, hs, hhash, hv, -, -, rfl⟩ := rotateSessionTx_ok h
  obtain ⟨hrow, hrows⟩ := Table.upsert_at (s.rotated now newAccess newRefresh) hs rfl
  exact ⟨⟨s, hs, hhash, hv⟩, ⟨_, hrow, hv, rfl, rfl⟩, hnew, hrows, rfl⟩

/-! ## One commit -/

/-- A call that succeeds found what it needs, has done `done` and is in the history as `m`; one that fails did not
find it, is not in the history, and leaves the database it found. -/
def AllOrNothing {α : Type} (result : Except StoreError α × Db) (db db' : Db) (marks : List Mark) (m : Mark)
    (able done : Prop) : Prop :=
  result.2 = db' ∧
  match result.1 with
  | .ok _ => able ∧ done ∧ marks = [m]
  | .error _ => ¬ able ∧ db' = db ∧ marks = []

def Task.Redeems (now : Time) (drawn : Drawn) (db db' : Db) (marks : List Mark) : Task → Prop
  | completeEnrollment invite inp =>
    AllOrNothing ((completeEnrollmentTx now invite inp).transact db) db db' marks
      (.enrolled invite.userID invite.id) (CanEnroll invite db) (Enrolled now invite inp db db')
  | completeRecovery rt password recovery =>
    AllOrNothing ((completeRecoveryTx now drawn.id rt password recovery).transact db) db db' marks
      (.recovered rt.userID rt.id) (CanRecover rt db) (Recovered now rt password recovery db db')
  | rotateSession session refreshToken =>
    AllOrNothing ((rotateSessionTx now session refreshToken drawn.token drawn.refresh).autocommit db) db db' marks
      (.refreshed session.id refreshToken) (CanRefresh session refreshToken db)
      (Refreshed session refreshToken drawn.token drawn.refresh db db')
  | _ => True

/-- What the draws of a commit are beside a database. -/
structure Unseen (issued : List String) (db : Db) : Prop where
  ids : ∀ s ∈ db.sessions, s.id ≠ ""
  audited : ∀ e ∈ db.auditLog, e.id ∈ issued
  minted : ∀ s ∈ db.sessions, s.Minted issued

theorem task_redeems {t : Task} {now : Time} {drawn : Drawn} {c : Command} (h : t.command now drawn = some c)
    {issued : List String} {db : Db} (hu : Unseen issued db) (hd : Server.Draws issued c.draws) :
    t.Redeems now drawn db (c.run db) (c.mark db).toList := by
  cases t with
  | completeEnrollment invite inp =>
    cases h
    refine ⟨rfl, ?_⟩
    simp only [Command.run, Command.mark]
    rcases Prog.transact_cases (completeEnrollmentTx now invite inp) db with ⟨r, db', hx, ht⟩ | ⟨e, ht⟩
    · rw [ht]
      obtain ⟨hable, hdone⟩ := completeEnrollmentTx_enrolled hx
      exact ⟨hable, hdone, rfl⟩
    · rw [ht]
      refine ⟨?_, rfl, rfl⟩
      rintro ⟨⟨inv, hi, hused⟩, ⟨u, huser, hs⟩⟩
      obtain ⟨r, hr⟩ := completeEnrollmentTx_able now inp hi hused huser hs
      rw [Prog.transact_of_exec hr] at ht
      cases ht
  | completeRecovery rt password recovery =>
    cases h
    refine ⟨rfl, ?_⟩
    simp only [Command.run, Command.mark]
    rcases Prog.transact_cases (completeRecoveryTx now drawn.id rt password recovery) db with
      ⟨r, db', hx, ht⟩ | ⟨e, ht⟩
    · rw [ht]
      obtain ⟨hable, hdone⟩ := completeRecoveryTx_recovered hu.ids hx
      exact ⟨hable, hdone, rfl⟩
    · rw [ht]
      refine ⟨?_, rfl, rfl⟩
      rintro ⟨⟨t, htok, hused⟩, ⟨u, huser, hs⟩⟩
      have hid : db.auditLog.get? drawn.id = none := by
        refine Table.get?_eq_none.mpr fun e he heq => (hd.2 drawn.id (by simp [Command.draws])).2 ?_
        rw [← heq]
        exact hu.audited e he
      obtain ⟨r, hr⟩ := completeRecoveryTx_able now password recovery
        htok hused huser hs hid
      rw [Prog.transact_of_exec hr] at ht
      cases ht
  | rotateSession session refreshToken =>
    cases h
    refine ⟨rfl, ?_⟩
    simp only [Command.run, Command.mark]
    have haccess := (hd.2 drawn.token (by simp [Command.draws])).2
    have hrefresh := (hd.2 drawn.refresh (by simp [Command.draws])).2
    rcases rotateSession_cases now session refreshToken drawn.token drawn.refresh db with
      ⟨s', hx, hr⟩ | ⟨e, ht⟩
    · rw [hr]
      have hnew : drawn.refresh ≠ refreshToken := by
        rintro rfl
        obtain ⟨s, hs, hhash, -⟩ := rotateSessionTx_ok hx
        obtain ⟨-, tok, htok, hh⟩ := hu.minted s (Table.get?_eq_some.mp hs).1
        rw [hhash] at hh
        exact hrefresh (hashToken_inj hh ▸ htok)
      obtain ⟨hable, hdone⟩ := rotateSessionTx_refreshed hnew hx
      exact ⟨hable, hdone, rfl⟩
    · rw [ht]
      refine ⟨?_, rfl, rfl⟩
      rintro ⟨s, hs, hhash, hv⟩
      obtain ⟨r, hr⟩ := rotateSessionTx_able now hs hhash hv
        (hashesFree_of_minted hu.minted haccess hrefresh ⟨rfl, rfl⟩)
      rw [Prog.autocommit_ok.mpr hr] at ht
      cases ht
  | _ => trivial

namespace State

variable {s s' : State} {e : Event}

/-! ## Each kind once -/

def InvitesOnce (s : State) : Prop :=
  SingleUse (fun id => ∃ inv, s.LiveInvite inv ∧ inv.id = id) (s.log.filterMap invite?) s.server.issued

def TokensOnce (s : State) : Prop :=
  SingleUse (fun id => ∃ rt, s.LiveToken rt ∧ rt.id = id) (s.log.filterMap recoveryToken?) s.server.issued

def LiveRefresh (s : State) (token : String) : Prop :=
  ∃ row ∈ s.db.sessions, row.revokedAt = none ∧ row.refreshHash = hashToken token

def RefreshOnce (s : State) : Prop :=
  SingleUse s.LiveRefresh (s.log.filterMap refreshToken?) s.server.issued

def RefreshDistinct (s : State) : Prop :=
  ∀ row ∈ s.db.sessions, ∀ row' ∈ s.db.sessions, row.revokedAt = none → row'.revokedAt = none →
    row.refreshHash = row'.refreshHash → row.id = row'.id

theorem draws_fresh {issued drawn : List String} (h : Server.Draws issued drawn) : ∀ k ∈ drawn, k ∉ issued :=
  fun k hk => (h.2 k hk).2

theorem invitesOnce_step (h : step s e s') (ho : s.InvitesOnce) : s'.InvitesOnce := by
  rcases step_cases h with ⟨hp, hs, hl⟩ | ⟨c, hp, hd, hs, hl⟩
  · unfold InvitesOnce LiveInvite db at ho ⊢
    rw [hs, hl]
    exact ho
  · have hlive : ∀ inv, s'.LiveInvite inv →
        InviteFrom s.db c (c.mark s.db) inv := by
      intro inv h
      obtain ⟨hmem, hv⟩ := h
      rw [db, hs] at hmem
      exact (account_effect c s.db).inviteFrom hmem hv
    have heffect := account_effect c s.db
    unfold InvitesOnce
    rw [hs, hl]
    generalize c.mark s.db = m at hlive heffect
    generalize (c.run s.db).toAccounts = a at heffect
    apply SingleUse.log ho (draws_fresh hd)
    · intro id h
      obtain ⟨inv, hinv, hid⟩ := h
      have hv := hinv.2
      cases hlive inv hinv with
      | kept hold _ => exact Or.inl ⟨inv, ⟨hold, hv⟩, hid⟩
      | created => exact Or.inr (by simp [← hid, newInvite, Command.draws])
      | reset => exact Or.inr (by simp [← hid, newInvite, Command.draws])
    · intro id hm
      cases heffect with
      | enrolled hi hused hu hst =>
        cases hm
        obtain ⟨hmem, hid⟩ := Table.get?_eq_some.mp hi
        refine ⟨⟨_, ⟨hmem, hused⟩, hid⟩, ?_⟩
        intro h
        obtain ⟨inv, hinv, hid'⟩ := h
        cases hlive inv hinv with
        | kept hold hne => exact hne _ (by rw [hid'])
      | _ => cases hm

theorem tokensOnce_step (h : step s e s') (ho : s.TokensOnce) : s'.TokensOnce := by
  rcases step_cases h with ⟨hp, hs, hl⟩ | ⟨c, hp, hd, hs, hl⟩
  · unfold TokensOnce LiveToken db at ho ⊢
    rw [hs, hl]
    exact ho
  · have hlive : ∀ rt, s'.LiveToken rt → TokenFrom s.db c (c.mark s.db) rt := by
      intro rt h
      obtain ⟨hmem, hv⟩ := h
      rw [db, hs] at hmem
      exact (account_effect c s.db).tokenFrom hmem hv
    have heffect := account_effect c s.db
    unfold TokensOnce
    rw [hs, hl]
    generalize c.mark s.db = m at hlive heffect
    generalize (c.run s.db).toAccounts = a at heffect
    apply SingleUse.log ho (draws_fresh hd)
    · intro id h
      obtain ⟨rt, hrt, hid⟩ := h
      have hv := hrt.2
      cases hlive rt hrt with
      | kept hold _ => exact Or.inl ⟨rt, ⟨hold, hv⟩, hid⟩
      | created => exact Or.inr (by simp [← hid, newRecoveryToken, Command.draws])
    · intro id hm
      cases heffect with
      | recovered ht hused hu hst =>
        cases hm
        obtain ⟨hmem, hid⟩ := Table.get?_eq_some.mp ht
        refine ⟨⟨_, ⟨hmem, hused⟩, hid⟩, ?_⟩
        intro h
        obtain ⟨rt, hrt, hid'⟩ := h
        cases hlive rt hrt with
        | kept hold hne => exact (hne _ _ rfl).2 hid'
      | _ => cases hm

def refreshes : Command → Option (Id × String)
  | .createSession _ id _ refresh _ _ => some (id, refresh)
  | .rotateSession _ session _ _ newRefresh => some (session.id, newRefresh)
  | _ => none

theorem refresh_cases {db : Db} {c : Command} {m : Option Mark} {row : Session} (h : SessionFrom db c m row) :
    (∃ old ∈ db.sessions, old.revokedAt = none ∧ old.id = row.id ∧ old.refreshHash = row.refreshHash ∧
      ∀ tok, m ≠ some (.refreshed old.id tok)) ∨
    ∃ tok ∈ c.draws, refreshes c = some (row.id, tok) ∧ row.refreshHash = hashToken tok := by
  cases h with
  | kept hs hv hid hu hr hm =>
    exact Or.inl ⟨_, hs, hv, hid.symm, hr.symm, fun tok htok => (hm _ htok).2 tok rfl⟩
  | rotated hs hr hv =>
    refine Or.inr ⟨_, by simp [Command.draws], ?_, rfl⟩
    rw [Session.rotated_id, (Table.get?_eq_some.mp hs).2]
    rfl
  | created => exact Or.inr ⟨_, by simp [Command.draws], rfl, rfl⟩

theorem drawn_refresh (ho : s.RefreshOnce) {drawn : List String} (hd : Server.Draws s.server.issued drawn)
    {tok : String}
    (ht : tok ∈ drawn) {old : Session} (hmem : old ∈ s.db.sessions) (hv : old.revokedAt = none) :
    old.refreshHash ≠ hashToken tok :=
  fun heq => draws_fresh hd tok ht (ho.known tok (Or.inl ⟨old, hmem, hv, heq⟩))

theorem refreshDistinct_step (h : step s e s') (hk : s.Known) (ho : s.RefreshOnce) (hdist : s.RefreshDistinct) :
    s'.RefreshDistinct := by
  rcases step_cases h with ⟨hp, hs, hl⟩ | ⟨c, hp, hd, hs, hl⟩
  · unfold RefreshDistinct db at hdist ⊢
    rw [hs]
    exact hdist
  · intro row hrow row' hrow' hv hv' hsame
    rw [db, hs] at hrow hrow'
    have hfrom := (account_effect c s.db).sessionFrom (session_ids hk) hrow hv
    have hfrom' := (account_effect c s.db).sessionFrom (session_ids hk) hrow' hv'
    rcases refresh_cases hfrom with ⟨old, hold, hov, hid, hhash, -⟩ | ⟨tok, htok, hc, hhash⟩
    · rcases refresh_cases hfrom' with ⟨old', hold', hov', hid', hhash', -⟩ | ⟨tok, htok, hc, hhash'⟩
      · rw [← hid, ← hid']
        exact hdist old hold old' hold' hov hov' (by rw [hhash, hhash', hsame])
      · exact absurd (by rw [hhash, hsame, hhash']) (drawn_refresh ho hd htok hold hov)
    · rcases refresh_cases hfrom' with ⟨old', hold', hov', hid', hhash', -⟩ | ⟨tok', htok', hc', hhash'⟩
      · exact absurd (by rw [hhash', ← hsame, hhash]) (drawn_refresh ho hd htok hold' hov')
      · rw [hc] at hc'
        exact congrArg Prod.fst (Option.some.inj hc')

theorem refreshOnce_step (h : step s e s') (hk : s.Known) (ho : s.RefreshOnce) (hdist : s.RefreshDistinct) :
    s'.RefreshOnce := by
  rcases step_cases h with ⟨hp, hs, hl⟩ | ⟨c, hp, hd, hs, hl⟩
  · unfold RefreshOnce LiveRefresh db at ho ⊢
    rw [hs, hl]
    exact ho
  · have hlive : ∀ row ∈ s'.db.sessions, row.revokedAt = none → SessionFrom s.db c (c.mark s.db) row := by
      intro row hmem hv
      rw [db, hs] at hmem
      exact (account_effect c s.db).sessionFrom (session_ids hk) hmem hv
    have heffect := account_effect c s.db
    unfold RefreshOnce
    rw [hs, hl]
    generalize c.mark s.db = m at hlive heffect
    generalize (c.run s.db).toAccounts = a at heffect
    apply SingleUse.log ho (draws_fresh hd)
    · intro tok h
      obtain ⟨row, hmem, hv, hhash⟩ := h
      rcases refresh_cases (hlive row hmem hv) with ⟨old, hold, hov, -, hsame, -⟩ | ⟨tok', htok', -, hhash'⟩
      · exact Or.inl ⟨old, hold, hov, hsame.trans hhash⟩
      · rw [hhash] at hhash'
        exact Or.inr (hashToken_inj hhash' ▸ htok')
    · intro tok hm
      cases heffect with
      | sessionRotated hg hr hv =>
        cases hm
        obtain ⟨hmem, hid⟩ := Table.get?_eq_some.mp hg
        refine ⟨⟨_, hmem, hv, hr⟩, ?_⟩
        intro h
        obtain ⟨row, hrow, hrv, hhash⟩ := h
        rcases refresh_cases (hlive row hrow hrv) with ⟨old, hold, hov, -, hsame, hother⟩
          | ⟨tok', htok', -, hhash'⟩
        · have hold_id := hdist old hold _ hmem hov hv (by rw [hsame, hhash, hr])
          exact hother _ (by rw [hold_id, hid])
        · exact drawn_refresh ho hd htok' hmem hv (by rw [hr, ← hhash, hhash'])
      | _ => cases hm

structure Once (s : State) : Prop where
  known : s.Known
  invites : s.InvitesOnce
  tokens : s.TokensOnce
  refresh : s.RefreshOnce
  distinct : s.RefreshDistinct

theorem once_step (h : step s e s') (ho : s.Once) : s'.Once where
  known := known_step h ho.known
  invites := invitesOnce_step h ho.invites
  tokens := tokensOnce_step h ho.tokens
  refresh := refreshOnce_step h ho.known ho.refresh ho.distinct
  distinct := refreshDistinct_step h ho.known ho.refresh ho.distinct

theorem once_fresh : fresh.Once := by
  refine ⟨known_fresh, ⟨List.nodup_nil, ?_, ?_⟩, ⟨List.nodup_nil, ?_, ?_⟩, ⟨List.nodup_nil, ?_, ?_⟩, ?_⟩
  · intro id hid
    cases hid
  · intro id hid
    rcases hid with ⟨inv, ⟨hmem, _⟩, _⟩ | hid
    · cases hmem
    · cases hid
  · intro id hid
    cases hid
  · intro id hid
    rcases hid with ⟨rt, ⟨hmem, _⟩, _⟩ | hid
    · cases hmem
    · cases hid
  · intro tok htok
    cases htok
  · intro tok htok
    rcases htok with ⟨row, hmem, _⟩ | htok
    · cases hmem
    · cases htok
  · intro row hrow
    cases hrow

theorem once_reachable (h : Lts.Reachable init step s) : s.Once := by
  refine h.inv (P := Once) ?_ fun _ _ _ => once_step
  intro s hs
  rw [hs]
  exact once_fresh

theorem server_reachable (h : Lts.Reachable init step s) : Lts.Reachable Server.init Server.step s.server := by
  refine h.inv (P := fun s => Lts.Reachable Server.init Server.step s.server) ?_ ?_
  · rintro s rfl
    exact ⟨_, [], rfl, .nil _⟩
  · intro s e s' hstep hr
    rcases step_cases hstep with ⟨-, hs, -⟩ | ⟨c, -, hd, hs, -⟩
    · rwa [hs]
    · rw [hs]
      exact hr.run (.cons ⟨hd, rfl⟩ (.nil _))

theorem minted_reachable (h : Lts.Reachable init step s) : ∀ row ∈ s.db.sessions, row.Minted s.server.issued := by
  refine h.inv (P := fun s => ∀ row ∈ s.db.sessions, row.Minted s.server.issued) ?_ ?_
  · rintro s rfl row hrow
    cases hrow
  · intro s e s' hstep hm
    rcases step_cases hstep with ⟨-, hs, -⟩ | ⟨c, -, -, hs, -⟩
    · rwa [db, hs]
    · rw [db, hs]
      exact (account_effect c s.db).minted hm

theorem unseen_reachable (h : Lts.Reachable init step s) : Unseen s.server.issued s.db where
  ids := session_ids (once_reachable h).known
  audited := (reachable_grounded (server_reachable h)).auditLog
  minted := minted_reachable h

theorem db_of_idle (h : step s e s') (hp : s.performs e = none) : s'.db = s.db := by
  rcases step_cases h with ⟨-, hs, -⟩ | ⟨c, hp', -⟩
  · rw [db, hs]
  · rw [hp] at hp'
    cases hp'

end State

/-- In every reachable state each invite, recovery token and refresh token has
been redeemed at most once; a request reads and compares without writing, and
its one commit does all of its work, or none and leaves what it found. It does
all of it exactly when the token is unspent and the account is as it has to be. -/
theorem redeemed_once_all_or_nothing {s : State} (h : Lts.Reachable State.init State.step s) :
    (s.log.filterMap invite?).Nodup ∧ (s.log.filterMap recoveryToken?).Nodup ∧
      (s.log.filterMap refreshToken?).Nodup ∧
    ∀ e s', State.step s e s' →
      (s.performs e = none → s'.db = s.db) ∧
      ∀ ticket now drawn f, e = .commit ticket now drawn → s.flights.get? ticket = some f →
        f.task.Redeems now drawn s.db s'.db (s.marks e) := by
  have honce := State.once_reachable h
  refine ⟨honce.invites.nodup, honce.tokens.nodup, honce.refresh.nodup, ?_⟩
  intro e s' hs
  refine ⟨State.db_of_idle hs, ?_⟩
  rintro ticket now drawn f rfl hf
  obtain ⟨c, hc⟩ := Option.isSome_iff_exists.mp hs.1.1
  have htask : f.task.command now drawn = some c := by
    simpa only [State.performs, hf, Option.bind_some] using hc
  have hdb : s'.db = c.run s.db := by
    rw [hs.2]
    simp only [State.next, State.db, State.serverAfter, hc]
    rfl
  rw [hdb, State.marks_of_performs hc]
  exact task_redeems htask (State.unseen_reachable h) (hs.1.2 c hc)

/-- Each kind of token is taken to two tabs, and both commit. -/
def twoTabs : List Event := aliceEnrolls.take 2 ++ [
  .receive 1 0 (.enroll "link-1" aliceKeys), .receive 2 0 (.enroll "link-1" aliceKeys),
  .commit 1 0 ⟨"", "", ""⟩, .commit 2 0 ⟨"", "", ""⟩,
  .receive 3 0 (.login "alice@home" "password-1" "laptop"), .advance 3,
  .commit 3 0 ⟨"session-1", "access-1", "refresh-1"⟩,
  .receive 4 0 (.refresh "refresh-1"), .receive 5 0 (.refresh "refresh-1"),
  .commit 4 0 ⟨"", "access-2", "refresh-2"⟩, .commit 5 0 ⟨"", "access-3", "refresh-3"⟩,
  .receive 6 0 (.recover "alice@home" "code-1"), .advance 6, .commit 6 0 ⟨"token-1", "recovery-1", ""⟩,
  .receive 7 0 (.recoverComplete "recovery-1" secondPassword secondCode),
  .receive 8 0 (.recoverComplete "recovery-1" thirdPassword secondCode),
  .commit 7 0 ⟨"audit-1", "", ""⟩]

theorem redeemed_once_all_or_nothing_tabs :
    ((State.script twoTabs).log.filterMap invite?).Nodup ∧
    ((State.script twoTabs).log.filterMap recoveryToken?).Nodup ∧
    ((State.script twoTabs).log.filterMap refreshToken?).Nodup ∧
    (Task.completeRecovery (newRecoveryToken 0 "token-1" "recovery-1" "alice" recoveryTokenTTL) thirdPassword
      secondCode).Redeems 0 ⟨"audit-2", "", ""⟩ (State.script twoTabs).db
      ((State.script twoTabs).next (.commit 8 0 ⟨"audit-2", "", ""⟩)).db
      ((State.script twoTabs).marks (.commit 8 0 ⟨"audit-2", "", ""⟩)) := by
  have hreach : Lts.Reachable State.init State.step (State.script twoTabs) :=
    ⟨State.fresh, twoTabs, rfl, State.run_script (by decide)⟩
  have hf : (State.script twoTabs).flights.get? 8 = some ⟨8, 2, 2, .completeRecovery
      (newRecoveryToken 0 "token-1" "recovery-1" "alice" recoveryTokenTTL) thirdPassword secondCode⟩ := by decide
  obtain ⟨hinvites, htokens, hrefresh, hcommit⟩ := redeemed_once_all_or_nothing hreach
  exact ⟨hinvites, htokens, hrefresh, (hcommit _ _ ⟨by decide, rfl⟩).2 _ _ _ _ rfl hf⟩

end Keyhole.Http
