import Keyhole.Store.AccountEffect

/-!
# How long a session lasts

Runs of the session statements under a clock that does not go back. Between
its SELECT and its UPDATE a `RotateSession` holds the row it read. Beside the
database a run records which token was issued for which session, and what the
clock read when the session was created.
-/

namespace Keyhole.Store
open Sql

structure Rotating where
  session : Session
  refreshToken : String
  readAt : Time
  deriving DecidableEq

structure Issued where
  token : String
  sessionID : Id
  deriving DecidableEq

structure SessionWorld where
  db : Db
  clock : Time
  rotating : List Rotating
  issued : List Issued
  born : List (Id × Time)

inductive SessionEvent
  | create (now : Time) (id : Id) (accessToken refreshToken : String) (userID : Id) (deviceLabel : String)
  | byAccessToken (now : Time) (token : String)
  | touch (now : Time) (id : Id)
  | select (now : Time) (refreshToken : String)
  | update (now : Time) (rotating : Rotating) (newAccess newRefresh : String)
  | revoke (now : Time) (id : Id)

def SessionEvent.now : SessionEvent → Time
  | create now .. | byAccessToken now _ | touch now _ | select now _ | update now .. | revoke now _ => now

namespace SessionWorld

/-- Two draws that differ from each other and from every token drawn before. -/
def Fresh (w : SessionWorld) (accessToken refreshToken : String) : Prop :=
  accessToken ≠ refreshToken ∧ ∀ i ∈ w.issued, i.token ≠ accessToken ∧ i.token ≠ refreshToken

instance (w : SessionWorld) (a r : String) : Decidable (w.Fresh a r) := inferInstanceAs (Decidable (_ ∧ _))

def drawn (w : SessionWorld) : SessionEvent → Prop
  | .create _ _ accessToken refreshToken _ _ => w.Fresh accessToken refreshToken
  | .update _ rotating newAccess newRefresh => rotating ∈ w.rotating ∧ w.Fresh newAccess newRefresh
  | _ => True

instance (w : SessionWorld) (e : SessionEvent) : Decidable (w.drawn e) := by
  cases e <;> unfold drawn <;> infer_instance

def enabled (w : SessionWorld) (e : SessionEvent) : Prop := w.clock ≤ e.now ∧ w.drawn e

instance (w : SessionWorld) (e : SessionEvent) : Decidable (w.enabled e) := inferInstanceAs (Decidable (_ ∧ _))

def issue (w : SessionWorld) (id : Id) (accessToken refreshToken : String) : List Issued :=
  ⟨accessToken, id⟩ :: ⟨refreshToken, id⟩ :: w.issued

def next (w : SessionWorld) (e : SessionEvent) : SessionWorld :=
  let w := { w with clock := e.now }
  match e with
  | .create now id accessToken refreshToken userID deviceLabel =>
    match createSession now id accessToken refreshToken userID deviceLabel w.db with
    | (.error _, db) => { w with db }
    | (.ok _, db) =>
      { w with db, issued := w.issue id accessToken refreshToken, born := (id, now) :: w.born }
  | .byAccessToken .. => w
  | .touch now id => { w with db := touchSession now id w.db }
  | .select now refreshToken =>
    match sessionByRefreshToken now refreshToken w.db with
    | .error _ => w
    | .ok session => { w with rotating := ⟨session, refreshToken, now⟩ :: w.rotating }
  | .update now f newAccess newRefresh =>
    let w := { w with rotating := w.rotating.erase f }
    match (rotateSessionTx now f.session f.refreshToken newAccess newRefresh).autocommit w.db with
    | (.error _, db) => { w with db }
    | (.ok _, db) => { w with db, issued := w.issue f.session.id newAccess newRefresh }
  | .revoke now id => { w with db := (revokeSession now id w.db).2 }

abbrev step : SessionWorld → SessionEvent → SessionWorld → Prop := Lts.Stepwise enabled next

structure Start (w : SessionWorld) : Prop where
  sessions : w.db.sessions = ∅
  rotating : w.rotating = []
  issued : w.issued = []
  born : w.born = []

abbrev Reachable : SessionWorld → Prop := Lts.Reachable Start step

/-! ## What a step does -/

theorem next_create (w : SessionWorld) (now : Time) (id : Id) (a r : String) (userID : Id) (label : String) :
    w.next (.create now id a r userID label) = { w with clock := now } ∨
    ∃ sessions, w.db.sessions.insert? (newSession now id a r userID label) = some sessions ∧
      w.next (.create now id a r userID label) = { w with
        clock := now, db := { w.db with sessions }, issued := w.issue id a r, born := (id, now) :: w.born } := by
  simp only [next, createSession, createSessionTx, SessionEvent.now]
  rcases insert_cases (wrap "insert session") (insertSession (newSession now id a r userID label)) _ w.db with
    ⟨db', h, ha⟩ | ⟨e, ha⟩
  · right
    obtain ⟨sessions, hi, -, -, rfl⟩ := insertSession_ok h
    rw [ha]
    exact ⟨sessions, hi, rfl⟩
  · left
    rw [ha]

theorem next_update_ok {w : SessionWorld} {now : Time} {f : Rotating} {a r : String} {s' : Session}
    (h : ((rotateSessionTx now f.session f.refreshToken a r).autocommit w.db).1 = .ok s') :
    ∃ s, w.db.sessions.get? f.session.id = some s ∧ s.refreshHash = hashToken f.refreshToken ∧
      s.revokedAt = none ∧
      w.next (.update now f a r) = {
        w with
        clock := now, rotating := w.rotating.erase f
        db := { w.db with sessions := w.db.sessions.upsert (s.rotated now a r) }
        issued := w.issue f.session.id a r } := by
  simp only [next, SessionEvent.now]
  cases hu : (rotateSessionTx now f.session f.refreshToken a r).autocommit w.db with
  | mk out db' =>
    rw [hu] at h
    cases h
    obtain ⟨s, hs, hh, hv, -, -, rfl⟩ := rotateSessionTx_ok (Prog.autocommit_ok.mp hu)
    exact ⟨s, hs, hh, hv, rfl⟩

theorem next_update (w : SessionWorld) (now : Time) (f : Rotating) (a r : String) :
    w.next (.update now f a r) = { w with clock := now, rotating := w.rotating.erase f } ∨
    ∃ s, w.db.sessions.get? f.session.id = some s ∧ s.refreshHash = hashToken f.refreshToken ∧
      s.revokedAt = none ∧
      w.next (.update now f a r) = {
        w with
        clock := now, rotating := w.rotating.erase f
        db := { w.db with sessions := w.db.sessions.upsert (s.rotated now a r) }
        issued := w.issue f.session.id a r } := by
  rcases rotateSession_cases now f.session f.refreshToken a r w.db with ⟨s', -, hr⟩ | ⟨e, h⟩
  · exact .inr (next_update_ok hr)
  · left
    simp only [next, SessionEvent.now]
    rw [h]

theorem mem_touchSession {now : Time} {id : Id} {db : Db} {s' : Session} :
    s' ∈ (touchSession now id db).sessions ↔
      (s' ∈ db.sessions ∧ (decide (s'.id = id) && s'.revokedAt.isNone) = false) ∨
      ∃ s ∈ db.sessions, (decide (s.id = id) && s.revokedAt.isNone) = true ∧ s.touched now = s' :=
  @Table.mem_update _ _ _ db.sessions _ (·.touched now) (fun _ => rfl) s'

theorem mem_revoked {now : Time} {which : Session → Bool} {db : Db} {s' : Session} :
    s' ∈ ((revokeSessionTx now which).autocommit db).2.sessions ↔
      (s' ∈ db.sessions ∧ (which s' && s'.revokedAt.isNone) = false) ∨
      ∃ s ∈ db.sessions, (which s && s.revokedAt.isNone) = true ∧ s.revoked now = s' := by
  have hdb : ((revokeSessionTx now which).autocommit db).2 = (revokeSessions now which db).2 := by
    unfold revokeSessionTx
    rw [Prog.autocommit_bind]
    simp only [write, Prog.autocommit, require]
    split <;> rfl
  rw [hdb]
  exact @Table.mem_update _ _ _ db.sessions _ (·.revoked now) (fun _ => rfl) s'

theorem mem_revokeSession {now : Time} {id : Id} {db : Db} {s' : Session} :
    s' ∈ (revokeSession now id db).2.sessions ↔
      (s' ∈ db.sessions ∧ (decide (s'.id = id) && s'.revokedAt.isNone) = false) ∨
      ∃ s ∈ db.sessions, (decide (s.id = id) && s.revokedAt.isNone) = true ∧ s.revoked now = s' :=
  mem_revoked

theorem sessionByRefreshToken_ok {now : Time} {token : String} {db : Db} {s : Session}
    (h : sessionByRefreshToken now token db = .ok s) :
    s ∈ db.sessions ∧ s.refreshHash = hashToken token ∧ s.revokedAt = none ∧ s.outlived now = false := by
  unfold sessionByRefreshToken at h
  split at h
  · cases h
  · rename_i s' hf
    have hp := Table.prop_of_find? hf
    simp only [Bool.and_eq_true, decide_eq_true_eq, Option.isNone_iff_eq_none] at hp
    split at h
    · cases h
    · rename_i ho
      cases h
      exact ⟨Table.mem_of_find? hf, hp.1, hp.2, by simpa using ho⟩

/-- A row as a step that issues nothing may leave it. -/
structure Same (s s' : Session) : Prop where
  id : s'.id = s.id
  userID : s'.userID = s.userID
  createdAt : s'.createdAt = s.createdAt
  tokenHash : s'.tokenHash = s.tokenHash
  refreshHash : s'.refreshHash = s.refreshHash
  live : s'.revokedAt = none → s.revokedAt = none

theorem Same.refl (s : Session) : Same s s := ⟨rfl, rfl, rfl, rfl, rfl, fun h => h⟩

/-- Where a session of the world after a step comes from. -/
inductive RowFrom (w w' : SessionWorld) : SessionEvent → Session → Prop
  | kept (e : SessionEvent) {s s' : Session} (hs : s ∈ w.db.sessions) (h : Same s s') : RowFrom w w' e s'
  | created {now : Time} {id : Id} {a r : String} {userID : Id} {label : String}
      (hfresh : w.db.sessions.get? id = none) (hi : w'.issued = w.issue id a r)
      (hb : w'.born = (id, now) :: w.born) :
      RowFrom w w' (.create now id a r userID label) (newSession now id a r userID label)
  | rotated {now : Time} {f : Rotating} {a r : String} {s : Session}
      (hs : s ∈ w.db.sessions) (hid : s.id = f.session.id) (hr : s.refreshHash = hashToken f.refreshToken)
      (hv : s.revokedAt = none) (hi : w'.issued = w.issue f.session.id a r) :
      RowFrom w w' (.update now f a r) (s.rotated now a r)

theorem row_from {w : SessionWorld} (e : SessionEvent) {s' : Session} (h : s' ∈ (w.next e).db.sessions) :
    RowFrom w (w.next e) e s' := by
  cases e with
  | create now id a r userID label =>
    rcases next_create w now id a r userID label with hn | ⟨sessions, hi, hn⟩
    · rw [hn] at h
      exact .kept _ h (.refl s')
    · rw [hn] at h ⊢
      rcases (Table.mem_insert? hi).mp h with h | rfl
      · exact .kept _ h (.refl s')
      · exact .created (Table.insert?_fresh hi) rfl rfl
  | byAccessToken now token => exact .kept _ h (.refl s')
  | touch now id =>
    rcases mem_touchSession.mp h with ⟨hs, -⟩ | ⟨s, hs, -, rfl⟩
    · exact .kept _ hs (.refl s')
    · exact .kept _ hs ⟨rfl, rfl, rfl, rfl, rfl, fun hv => hv⟩
  | select now refreshToken =>
    have hdb : (w.next (.select now refreshToken)).db = w.db := by
      simp only [next]
      split <;> rfl
    rw [hdb] at h
    exact .kept _ h (.refl s')
  | update now f a r =>
    rcases next_update w now f a r with hn | ⟨s, hs, hr, hv, hn⟩
    · rw [hn] at h
      exact .kept _ h (.refl s')
    · rw [hn] at h ⊢
      obtain ⟨hmem, hid⟩ := Table.get?_eq_some.mp hs
      rcases Table.mem_upsert.mp h with ⟨h, -⟩ | rfl
      · exact .kept _ h (.refl s')
      · exact .rotated hmem hid hr hv rfl
  | revoke now id =>
    rcases mem_revokeSession.mp h with ⟨hs, -⟩ | ⟨s, hs, -, rfl⟩
    · exact .kept _ hs (.refl s')
    · exact .kept _ hs ⟨rfl, rfl, rfl, rfl, rfl, fun hv => nomatch hv⟩

theorem db_select (w : SessionWorld) (now : Time) (refreshToken : String) :
    (w.next (.select now refreshToken)).db = w.db := by
  simp only [next]
  split <;> rfl

theorem row_stays {w : SessionWorld} (e : SessionEvent) {s : Session} (h : s ∈ w.db.sessions) :
    ∃ s' ∈ (w.next e).db.sessions, s'.id = s.id := by
  cases e with
  | create now id a r userID label =>
    rcases next_create w now id a r userID label with hn | ⟨sessions, hi, hn⟩
    · rw [hn]
      exact ⟨s, h, rfl⟩
    · rw [hn]
      exact ⟨s, (Table.mem_insert? hi).mpr (.inl h), rfl⟩
  | byAccessToken now token => exact ⟨s, h, rfl⟩
  | touch now id =>
    cases hp : decide (s.id = id) && s.revokedAt.isNone with
    | false => exact ⟨s, mem_touchSession.mpr (.inl ⟨h, hp⟩), rfl⟩
    | true => exact ⟨_, mem_touchSession.mpr (.inr ⟨s, h, hp, rfl⟩), rfl⟩
  | select now refreshToken =>
    rw [db_select]
    exact ⟨s, h, rfl⟩
  | update now f a r =>
    rcases next_update w now f a r with hn | ⟨row, hs, -, -, hn⟩
    · rw [hn]
      exact ⟨s, h, rfl⟩
    · rw [hn]
      by_cases hid : s.id = row.id
      · exact ⟨row.rotated now a r, Table.mem_upsert.mpr (.inr rfl), hid.symm⟩
      · exact ⟨s, Table.mem_upsert.mpr (.inl ⟨h, hid⟩), rfl⟩
  | revoke now id =>
    cases hp : decide (s.id = id) && s.revokedAt.isNone with
    | false => exact ⟨s, mem_revokeSession.mpr (.inl ⟨h, hp⟩), rfl⟩
    | true => exact ⟨_, mem_revokeSession.mpr (.inr ⟨s, h, hp, rfl⟩), rfl⟩

theorem issued_cases (w : SessionWorld) (e : SessionEvent) (he : w.enabled e) :
    ((w.next e).issued = w.issued ∧ (w.next e).born = w.born) ∨
    ∃ id a r, w.Fresh a r ∧ (w.next e).issued = w.issue id a r ∧ (∃ s ∈ (w.next e).db.sessions, s.id = id) ∧
      ((w.next e).born = w.born ∨ (w.next e).born = (id, e.now) :: w.born ∧
        ∀ s ∈ w.db.sessions, s.id ≠ id) := by
  cases e with
  | create now id a r userID label =>
    rcases next_create w now id a r userID label with hn | ⟨sessions, hi, hn⟩
    · rw [hn]
      exact .inl ⟨rfl, rfl⟩
    · rw [hn]
      exact .inr ⟨id, a, r, he.2, rfl, ⟨_, (Table.mem_insert? hi).mpr (.inr rfl), rfl⟩,
        .inr ⟨rfl, Table.get?_eq_none.mp (Table.insert?_fresh hi)⟩⟩
  | update now f a r =>
    rcases next_update w now f a r with hn | ⟨s, hs, -, -, hn⟩
    · rw [hn]
      exact .inl ⟨rfl, rfl⟩
    · rw [hn]
      exact .inr ⟨f.session.id, a, r, he.2.2, rfl,
        ⟨_, Table.mem_upsert.mpr (.inr rfl), (Table.get?_eq_some.mp hs).2⟩, .inl rfl⟩
  | select now refreshToken =>
    left
    simp only [next]
    split <;> exact ⟨rfl, rfl⟩
  | _ => exact .inl ⟨rfl, rfl⟩

theorem rotating_cases (w : SessionWorld) (e : SessionEvent) {f : Rotating} (hf : f ∈ (w.next e).rotating) :
    f ∈ w.rotating ∨ f.session ∈ w.db.sessions ∧ f.session.outlived f.readAt = false := by
  cases e with
  | create now id a r userID label =>
    rcases next_create w now id a r userID label with hn | ⟨sessions, hi, hn⟩
    · rw [hn] at hf
      exact .inl hf
    · rw [hn] at hf
      exact .inl hf
  | update now g a r =>
    rcases next_update w now g a r with hn | ⟨s, hs, -, -, hn⟩
    · rw [hn] at hf
      exact .inl (List.mem_of_mem_erase hf)
    · rw [hn] at hf
      exact .inl (List.mem_of_mem_erase hf)
  | select now refreshToken =>
    simp only [next] at hf
    split at hf
    · exact .inl hf
    · rename_i session hs
      obtain ⟨hmem, -, -, ho⟩ := sessionByRefreshToken_ok hs
      rcases List.mem_cons.mp hf with rfl | hf
      · exact .inr ⟨hmem, ho⟩
      · exact .inl hf
  | _ => exact .inl hf

/-! ## What holds along a run -/

structure Inv (w : SessionWorld) : Prop where
  /-- No token was issued twice. -/
  tokens : (w.issued.map Issued.token).Nodup
  rows : ∀ s ∈ w.db.sessions, ⟨s.tokenHash.token, s.id⟩ ∈ w.issued ∧
    ⟨s.refreshHash.token, s.id⟩ ∈ w.issued
  /-- A row has the age of its session, cut to the second. -/
  ages : ∀ s ∈ w.db.sessions, ∀ t, (s.id, t) ∈ w.born → s.createdAt = stamp t
  known : ∀ p ∈ w.born, ∃ s ∈ w.db.sessions, s.id = p.1
  held : ∀ f ∈ w.rotating, ∃ s ∈ w.db.sessions, s.id = f.session.id
  checked : ∀ f ∈ w.rotating, ∀ t, (f.session.id, t) ∈ w.born → f.readAt ≤ t + refreshTokenLifetime

theorem issued_mono {w : SessionWorld} {e : SessionEvent} (he : w.enabled e) {i : Issued} (hi : i ∈ w.issued) :
    i ∈ (w.next e).issued := by
  rcases issued_cases w e he with ⟨h, -⟩ | ⟨id, a, r, -, h, -⟩
  · rw [h]
    exact hi
  · rw [h]
    exact List.mem_cons_of_mem _ (List.mem_cons_of_mem _ hi)

theorem born_of_row {w : SessionWorld} {e : SessionEvent} (he : w.enabled e) {s : Session} (hs : s ∈ w.db.sessions)
    {t : Time} (h : (s.id, t) ∈ (w.next e).born) : (s.id, t) ∈ w.born := by
  rcases issued_cases w e he with ⟨-, hb⟩ | ⟨id, a, r, -, -, -, hb | ⟨hb, hne⟩⟩
  · rw [hb] at h
    exact h
  · rw [hb] at h
    exact h
  · rw [hb] at h
    rcases List.mem_cons.mp h with h | h
    · exact absurd (Prod.mk.inj h).1 (hne s hs)
    · exact h

theorem stamp_le (t : Time) : stamp t ≤ t := Nat.div_mul_le_self t second

theorem le_of_not_outlived {s : Session} {now t : Time} (ho : s.outlived now = false) (ha : s.createdAt = stamp t) :
    now ≤ t + refreshTokenLifetime := by
  have hle : now ≤ s.createdAt + refreshTokenLifetime := by simpa [Session.outlived] using ho
  rw [ha] at hle
  exact le_trans hle (Nat.add_le_add_right (stamp_le t) _)

theorem inv_step {w : SessionWorld} {e : SessionEvent} (he : w.enabled e) (h : w.Inv) : (w.next e).Inv := by
  refine ⟨?tokens, ?rows, ?ages, ?known, ?held, ?checked⟩
  case tokens =>
    rcases issued_cases w e he with ⟨hi, -⟩ | ⟨id, a, r, ⟨hne, hfresh⟩, hi, -⟩
    · rw [hi]
      exact h.tokens
    · rw [hi, issue, List.map_cons, List.map_cons, List.nodup_cons, List.nodup_cons]
      refine ⟨?_, ?_, h.tokens⟩
      · intro hmem
        rcases List.mem_cons.mp hmem with heq | hmem
        · exact hne heq
        · obtain ⟨i, hi, hia⟩ := List.mem_map.mp hmem
          exact (hfresh i hi).1 hia
      · intro hmem
        obtain ⟨i, hi, hir⟩ := List.mem_map.mp hmem
        exact (hfresh i hi).2 hir
  case rows =>
    intro s' hs'
    cases row_from e hs' with
    | kept _ hs hsame =>
      rw [hsame.tokenHash, hsame.refreshHash, hsame.id]
      exact ⟨issued_mono he (h.rows _ hs).1, issued_mono he (h.rows _ hs).2⟩
    | created hfresh hi hb =>
      rw [hi]
      exact ⟨List.mem_cons_self, List.mem_cons_of_mem _ List.mem_cons_self⟩
    | rotated hs hid hr hv hi =>
      rw [hi, Session.rotated_id, hid]
      exact ⟨List.mem_cons_self, List.mem_cons_of_mem _ List.mem_cons_self⟩
  case ages =>
    intro s' hs' t ht
    cases row_from e hs' with
    | kept _ hs hsame =>
      rw [hsame.id] at ht
      rw [hsame.createdAt]
      exact h.ages _ hs t (born_of_row he hs ht)
    | created hfresh hi hb =>
      rw [hb] at ht
      rcases List.mem_cons.mp ht with ht | ht
      · rw [(Prod.mk.inj ht).2]
        rfl
      · obtain ⟨s, hs, hid⟩ := h.known _ ht
        exact absurd hid (Table.get?_eq_none.mp hfresh s hs)
    | rotated hs hid hr hv hi => exact h.ages _ hs t (born_of_row he hs ht)
  case known =>
    intro p hp
    have hold : p ∈ w.born → ∃ s ∈ (w.next e).db.sessions, s.id = p.1 := by
      intro hp
      obtain ⟨s, hs, hid⟩ := h.known p hp
      obtain ⟨s', hs', hid'⟩ := row_stays e hs
      exact ⟨s', hs', hid'.trans hid⟩
    rcases issued_cases w e he with ⟨-, hb⟩ | ⟨id, a, r, -, -, hrow, hb | ⟨hb, -⟩⟩
    · exact hold (hb ▸ hp)
    · exact hold (hb ▸ hp)
    · rw [hb] at hp
      rcases List.mem_cons.mp hp with rfl | hp
      · exact hrow
      · exact hold hp
  case held =>
    intro f hf
    have hold : (∃ s ∈ w.db.sessions, s.id = f.session.id) →
      ∃ s ∈ (w.next e).db.sessions, s.id = f.session.id := by
      rintro ⟨s, hs, hid⟩
      obtain ⟨s', hs', hid'⟩ := row_stays e hs
      exact ⟨s', hs', hid'.trans hid⟩
    rcases rotating_cases w e hf with hf | ⟨hs, -⟩
    · exact hold (h.held f hf)
    · exact hold ⟨_, hs, rfl⟩
  case checked =>
    intro f hf t ht
    rcases rotating_cases w e hf with hf | ⟨hs, ho⟩
    · obtain ⟨s, hs, hid⟩ := h.held f hf
      rw [← hid] at ht
      exact h.checked f hf t (hid ▸ born_of_row he hs ht)
    · exact le_of_not_outlived ho (h.ages _ hs t (born_of_row he hs ht))

theorem inv_start {w : SessionWorld} (h : w.Start) : w.Inv := by
  obtain ⟨hs, hr, hi, hb⟩ := h
  constructor
  all_goals simp [hs, hr, hi, hb]

theorem inv_run {w w' : SessionWorld} {es : List SessionEvent} (h : Lts.Run step w es w') (hw : w.Inv) : w'.Inv :=
  h.inv (fun _ _ _ hs h => hs.2 ▸ inv_step hs.1 h) hw

theorem inv_reachable {w : SessionWorld} (h : w.Reachable) : w.Inv :=
  h.inv (fun _ => inv_start) fun _ _ _ hs h => hs.2 ▸ inv_step hs.1 h

/-! ## Which tokens are let in -/

theorem sessionByAccessToken_live {now : Time} {token : String} {db : Db} {s : Session}
    (h : sessionByAccessToken now token db = .ok s) : ¬ s.expiresAt < now ∧ s.outlived now = false := by
  unfold sessionByAccessToken at h
  split at h
  · cases h
  · split at h
    · cases h
    · split at h
      · cases h
      · rename_i he ho
        cases h
        exact ⟨he, by simpa using ho⟩

def Accepted (db : Db) (now : Time) (token : String) : Prop :=
  (∃ s, sessionByAccessToken now token db = .ok s) ∨ ∃ s, sessionByRefreshToken now token db = .ok s

/-- Neither lookup finds the token at any time, and no rotation that holds it will find its row. -/
structure Refused (w : SessionWorld) (token : String) : Prop where
  lookups : ∀ now, ¬ Accepted w.db now token
  rotations : ∀ f ∈ w.rotating, f.refreshToken = token → ∀ now a r s',
    ((rotateSessionTx now f.session f.refreshToken a r).autocommit w.db).1 ≠ .ok s'

theorem accepted_row {db : Db} {now : Time} {token : String} (h : Accepted db now token) :
    ∃ s ∈ db.sessions, (s.tokenHash = hashToken token ∨ s.refreshHash = hashToken token) ∧
      s.revokedAt = none ∧
      s.outlived now = false := by
  rcases h with ⟨s, h⟩ | ⟨s, h⟩
  · obtain ⟨hs, ht, hv⟩ := sessionByAccessToken_ok h
    exact ⟨s, hs, .inl ht, hv, (sessionByAccessToken_live h).2⟩
  · obtain ⟨hs, hr, hv, ho⟩ := sessionByRefreshToken_ok h
    exact ⟨s, hs, .inr hr, hv, ho⟩

theorem refused_of {w : SessionWorld} {token : String}
    (h : ∀ s ∈ w.db.sessions, s.tokenHash = hashToken token ∨ s.refreshHash = hashToken token →
      s.revokedAt ≠ none) :
    w.Refused token := by
  constructor
  · intro now ha
    obtain ⟨s, hs, hm, hv, -⟩ := accepted_row ha
    exact h s hs hm hv
  · intro f hf hft now a r s' hr
    obtain ⟨s, hs, hh, hv, -⟩ := next_update_ok hr
    exact h s (Table.get?_eq_some.mp hs).1 (.inr (hft ▸ hh)) hv

theorem row_of_token {w : SessionWorld} (h : w.Inv) {i : Issued} (hi : i ∈ w.issued) {s : Session}
    (hs : s ∈ w.db.sessions) (hm : s.tokenHash = hashToken i.token ∨ s.refreshHash = hashToken i.token) :
    s.id = i.sessionID := by
  have hrow : ⟨i.token, s.id⟩ ∈ w.issued := by
    rcases hm with hm | hm
    · have := (h.rows s hs).1
      rw [hm] at this
      exact this
    · have := (h.rows s hs).2
      rw [hm] at this
      exact this
  exact congrArg Issued.sessionID (List.inj_on_of_nodup_map h.tokens hrow hi rfl)

theorem accepted_bound {w : SessionWorld} (h : w.Inv) {i : Issued} (hi : i ∈ w.issued) {t now : Time}
    (ht : (i.sessionID, t) ∈ w.born) (ha : Accepted w.db now i.token) : now ≤ t + refreshTokenLifetime := by
  obtain ⟨s, hs, hm, -, ho⟩ := accepted_row ha
  have hid := row_of_token h hi hs hm
  exact le_of_not_outlived ho (h.ages s hs t (hid ▸ ht))

/-! ## Revocation is final -/

structure Dead (id : Id) (w : SessionWorld) : Prop where
  known : ∃ s ∈ w.db.sessions, s.id = id
  revoked : ∀ s ∈ w.db.sessions, s.id = id → s.revokedAt ≠ none

theorem dead_step {id : Id} {w : SessionWorld} {e : SessionEvent} (h : Dead id w) : Dead id (w.next e) := by
  obtain ⟨⟨row, hrow, hid⟩, hdead⟩ := h
  constructor
  · obtain ⟨row', hrow', hid'⟩ := row_stays e hrow
    exact ⟨row', hrow', hid'.trans hid⟩
  · intro s' hs' hid' hv
    cases row_from e hs' with
    | kept _ hs hsame => exact hdead _ hs (hsame.id ▸ hid') (hsame.live hv)
    | created hfresh hi hb => exact Table.get?_eq_none.mp hfresh row hrow (hid.trans hid'.symm)
    | rotated hs hsid hr hv hi => exact hdead _ hs hid' hv

theorem dead_of_revoke {id : Id} {w : SessionWorld} (now : Time) (h : ∃ s ∈ w.db.sessions, s.id = id) :
    Dead id (w.next (.revoke now id)) := by
  obtain ⟨row, hrow, hid⟩ := h
  constructor
  · obtain ⟨row', hrow', hid'⟩ := row_stays (.revoke now id) hrow
    exact ⟨row', hrow', hid'.trans hid⟩
  · intro s' hs' hid' hv
    rcases mem_revokeSession.mp hs' with ⟨-, hp⟩ | ⟨s, -, -, rfl⟩
    · simp [hid', hv] at hp
    · cases hv

theorem refused_of_dead {id : Id} {w : SessionWorld} (hw : w.Inv) (h : Dead id w) {i : Issued} (hi : i ∈ w.issued)
    (hid : i.sessionID = id) : w.Refused i.token :=
  refused_of fun s hs hm => h.revoked s hs ((row_of_token hw hi hs hm).trans hid)

/-! ## A rotation replaces both tokens -/

structure Superseded (id : Id) (old : List Issued) (w : SessionWorld) : Prop where
  known : ∃ s ∈ w.db.sessions, s.id = id
  issued : old ⊆ w.issued
  replaced : ∀ s ∈ w.db.sessions, s.id = id → ∀ i ∈ old,
    s.tokenHash ≠ hashToken i.token ∧ s.refreshHash ≠ hashToken i.token

theorem hash_ne_of_fresh {w : SessionWorld} {a r : String} (h : w.Fresh a r) {i : Issued} (hi : i ∈ w.issued) :
    hashToken a ≠ hashToken i.token ∧ hashToken r ≠ hashToken i.token :=
  ⟨fun ha => (h.2 i hi).1 (hashToken_inj ha).symm, fun hr => (h.2 i hi).2 (hashToken_inj hr).symm⟩

theorem superseded_step {id : Id} {old : List Issued} {w : SessionWorld} {e : SessionEvent} (he : w.enabled e)
    (h : Superseded id old w) : Superseded id old (w.next e) := by
  obtain ⟨⟨row, hrow, hid⟩, hissued, hrep⟩ := h
  refine ⟨?_, fun i hi => issued_mono he (hissued hi), ?_⟩
  · obtain ⟨row', hrow', hid'⟩ := row_stays e hrow
    exact ⟨row', hrow', hid'.trans hid⟩
  · intro s' hs' hid' i hi
    cases row_from e hs' with
    | kept _ hs hsame =>
      rw [hsame.tokenHash, hsame.refreshHash]
      exact hrep _ hs (hsame.id ▸ hid') i hi
    | created hfresh hn hb => exact absurd (hid.trans hid'.symm) (Table.get?_eq_none.mp hfresh row hrow)
    | rotated hs hsid hr hv hn => exact hash_ne_of_fresh he.2.2 (hissued hi)

theorem superseded_of_update {w : SessionWorld} {now : Time} {f : Rotating} {a r : String} {s' : Session}
    (he : w.enabled (.update now f a r))
    (h : ((rotateSessionTx now f.session f.refreshToken a r).autocommit w.db).1 = .ok s') :
    Superseded f.session.id w.issued (w.next (.update now f a r)) := by
  obtain ⟨s, hs, -, -, hn⟩ := next_update_ok h
  have hid := (Table.get?_eq_some.mp hs).2
  rw [hn]
  refine ⟨⟨_, Table.mem_upsert.mpr (.inr rfl), hid⟩, fun i hi => ?_, fun row hrow hrid i hi => ?_⟩
  · exact List.mem_cons_of_mem _ (List.mem_cons_of_mem _ hi)
  · rcases Table.mem_upsert.mp hrow with ⟨-, hne⟩ | rfl
    · exact absurd (hrid.trans hid.symm) hne
    · exact hash_ne_of_fresh he.2.2 hi

theorem refused_of_superseded {id : Id} {old : List Issued} {w : SessionWorld} (hw : w.Inv)
    (h : Superseded id old w) {i : Issued} (hi : i ∈ old) (hid : i.sessionID = id) : w.Refused i.token := by
  apply refused_of
  intro s hs hm
  obtain ⟨ht, hr⟩ := h.replaced s hs ((row_of_token hw (h.issued hi) hs hm).trans hid) i hi
  rcases hm with hm | hm
  · exact absurd hm ht
  · exact absurd hm hr

/-- No token of a session is let in once the session is older than the absolute
lifetime, none once it is revoked, and none it had before a rotation once that
has been written. -/
theorem sessions_bounded {w : SessionWorld} (h : w.Reachable) :
    (∀ i ∈ w.issued, ∀ t, (i.sessionID, t) ∈ w.born → ∀ now, Accepted w.db now i.token →
      now ≤ t + refreshTokenLifetime) ∧
    (∀ f ∈ w.rotating, ∀ t, (f.session.id, t) ∈ w.born → f.readAt ≤ t + refreshTokenLifetime) ∧
    (∀ now id, w.enabled (.revoke now id) → (∃ s ∈ w.db.sessions, s.id = id) →
      ∀ es w', Lts.Run step (w.next (.revoke now id)) es w' →
      ∀ i ∈ w'.issued, i.sessionID = id → w'.Refused i.token) ∧
    ∀ now f a r s', w.enabled (.update now f a r) →
      ((rotateSessionTx now f.session f.refreshToken a r).autocommit w.db).1 = .ok s' →
      ∀ es w', Lts.Run step (w.next (.update now f a r)) es w' →
      ∀ i ∈ w.issued, i.sessionID = f.session.id → w'.Refused i.token := by
  have hw := inv_reachable h
  refine ⟨fun i hi t ht now => accepted_bound hw hi ht, hw.checked, ?_, ?_⟩
  · intro now id he hrow es w' hr i hi hid
    have hdead : Dead id w' := hr.inv (fun _ _ _ hs h => hs.2 ▸ dead_step h) (dead_of_revoke now hrow)
    exact refused_of_dead (inv_run hr (inv_step he hw)) hdead hi hid
  · intro now f a r s' he ho es w' hr i hi hid
    have hsup : Superseded f.session.id w.issued w' :=
      hr.inv (fun _ _ _ hs h => hs.2 ▸ superseded_step hs.1 h) (superseded_of_update he ho)
    exact refused_of_superseded (inv_run hr (inv_step he hw)) hsup hi hid

/-- One user, and nobody signed in. -/
def signedOut : SessionWorld where
  db := { Db.fresh with users := ⟨[pendingUser 0 "alice" "alice@home" "Alice" .user], by decide⟩ }
  clock := 0
  rotating := []
  issued := []
  born := []

def script (es : List SessionEvent) : SessionWorld := es.foldl next signedOut

theorem script_reachable {es : List SessionEvent} (h : Lts.Playable enabled next signedOut es) :
    (script es).Reachable :=
  ⟨signedOut, es, ⟨rfl, rfl, rfl, rfl⟩, Lts.run_script h⟩

/-- A sign-in, and a rotation that has read its row. -/
def rotationHeld : List SessionEvent :=
  [.create 0 "session-1" "access-1" "refresh-1" "alice" "laptop", .touch 60 "session-1", .select 90 "refresh-1"]

theorem sessions_bounded_revoked :
    ((script rotationHeld).next (.revoke 120 "session-1")).Refused "refresh-1" :=
  (sessions_bounded (@script_reachable rotationHeld (by decide))).2.2.1 120 "session-1" (by decide) (by decide)
    [] _ (.nil _) ⟨"refresh-1", "session-1"⟩ (by decide) rfl

end SessionWorld

end Keyhole.Store
