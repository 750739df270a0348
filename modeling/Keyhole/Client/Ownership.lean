import Keyhole.Client.Account

/-!
# Requests of one account

Which rows let a client act, and what the requests of one account leave of
the sessions, the recovery tokens and its own row.
-/

namespace Keyhole.Client
open Sql Store Http Vault

/-- `Within id db db'`: sessions and recovery tokens of others are those of before. -/
structure Within (id : Id) (db db' : Db) : Prop where
  sessions : ∀ s ∈ db'.sessions, s.userID = id ∨ ∃ s₀ ∈ db.sessions,
    s₀.tokenHash = s.tokenHash ∧ s₀.refreshHash = s.refreshHash ∧ s₀.userID = s.userID
  tokens : ∀ rt ∈ db'.recoveryTokens, rt.userID = id ∨ ∃ rt₀ ∈ db.recoveryTokens,
    rt₀.tokenHash = rt.tokenHash ∧ rt₀.userID = rt.userID

def Holds (id : Id) (db : Db) (t : SessionTokens) : Prop :=
  ∀ s ∈ db.sessions, s.tokenHash = hashToken t.accessToken ∨ s.refreshHash = hashToken t.refreshToken →
    s.userID = id

def Redeems (id : Id) (db : Db) (token : String) : Prop :=
  ∀ rt ∈ db.recoveryTokens, rt.tokenHash = hashToken token → rt.userID = id

theorem hashes_update {sessions : Table Session.id} {p : Session → Bool} {f : Session → Session}
    (hf : ∀ s, (f s).id = s.id)
    (hk : ∀ s, (f s).tokenHash = s.tokenHash ∧ (f s).refreshHash = s.refreshHash ∧ (f s).userID = s.userID) :
    ∀ s ∈ sessions.update p f hf, ∃ s₀ ∈ sessions,
      s₀.tokenHash = s.tokenHash ∧ s₀.refreshHash = s.refreshHash ∧ s₀.userID = s.userID := by
  intro s hm
  rcases Table.mem_update.mp hm with ⟨h, -⟩ | ⟨s₀, h, -, rfl⟩
  · exact ⟨s, h, rfl, rfl, rfl⟩
  · exact ⟨s₀, h, (hk s₀).1.symm, (hk s₀).2.1.symm, (hk s₀).2.2.symm⟩

namespace Within

variable {id : Id} {db db' db'' : Db}

theorem refl (id : Id) (db : Db) : Within id db db where
  sessions s hs := Or.inr ⟨s, hs, rfl, rfl, rfl⟩
  tokens rt hrt := Or.inr ⟨rt, hrt, rfl, rfl⟩

theorem trans (h : Within id db db') (h' : Within id db' db'') : Within id db db'' where
  sessions s hs := by
    rcases h'.sessions s hs with hid | ⟨s₁, hs₁, ht, hr, hu⟩
    · exact Or.inl hid
    · rcases h.sessions s₁ hs₁ with hid | ⟨s₀, hs₀, ht₀, hr₀, hu₀⟩
      · exact Or.inl (hu.symm.trans hid)
      · exact Or.inr ⟨s₀, hs₀, ht₀.trans ht, hr₀.trans hr, hu₀.trans hu⟩
  tokens rt hrt := by
    rcases h'.tokens rt hrt with hid | ⟨rt₁, hrt₁, ht, hu⟩
    · exact Or.inl hid
    · rcases h.tokens rt₁ hrt₁ with hid | ⟨rt₀, hrt₀, ht₀, hu₀⟩
      · exact Or.inl (hu.symm.trans hid)
      · exact Or.inr ⟨rt₀, hrt₀, ht₀.trans ht, hu₀.trans hu⟩

theorem holds (h : Within id db db') {t : SessionTokens} (ht : Holds id db t) : Holds id db' t := by
  intro s hs hh
  rcases h.sessions s hs with hid | ⟨s₀, hs₀, htok, href, hu⟩
  · exact hid
  · rw [← htok, ← href] at hh
    exact hu.symm.trans (ht s₀ hs₀ hh)

theorem redeems (h : Within id db db') {token : String} (ht : Redeems id db token) : Redeems id db' token := by
  intro rt hrt hh
  rcases h.tokens rt hrt with hid | ⟨rt₀, hrt₀, htok, hu⟩
  · exact hid
  · exact hu.symm.trans (ht rt₀ hrt₀ (htok.trans hh))

theorem of_update {sessions : Table Session.id} {p : Session → Bool} {f : Session → Session}
    (hf : ∀ s, (f s).id = s.id) (hs : sessions = db.sessions.update p f hf)
    (hk : ∀ s, (f s).tokenHash = s.tokenHash ∧ (f s).refreshHash = s.refreshHash ∧ (f s).userID = s.userID) :
    ∀ s ∈ sessions, s.userID = id ∨ ∃ s₀ ∈ db.sessions,
      s₀.tokenHash = s.tokenHash ∧ s₀.refreshHash = s.refreshHash ∧ s₀.userID = s.userID := by
  intro s hm
  rw [hs] at hm
  exact Or.inr (hashes_update hf hk s hm)

theorem of_touch (now : Time) (sessionID : Id) : Within id db (touchSession now sessionID db) where
  sessions := of_update (f := (·.touched now)) (fun _ => rfl) rfl fun _ => ⟨rfl, rfl, rfl⟩
  tokens rt hrt := Or.inr ⟨rt, hrt, rfl, rfl⟩

theorem of_end {now : Time} {userID keep : Id} (hs : db'.sessions = endOtherSessions now userID keep db.sessions)
    (ht : db'.recoveryTokens = db.recoveryTokens) : Within id db db' where
  sessions := of_update (f := (·.revoked now)) (fun _ => rfl) hs fun _ => ⟨rfl, rfl, rfl⟩
  tokens rt hrt := Or.inr ⟨rt, ht ▸ hrt, rfl, rfl⟩

theorem of_retire {now : Time} {rtID userID : Id} (hs : db'.sessions = endOtherSessions now userID "" db.sessions)
    (ht : db'.recoveryTokens = retireTokens now rtID userID db.recoveryTokens) : Within id db db' where
  sessions := of_update (f := (·.revoked now)) (fun _ => rfl) hs fun _ => ⟨rfl, rfl, rfl⟩
  tokens rt hm := by
    right
    rw [ht] at hm
    have hold : ∃ rt₁ ∈ db.recoveryTokens.update (fun t => t.id = rtID && t.usedAt.isNone) (·.spent now),
        rt₁.tokenHash = rt.tokenHash ∧ rt₁.userID = rt.userID := by
      rcases Table.mem_update.mp hm with ⟨h, -⟩ | ⟨rt₁, h, -, rfl⟩
      · exact ⟨rt, h, rfl, rfl⟩
      · exact ⟨rt₁, h, rfl, rfl⟩
    obtain ⟨rt₁, h₁, htok, hu⟩ := hold
    rcases Table.mem_update.mp h₁ with ⟨h, -⟩ | ⟨rt₀, h, -, rfl⟩
    · exact ⟨rt₁, h, htok, hu⟩
    · exact ⟨rt₀, h, htok, hu⟩

end Within

theorem hashes_of_free {db : Db} {row s : Session} (hf : hashesFree db row = true) (hs : s ∈ db.sessions)
    (hid : s.id ≠ row.id) : s.tokenHash ≠ row.tokenHash ∧ s.refreshHash ≠ row.refreshHash := by
  unfold hashesFree at hf
  rw [Bool.not_eq_true', ← Bool.not_eq_true, Table.any_eq_true] at hf
  constructor
  · intro h
    exact hf ⟨s, hs, by simp [hid, h]⟩
  · intro h
    exact hf ⟨s, hs, by simp [hid, h]⟩

theorem holds_created {db : Db} {now : Time} {id userID : Id} {t : SessionTokens} {label : String}
    {sessions : Table Session.id}
    (hi : db.sessions.insert? (newSession now id t.accessToken t.refreshToken userID label) = some sessions)
    (hf : hashesFree db (newSession now id t.accessToken t.refreshToken userID label) = true) :
    Holds userID { db with sessions } t := by
  intro s hs hh
  rcases (Table.mem_insert? hi).mp hs with hs | rfl
  · have hid : s.id ≠ id := Table.get?_eq_none.mp (Table.insert?_fresh hi) s hs
    obtain ⟨h₁, h₂⟩ := hashes_of_free hf hs hid
    rcases hh with hh | hh
    · exact absurd hh h₁
    · exact absurd hh h₂
  · rfl

theorem holds_rotated {db : Db} {now : Time} {row : Session} {t : SessionTokens}
    (hf : hashesFree db (row.rotated now t.accessToken t.refreshToken) = true) :
    Holds row.userID
      { db with sessions := db.sessions.upsert (row.rotated now t.accessToken t.refreshToken) } t := by
  intro s hs hh
  rcases Table.mem_upsert.mp hs with ⟨hs, hne⟩ | rfl
  · obtain ⟨h₁, h₂⟩ := hashes_of_free hf hs hne
    rcases hh with hh | hh
    · exact absurd hh h₁
    · exact absurd hh h₂
  · rfl

/-! ## What a command leaves of them -/

theorem hashes_after (c : Command) (db : Db) : ∀ s ∈ (c.run db).sessions,
    (∃ s₀ ∈ db.sessions, s₀.tokenHash = s.tokenHash ∧ s₀.refreshHash = s.refreshHash ∧
      s₀.userID = s.userID) ∨
    ∃ access ∈ c.draws, ∃ refresh ∈ c.draws, s.tokenHash = hashToken access ∧
      s.refreshHash = hashToken refresh := by
  have hrevoked : ∀ (now : Time) (which : Session → Bool),
      ∀ s ∈ db.sessions.update (fun s => which s && s.revokedAt.isNone) (·.revoked now), ∃ s₀ ∈ db.sessions,
        s₀.tokenHash = s.tokenHash ∧ s₀.refreshHash = s.refreshHash ∧ s₀.userID = s.userID :=
    fun now which => hashes_update (f := (·.revoked now)) (fun _ => rfl) fun _ => ⟨rfl, rfl, rfl⟩
  have he := account_effect c db
  intro s hs
  have hs' : s ∈ (c.run db).toAccounts.sessions := hs
  generalize (c.run db).toAccounts = a at he hs'
  generalize c.mark db = m at he
  cases he with
  | sessionCreated hi =>
    rcases (Table.mem_insert? hi).mp hs' with h | rfl
    · exact Or.inl ⟨s, h, rfl, rfl, rfl⟩
    · exact Or.inr ⟨_, by simp [Command.draws], _, by simp [Command.draws], rfl, rfl⟩
  | sessionRotated =>
    rcases Table.mem_upsert.mp hs' with ⟨h, -⟩ | rfl
    · exact Or.inl ⟨s, h, rfl, rfl, rfl⟩
    · exact Or.inr ⟨_, by simp [Command.draws], _, by simp [Command.draws], rfl, rfl⟩
  | @sessionTouched now id =>
    exact Or.inl (hashes_update (f := (·.touched now)) (fun _ => rfl) (fun _ => ⟨rfl, rfl, rfl⟩) s hs')
  | sessionsRevoked _ which => exact Or.inl (hrevoked _ which s hs')
  | passwordRotated => exact Or.inl (hrevoked _ _ s hs')
  | recovered => exact Or.inl (hrevoked _ _ s hs')
  | disabled => exact Or.inl (hrevoked _ _ s hs')
  | reset => exact Or.inl (hrevoked _ _ s hs')
  | userDeleted => exact Or.inl ⟨s, (Table.mem_delete.mp hs').1, rfl, rfl, rfl⟩
  | _ => exact Or.inl ⟨s, hs', rfl, rfl, rfl⟩

theorem Holds.after {id : Id} {db : Db} {t : SessionTokens} (h : Holds id db t) {c : Command}
    (ha : t.accessToken ∉ c.draws) (hr : t.refreshToken ∉ c.draws) : Holds id (c.run db) t := by
  intro s hs hh
  rcases hashes_after c db s hs with ⟨s₀, h₀, htok, href, hu⟩ | ⟨access, hacc, refresh, href, hatok, hrtok⟩
  · rw [← htok, ← href] at hh
    exact hu.symm.trans (h s₀ h₀ hh)
  · rcases hh with hh | hh
    · cases hashToken_inj (hatok.symm.trans hh)
      exact absurd hacc ha
    · cases hashToken_inj (hrtok.symm.trans hh)
      exact absurd href hr

/-! ## What a handler leaves of them -/

section
variable {id : Id} {db : Db}

theorem login_holds {email : String} (authHash label : String) (now : Time) (draw : Draw)
    (he : ∀ u, userByEmail email db = .ok u → u.id = id) :
    (∃ r, handleLogin email authHash label now draw db = (.error r, db)) ∨
    ∃ user sessions answer, userByEmail email db = .ok user ∧
      handleLogin email authHash label now draw db = (.ok answer, { db with sessions }) ∧
      answer.protectedUserKey = user.protectedUserKey.getD "" ∧
      answer.encryptedPrivateKey = user.encryptedPrivateKey.getD "" ∧
      Within id db { db with sessions } ∧
      Holds id { db with sessions } ⟨answer.accessToken, answer.refreshToken⟩ := by
  rcases handleLogin_cases email authHash label now draw db with h | ⟨user, sessions, hu, -, -, hi, hf, h⟩
  · exact Or.inl h
  · right
    refine ⟨user, sessions, _, hu, h, rfl, rfl, ⟨?_, ?_⟩, ?_⟩
    · intro s hs
      rcases (Table.mem_insert? hi).mp hs with hs | rfl
      · exact Or.inr ⟨s, hs, rfl, rfl, rfl⟩
      · exact Or.inl (he user hu)
    · exact fun rt hrt => Or.inr ⟨rt, hrt, rfl, rfl⟩
    · rw [← he user hu]
      exact holds_created (t := ⟨draw.token, draw.refresh⟩) hi hf

theorem recover_redeems {email authHash : String} {now : Time} {draw : Draw}
    (he : ∀ u, userByEmail email db = .ok u → u.id = id) :
    (∃ r, handleRecover email authHash now draw db = (.error r, db)) ∨
    ∃ user recoveryTokens answer, userByEmail email db = .ok user ∧
      handleRecover email authHash now draw db = (.ok answer, { db with recoveryTokens }) ∧
      answer.recoveryProtectedUserKey = user.recoveryProtectedUserKey.getD "" ∧
      answer.encryptedPrivateKey = user.encryptedPrivateKey.getD "" ∧
      Within id db { db with recoveryTokens } ∧ Redeems id { db with recoveryTokens } answer.recoveryToken := by
  rcases handleRecover_cases email authHash now draw db with h | ⟨user, recoveryTokens, hu, hi, hf, h⟩
  · exact Or.inl h
  · right
    refine ⟨user, recoveryTokens, _, hu, h, rfl, rfl, ⟨?_, ?_⟩, ?_⟩
    · exact fun s hs => Or.inr ⟨s, hs, rfl, rfl, rfl⟩
    · intro rt hrt
      rcases (Table.mem_insert? hi).mp hrt with hrt | rfl
      · exact Or.inr ⟨rt, hrt, rfl, rfl⟩
      · exact Or.inl (he user hu)
    · intro rt hrt hh
      rcases (Table.mem_insert? hi).mp hrt with hrt | rfl
      · exact absurd hh (hf rt hrt)
      · exact he user hu

theorem refresh_holds {t : SessionTokens} (now : Time) (draw : Draw) (ht : Holds id db t) :
    Within id db (handleRefresh t.refreshToken now draw db).2 ∧
    ∀ next, (handleRefresh t.refreshToken now draw db).1 = .ok next →
      Holds id (handleRefresh t.refreshToken now draw db).2 ⟨next.accessToken, next.refreshToken⟩ := by
  rcases handleRefresh_cases t.refreshToken now draw db with ⟨r, h⟩ | ⟨s, hs, hh, hf, hdb, hok⟩
  · rw [h]
    exact ⟨.refl id db, fun next hn => by cases hn⟩
  · have hu : s.userID = id := ht s hs (Or.inr hh)
    rw [hdb]
    refine ⟨⟨?_, fun rt hrt => Or.inr ⟨rt, hrt, rfl, rfl⟩⟩, ?_⟩
    · intro x hx
      rcases Table.mem_upsert.mp hx with ⟨hx, -⟩ | rfl
      · exact Or.inr ⟨x, hx, rfl, rfl, rfl⟩
      · exact Or.inl hu
    · intro next hn
      cases hok next hn
      rw [← hu]
      exact holds_rotated (t := ⟨draw.token, draw.refresh⟩) hf

end

/-! ## A flow of this account -/

/-- The account's device in the middle of a flow that began with `db₀`. -/
structure Ours {K : Type} (id : Id) (keys : UnlockedKeys K) (db₀ : Db) (s : Scene K) : Prop where
  within : Within id db₀ s.db
  tokens : ∀ t ∈ s.device.tokens, Holds id s.db t
  keys : ∀ k ∈ s.device.keys, k = keys

def Row (id : Id) (Q : User → Prop) (users : Table User.id) : Prop := ∃ u, users.get? id = some u ∧ Q u

section
variable {K α : Type} {id : Id} {keys : UnlockedKeys K} {db₀ : Db} {s : Scene K} {Q : User → Prop}

theorem Ours.keep (h : Ours id keys db₀ s) {db : Db} (hw : Within id s.db db) : Ours id keys db₀ { s with db } where
  within := h.within.trans hw
  tokens t ht := hw.holds (h.tokens t ht)
  keys := h.keys

theorem Ours.rebase (h : Ours id keys db₀ s) : Ours id keys s.db s where
  within := .refl id s.db
  tokens := h.tokens
  keys := h.keys

theorem Ours.owner (h : Ours id keys db₀ s) {t : String} (ht : s.device.accessToken = some t) {session : Session}
    (hs : session ∈ s.db.sessions) (hh : session.tokenHash = hashToken t) : session.userID = id := by
  unfold Device.accessToken at ht
  cases htok : s.device.tokens with
  | none => simp [htok] at ht
  | some tokens =>
    simp only [htok, Option.map_some, Option.some.injEq] at ht
    exact h.tokens tokens htok session hs (Or.inl (by rw [hh, ht]))

theorem Ours.refreshed (h : Ours id keys db₀ s) (hop : Hop) :
    Ours id keys db₀ (onUnauthorized hop s).2 ∧ (onUnauthorized hop s).2.db.users = s.db.users := by
  refine ⟨?_, onUnauthorized_users hop s⟩
  unfold onUnauthorized
  cases ht : s.device.tokens with
  | none => exact h
  | some tokens =>
    obtain ⟨hw, hnew⟩ := refresh_holds hop.now hop.draw (h.tokens tokens ht)
    have hlocked : ∀ db, Within id s.db db → Ours id keys db₀ ⟨.locked, db⟩ := by
      intro db hdb
      exact ⟨h.within.trans hdb, fun t ht => (nomatch ht), fun k hk => (nomatch hk)⟩
    have hserve := serve_db hop none (fun _ => handleRefresh tokens.refreshToken) s.db
    cases hr : hop.serve none (fun _ => handleRefresh tokens.refreshToken) s.db with
    | mk answer db =>
      rw [hr] at hserve
      simp only [hr]
      cases answer with
      | ok next =>
        have hok : handleRefresh tokens.refreshToken hop.now hop.draw s.db = (.ok next, db) := serve_ok hr
        rw [hok] at hw hnew
        refine ⟨h.within.trans hw, ?_, h.keys⟩
        intro t htok
        cases htok
        exact hnew next rfl
      | error e =>
        rcases hserve with hd | hd
        · cases hd
          exact hlocked s.db (.refl id s.db)
        · cases hd
          exact hlocked _ hw

theorem read_triple {U : Table User.id → Prop} {handler : Handler α} {wire : Wire}
    (hh : ∀ token now draw db, (handler token now draw db).2 = db) :
    Fallible.Triple (fun s => Ours id keys db₀ s ∧ U s.db.users) (request wire handler) fun _ s =>
      Ours id keys db₀ s ∧ U s.db.users := by
  refine (request_triple (I := fun s => Ours id keys db₀ s ∧ U s.db.users) ?_ ?_).conseq (fun s h => h) ?_
  · intro s now draw h
    simpa only [hh] using h
  · intro s hop h
    obtain ⟨ho, hu⟩ := h.1.refreshed hop
    exact ⟨ho, by rw [hu]; exact h.2⟩
  · intro a s' ⟨s, now, draw, h, hr, hd⟩
    have hdb : s'.db = s.db := by
      have := hh s.device.accessToken now draw s.db
      rw [hr] at this
      exact this
    have hs : s' = s := by
      cases s; cases s'
      simp only at hdb hd
      rw [hdb, hd]
    rw [hs]
    exact h

theorem userByEmail_congr {email : String} {db db' : Db} (h : db'.users = db.users) :
    userByEmail email db' = userByEmail email db := by
  unfold userByEmail
  rw [h]

theorem add_triple {handler : Handler α} {wire : Wire} {A : α → Db → Prop}
    (hh : ∀ s : Scene K, Ours id keys db₀ s → s.db.users = db₀.users → ∀ token now draw,
      (∃ r, handler token now draw s.db = (.error r, s.db)) ∨
      ∃ a db, handler token now draw s.db = (.ok a, db) ∧ Within id s.db db ∧ db.users = s.db.users ∧ A a db) :
    Fallible.Triple (fun s => Ours id keys db₀ s ∧ s.db.users = db₀.users) (request wire handler) fun a s =>
      (Ours id keys db₀ s ∧ s.db.users = db₀.users) ∧ A a s.db := by
  refine (request_triple (I := fun s => Ours id keys db₀ s ∧ s.db.users = db₀.users) ?_ ?_).conseq
    (fun s h => h) ?_
  · intro s now draw ⟨ho, hu⟩
    rcases hh s ho hu s.device.accessToken now draw with ⟨r, h⟩ | ⟨a, db, h, hw, hsame, -⟩
    · rw [h]
      exact ⟨ho, hu⟩
    · rw [h]
      exact ⟨ho.keep hw, hsame.trans hu⟩
  · intro s hop h
    obtain ⟨ho, hu⟩ := h.1.refreshed hop
    exact ⟨ho, hu.trans h.2⟩
  · intro a s' ⟨s, now, draw, ⟨ho, hu⟩, hr, hd⟩
    rcases hh s ho hu s.device.accessToken now draw with ⟨r, h⟩ | ⟨a', db, h, hw, hsame, ha⟩
    · rw [h] at hr
      cases hr
    · rw [h] at hr
      cases hr
      have hkeep := ho.keep hw
      refine ⟨⟨⟨hkeep.within, ?_, ?_⟩, hsame.trans hu⟩, ha⟩
      · rw [hd]; exact hkeep.tokens
      · rw [hd]; exact hkeep.keys

/-- The handler replaces the account's row by `g` of it, or refuses. -/
def Replaces (id : Id) (keys : UnlockedKeys K) (db₀ : Db) (handler : Handler α)
    (g : Time → Draw → User → User) : Prop :=
  ∀ s now draw, Ours id keys db₀ s →
    Within id s.db (handler s.device.accessToken now draw s.db).2 ∧
    ((handler s.device.accessToken now draw s.db).2.users = s.db.users ∧
      (∃ r, (handler s.device.accessToken now draw s.db).1 = .error r) ∨
    ∃ u, s.db.users.get? id = some u ∧
      (handler s.device.accessToken now draw s.db).2.users = s.db.users.upsert (g now draw u))

theorem replace_triple {handler : Handler α} {wire : Wire} {g : Time → Draw → User → User}
    (h : Replaces id keys db₀ handler g) (hg : ∀ now draw u, (g now draw u).id = u.id)
    (hq : ∀ now draw u, Q u → Q (g now draw u)) :
    Fallible.Triple (fun s => Ours id keys db₀ s ∧ Row id Q s.db.users) (request wire handler) fun _ s =>
      Ours id keys db₀ s ∧ Row id (fun u' => ∃ now draw u, Q u ∧ u' = g now draw u) s.db.users := by
  have hrow : ∀ {s : Scene K} {u : User} (now : Time) (draw : Draw), s.db.users.get? id = some u →
      (s.db.users.upsert (g now draw u)).get? id = some (g now draw u) := by
    intro s u now draw hu
    rw [Table.get?_upsert, if_pos]
    rw [hg]
    exact (Table.get?_eq_some.mp hu).2
  refine (request_triple (I := fun s => Ours id keys db₀ s ∧ Row id Q s.db.users) ?_ ?_).conseq (fun s h => h) ?_
  · intro s now draw ⟨ho, u, hu, hqu⟩
    obtain ⟨hw, hc⟩ := h s now draw ho
    refine ⟨ho.keep hw, ?_⟩
    rcases hc with ⟨hsame, -⟩ | ⟨u', hu', hup⟩
    · exact ⟨u, by rw [hsame]; exact hu, hqu⟩
    · rw [hu] at hu'
      cases hu'
      exact ⟨_, by rw [hup]; exact hrow now draw hu, hq now draw u hqu⟩
  · intro s hop hs
    obtain ⟨ho, hu⟩ := hs.1.refreshed hop
    exact ⟨ho, by rw [hu]; exact hs.2⟩
  · intro a s' ⟨s, now, draw, ⟨ho, u, hu, hqu⟩, hr, hd⟩
    obtain ⟨hw, hc⟩ := h s now draw ho
    rw [hr] at hw hc
    have hkeep := ho.keep hw
    refine ⟨⟨hkeep.within, ?_, ?_⟩, ?_⟩
    · rw [hd]; exact hkeep.tokens
    · rw [hd]; exact hkeep.keys
    · rcases hc with ⟨-, r, hne⟩ | ⟨u', hu', hup⟩
      · cases hne
      · rw [hu] at hu'
        cases hu'
        exact ⟨_, by rw [hup]; exact hrow now draw hu, now, draw, u, hqu, rfl⟩

theorem rotatePassword_replaces (req : RotatePasswordRequest) :
    Replaces id keys db₀ (handleRotatePassword req) fun now draw u => u.passwordRotated now (req.input draw) := by
  intro s now draw ho
  rcases handleRotatePassword_cases req s.device.accessToken now draw s.db with
    ⟨r, h⟩ | ⟨t, user, session, ht, hs, hh, hu, ⟨r, h⟩ | ⟨auditLog, h⟩⟩
  · rw [h]
    exact ⟨.refl id s.db, Or.inl ⟨rfl, r, rfl⟩⟩
  · rw [h]
    exact ⟨.of_touch now session.id, Or.inl ⟨rfl, r, rfl⟩⟩
  · rw [h]
    rw [ho.owner ht hs hh] at hu
    exact ⟨(Within.of_touch now session.id).trans (.of_end rfl rfl), Or.inr ⟨user, hu, rfl⟩⟩

theorem rotateRecovery_replaces (req : RotateRecoveryRequest) :
    Replaces id keys db₀ (handleRotateRecovery req) fun now draw u => u.recoveryRotated now (req.input draw) := by
  intro s now draw ho
  rcases handleRotateRecovery_cases req s.device.accessToken now draw s.db with
    ⟨r, h⟩ | ⟨t, user, session, ht, hs, hh, hu, ⟨r, h⟩ | ⟨auditLog, answer, h⟩⟩
  · rw [h]
    exact ⟨.refl id s.db, Or.inl ⟨rfl, r, rfl⟩⟩
  · rw [h]
    exact ⟨.of_touch now session.id, Or.inl ⟨rfl, r, rfl⟩⟩
  · rw [h]
    rw [ho.owner ht hs hh] at hu
    have hw : Within id s.db (touchSession now session.id s.db) := .of_touch now session.id
    exact ⟨⟨hw.sessions, hw.tokens⟩, Or.inr ⟨user, hu, rfl⟩⟩

theorem recoverComplete_replaces (req : RecoverCompleteRequest) (hr : Redeems id db₀ req.recoveryToken) :
    Replaces id keys db₀ (fun _ => handleRecoverComplete req) fun now draw u =>
      (u.passwordRotated now (req.password draw)).recoveryRotated now (req.recovery draw) := by
  intro s now draw ho
  rcases handleRecoverComplete_cases req now draw s.db with ⟨r, h⟩ | ⟨rt, u, auditLog, hrt, hh, hu, h⟩
  · beta_reduce
    rw [h]
    exact ⟨.refl id s.db, Or.inl ⟨rfl, r, rfl⟩⟩
  · beta_reduce
    rw [h]
    rw [ho.within.redeems hr rt hrt hh] at hu
    exact ⟨.of_retire rfl rfl, Or.inr ⟨u, hu, rfl⟩⟩

end

end Keyhole.Client
