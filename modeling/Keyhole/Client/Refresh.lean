import Keyhole.Client.Api
import Keyhole.Http.Items

/-!
# Requests that refresh at the same time

Each request refreshes on its own after a 401, and sends itself once more. The
requests of one session share its tokens and nothing else. The server honours
one pair at a time; pairs are numbered in the order it issues them.
-/

namespace Keyhole.Client.Refresh
open Sql Store Http

/-! ## The pair the server honours -/

structure Honours (db : Db) (tokens : SessionTokens) (row : Session) : Prop where
  mem : row ∈ db.sessions
  tokenHash : row.tokenHash = hashToken tokens.accessToken
  refreshHash : row.refreshHash = hashToken tokens.refreshToken
  unrevoked : row.revokedAt = none
  free : hashesFree db row = true
  active : ∃ u, db.users.get? row.userID = some u ∧ u.status = .active
  named : tokens.accessToken ≠ ""

def Honoured (db : Db) (tokens : SessionTokens) : Prop := ∃ row, Honours db tokens row

/-- `auth.NewToken` does not repeat a token that is in use. -/
def freshDraw (draw : Draw) (db : Db) : Bool :=
  draw.token ≠ "" &&
    !db.sessions.any fun s => s.tokenHash = hashToken draw.token || s.refreshHash = hashToken draw.refresh

/-! ## The requests -/

/-- A request behind `requireAuth` that ends no session and answers no 401 of its own. -/
structure Endpoint (α : Type) where
  next : Time → Draw → User → Session → Db → Reply α
  authorised : ∀ now draw user session db r,
    (next now draw user session db).1 = .error r → (toApiError r).status ≠ some 401
  honoured : ∀ now draw user session db tokens,
    Honoured db tokens → Honoured (next now draw user session db).2 tokens

def Endpoint.handler {α : Type} (endpoint : Endpoint α) : Handler α := fun token now draw db =>
  withAuth token now db (endpoint.next now draw)

def handleCreateItem (req : ItemRequest) (now : Time) (draw : Draw) (user : User) (db : Db) : Reply Item :=
  match checkCollectionTarget db req.collectionTarget user.id with
  | .error r => (.error r, db)
  | .ok () =>
    match createItem now draw.id user.id req.input db with
    | (.ok item, db) => (.ok item, db)
    | (.error e, db) => (.error (writeStoreError e), db)

theorem handleCreateItem_cases (req : ItemRequest) (now : Time) (draw : Draw) (user : User) (db : Db) :
    (∃ r, handleCreateItem req now draw user db = (.error r, db) ∧ (toApiError r).status ≠ some 401) ∨
      ∃ item items revisionSequence, handleCreateItem req now draw user db =
        (.ok item, { db with items := items, revisionSequence := revisionSequence }) := by
  unfold handleCreateItem
  cases hc : checkCollectionTarget db req.collectionTarget user.id with
  | error r =>
    refine .inl ⟨r, rfl, ?_⟩
    unfold checkCollectionTarget at hc
    split at hc
    · cases hc
    · split at hc
      · cases hc
      · cases hc
        simp [toApiError, Failure.status]
  | ok _ =>
    rcases @createItem_eq now draw.id user.id req.input db with ⟨item, db', hi, hb⟩ | ⟨e, hi⟩
    · obtain ⟨items, -, -, rfl, -⟩ := insertItems_ok (createItemsBulk_ok hb).2
      simp only [hi]
      exact .inr ⟨item, _, _, rfl⟩
    · simp only [hi]
      refine .inl ⟨_, rfl, ?_⟩
      cases e <;> simp [writeStoreError, toApiError, Failure.status]

/-- Saving an item, with a body that can be read. -/
def Endpoint.creating (req : ItemRequest) : Endpoint Item where
  next now draw user _ db := handleCreateItem req now draw user db
  authorised now draw user _ db r h := by
    rcases handleCreateItem_cases req now draw user db with ⟨r', hr, hne⟩ | ⟨item, items, revision, hr⟩
    · rw [hr] at h
      cases h
      exact hne
    · rw [hr] at h
      cases h
  honoured now draw user _ db tokens h := by
    rcases handleCreateItem_cases req now draw user db with ⟨r', hr, -⟩ | ⟨item, items, revision, hr⟩
    · rwa [hr]
    · obtain ⟨row, hrow⟩ := h
      rw [hr]
      exact ⟨row, hrow.mem, hrow.tokenHash, hrow.refreshHash, hrow.unrevoked, hrow.free, hrow.active, hrow.named⟩

def unauthorised {α : Type} : Except Failure α → Bool
  | .ok _ => false
  | .error e => e.status = some 401

/-- Where a request is. A number beside a token is that of its pair; `resending`
is the moment between `replaceTokens` and the second `send`. -/
inductive Phase (α : Type)
  | idle
  | sent (retry : Bool) (token : Option String) (number : Nat)
  | answered (retry : Bool) (answer : Except Failure α)
  | refreshing (cause : Failure) (refreshToken : String) (number : Nat)
  | renewed (cause : Failure) (answer : Except Response RefreshResponse) (number : Nat)
  | resending
  | done (answer : Except Failure α)

/-- `held` is the number of the device's pair, `issued` of the server's. -/
structure World (K α : Type) where
  device : Device K
  db : Db
  calls : Nat → Phase α
  held : Nat
  issued : Nat

inductive Event
  | send (i : Nat)
  | serve (i : Nat) (now : Time) (draw : Draw)
  | deliver (i : Nat)
  deriving DecidableEq, Repr

namespace World

variable {K α : Type} (api : Nat → Endpoint α)

def moved (w : World K α) (i : Nat) (phase : Phase α) : World K α :=
  { w with calls := fun j => if j = i then phase else w.calls j }

/-- The first statements after a `send` has been answered. -/
def receive (w : World K α) (i : Nat) (retry : Bool) (answer : Except Failure α) : World K α :=
  match answer, retry, w.device.tokens with
  | .ok a, _, _ => w.moved i (.done (.ok a))
  | .error e, true, _ => w.moved i (.done (.error e))
  | .error e, false, none => w.moved i (.done (.error e))
  | .error e, false, some tokens =>
    if e.status = some 401 then w.moved i (.refreshing e tokens.refreshToken w.held)
    else w.moved i (.done (.error e))

def next (w : World K α) : Event → World K α
  | .send i =>
    match w.calls i with
    | .idle => w.moved i (.sent false w.device.accessToken w.held)
    | .resending => w.moved i (.sent true w.device.accessToken w.held)
    | _ => w
  | .serve i now draw =>
    match w.calls i with
    | .sent retry token _ =>
      let (answer, db) := (api i).handler token now draw w.db
      { w.moved i (.answered retry (answer.mapError toApiError)) with db }
    | .refreshing cause refreshToken _ =>
      match handleRefresh refreshToken now draw w.db with
      | (.ok tokens, db) =>
        { w.moved i (.renewed cause (.ok tokens) (w.issued + 1)) with db, issued := w.issued + 1 }
      | (.error r, db) => { w.moved i (.renewed cause (.error r) w.issued) with db }
    | _ => w
  | .deliver i =>
    match w.calls i with
    | .answered retry answer => w.receive i retry answer
    | .renewed _ (.ok tokens) number =>
      { w.moved i .resending with
        device := { w.device with tokens := some ⟨tokens.accessToken, tokens.refreshToken⟩ }, held := number }
    | .renewed cause (.error _) _ => { w.moved i (.done (.error cause)) with device := .locked }
    | _ => w

def enabled (w : World K α) : Event → Bool
  | .send i => match w.calls i with | .idle | .resending => true | _ => false
  | .serve i _ draw => freshDraw draw w.db && match w.calls i with | .sent .. | .refreshing .. => true | _ => false
  | .deliver i => match w.calls i with | .answered .. | .renewed .. => true | _ => false

def step : World K α → Event → World K α → Prop := Lts.Stepwise (fun w e => enabled w e = true) (next api)

/-! ## One request alone -/

def alone (i : Nat) (wire : Wire) : List Event :=
  [.send i, .serve i wire.first.now wire.first.draw, .deliver i,
    .serve i wire.refresh.now wire.refresh.draw, .deliver i,
    .send i, .serve i wire.second.now wire.second.draw, .deliver i]

section
variable {w : World K α} {i : Nat} {hop : Hop}

theorem send_serve (retry : Bool) (hw : w.calls i = if retry then .resending else .idle)
    (hd : hop.delivery = .delivered) :
    ∃ w', [.send i, .serve i hop.now hop.draw].foldl (next api) w = w' ∧
      w'.calls i = .answered retry ((send hop (api i).handler).run ⟨w.device, w.db⟩).1 ∧ w'.device = w.device ∧
      w'.db = ((send hop (api i).handler).run ⟨w.device, w.db⟩).2.db := by
  refine ⟨_, rfl, ?_⟩
  rw [send_run, serve_delivered hd]
  cases retry with
  | false => simp [next, hw, moved]
  | true => simp [next, hw, moved]

theorem serve_deliver {cause : Failure} {tokens : SessionTokens} {number : Nat}
    (hw : w.calls i = .refreshing cause tokens.refreshToken number) (ht : w.device.tokens = some tokens)
    (hd : hop.delivery = .delivered) :
    ∃ w', [.serve i hop.now hop.draw, .deliver i].foldl (next api) w = w' ∧
      w'.calls i = (if (onUnauthorized hop ⟨w.device, w.db⟩).1 then .resending else .done (.error cause)) ∧
      w'.device = (onUnauthorized hop ⟨w.device, w.db⟩).2.device ∧
      w'.db = (onUnauthorized hop ⟨w.device, w.db⟩).2.db := by
  refine ⟨_, rfl, ?_⟩
  unfold onUnauthorized
  simp only [ht, serve_delivered hd]
  cases hr : handleRefresh tokens.refreshToken hop.now hop.draw w.db with
  | mk answer db => cases answer <;> simp [next, hw, hr, moved, Except.mapError]

theorem foldl_done {answer : Except Failure α} (hw : w.calls i = .done answer) (es : List Event)
    (he : ∀ e ∈ es, e = .send i ∨ e = .deliver i ∨ ∃ now draw, e = .serve i now draw) :
    es.foldl (next api) w = w := by
  induction es with
  | nil => rfl
  | cons e es ih =>
    have hstay : next api w e = w := by
      rcases he e (List.mem_cons_self ..) with rfl | rfl | ⟨now, draw, rfl⟩ <;> simp [next, hw]
    rw [List.foldl_cons, hstay]
    exact ih fun e' h' => he e' (List.mem_cons_of_mem _ h')

/-- The request has ended with this answer and this scene. -/
def Came (w : World K α) (i : Nat) (r : Except Failure α × Scene K) : Prop :=
  w.calls i = .done r.1 ∧ w.device = r.2.device ∧ w.db = r.2.db

theorem came_second (hw : w.calls i = .resending) (hd : hop.delivery = .delivered) :
    Came ([.send i, .serve i hop.now hop.draw, .deliver i].foldl (next api) w) i
      ((send hop (api i).handler).run ⟨w.device, w.db⟩) := by
  obtain ⟨w', hw', hc, hdev, hdb⟩ := send_serve api true hw hd
  have hlist : [.send i, .serve i hop.now hop.draw, .deliver i].foldl (next api) w = next api w' (.deliver i) := by
    rw [← hw']
    rfl
  rw [hlist]
  simp only [next, hc]
  cases ha : ((send hop (api i).handler).run ⟨w.device, w.db⟩).1 with
  | ok a => exact ⟨by simp [receive, moved, ha], hdev, hdb⟩
  | error e => exact ⟨by simp [receive, moved, ha], hdev, hdb⟩

/-- With nothing else under way, the phases of a request come to what `request` does. -/
theorem request_alone {wire : Wire} (hi : w.calls i = .idle) (h₁ : wire.first.delivery = .delivered)
    (h₂ : wire.refresh.delivery = .delivered) (h₃ : wire.second.delivery = .delivered) :
    Came ((alone i wire).foldl (next api) w) i ((request wire (api i).handler).run ⟨w.device, w.db⟩) := by
  obtain ⟨w₁, hw₁, hc₁, hdev₁, hdb₁⟩ := send_serve api false hi h₁
  have hlist : (alone i wire).foldl (next api) w =
      [.send i, .serve i wire.second.now wire.second.draw, .deliver i].foldl (next api)
        ([.serve i wire.refresh.now wire.refresh.draw, .deliver i].foldl (next api)
          (next api w₁ (.deliver i))) := by
    rw [← hw₁]
    rfl
  have hend : ∀ (w' : World K α) r, Came w' i r →
      Came ([.send i, .serve i wire.second.now wire.second.draw, .deliver i].foldl (next api)
        ([.serve i wire.refresh.now wire.refresh.draw, .deliver i].foldl (next api) w')) i r := by
    intro w' r hr
    rw [foldl_done api hr.1 _ (by simp), foldl_done api hr.1 _ (by simp)]
    exact hr
  rw [hlist]
  change Came _ i (request wire (api i).handler ⟨w.device, w.db⟩)
  unfold request
  have hs₁ : ((send wire.first (api i).handler).run ⟨w.device, w.db⟩).2.device = w.device := rfl
  cases hsend : (send wire.first (api i).handler).run ⟨w.device, w.db⟩ with
  | mk answer s₁ =>
    rw [hsend] at hc₁ hdb₁ hs₁
    have hscene : (⟨w₁.device, w₁.db⟩ : Scene K) = s₁ := by
      rw [hdev₁, hdb₁, ← hs₁]
    have hnext : next api w₁ (.deliver i) = w₁.receive i false answer := by simp only [next, hc₁]
    rw [hnext, ← hscene]
    cases answer with
    | ok a => exact hend _ _ ⟨by simp [receive, moved], rfl, rfl⟩
    | error e =>
      by_cases he : e.status = some 401
      · simp only [he, if_true]
        cases ht : w₁.device.tokens with
        | none =>
          simp only [onUnauthorized, ht]
          exact hend _ _ ⟨by simp [receive, moved, ht], by simp [receive, moved, ht], by simp [receive, moved, ht]⟩
        | some tokens =>
          have hreceive : w₁.receive i false (.error e) =
            w₁.moved i (.refreshing e tokens.refreshToken w₁.held) := by
            simp [receive, ht, he]
          have hcall : (w₁.moved i (.refreshing e tokens.refreshToken w₁.held)).calls i =
              .refreshing e tokens.refreshToken w₁.held := by
            simp [moved]
          obtain ⟨w₂, hw₂, hc₂, hdev₂, hdb₂⟩ := serve_deliver api hcall ht h₂
          rw [hreceive, hw₂]
          change w₂.calls i =
            if (onUnauthorized wire.refresh ⟨w₁.device, w₁.db⟩).1 = true then _ else _ at hc₂
          change w₂.device = (onUnauthorized wire.refresh ⟨w₁.device, w₁.db⟩).2.device at hdev₂
          change w₂.db = (onUnauthorized wire.refresh ⟨w₁.device, w₁.db⟩).2.db at hdb₂
          cases hu : onUnauthorized wire.refresh ⟨w₁.device, w₁.db⟩ with
          | mk retry s₂ =>
            rw [hu] at hc₂ hdev₂ hdb₂
            cases retry with
            | true =>
              have hlast := came_second api hc₂ h₃
              rw [hdev₂, hdb₂] at hlast
              exact hlast
            | false =>
              rw [foldl_done api hc₂ _ (by simp)]
              exact ⟨hc₂, hdev₂, hdb₂⟩
      · simp only [he, if_false]
        have hreceive : w₁.receive i false (.error e) = w₁.moved i (.done (.error e)) := by
          cases ht : w₁.device.tokens <;> simp [receive, ht, he]
        rw [hreceive]
        exact hend _ _ ⟨by simp [moved], rfl, rfl⟩

end

/-- No request of this session is under way. -/
structure Begins (w : World K α) : Prop where
  idle : ∀ i, w.calls i = .idle
  honoured : ∃ tokens, w.device.tokens = some tokens ∧ Honoured w.db tokens
  abreast : w.held = w.issued

/-- The sessions that `token` may name are within their lifetimes. -/
def inTime (now : Time) (db : Db) (p : Session → Bool) : Bool :=
  !db.sessions.any fun s => p s && (s.expiresAt < now || s.outlived now)

/-- A refresh or a retry that the server takes carries the pair issued last, which has not run out. -/
def abreast (w : World K α) : Event → Bool
  | .serve i now _ =>
    match w.calls i with
    | .sent true token number =>
      number = w.issued && inTime now w.db fun s => token.any fun t => s.tokenHash = hashToken t
    | .refreshing _ refreshToken number =>
      number = w.issued && !w.db.sessions.any fun s => s.refreshHash = hashToken refreshToken && s.outlived now
    | _ => true
  | _ => true

end World

/-! ## What the server does with the pair it honours -/

section
variable {db : Db} {tokens : SessionTokens} {row : Session} {now : Time} {draw : Draw}

theorem hashesFree_iff {db : Db} {row : Session} :
    hashesFree db row = true ↔
      ∀ s ∈ db.sessions, s.id ≠ row.id → s.tokenHash ≠ row.tokenHash ∧
        s.refreshHash ≠ row.refreshHash := by
  unfold hashesFree
  rw [Bool.not_eq_true', ← Bool.not_eq_true, Table.any_eq_true]
  simp only [ne_eq, Bool.and_eq_true, decide_eq_true_eq, Bool.or_eq_true, not_exists, not_and, not_or]

theorem freshDraw_iff :
    freshDraw draw db = true ↔ draw.token ≠ "" ∧
      ∀ s ∈ db.sessions, s.tokenHash ≠ hashToken draw.token ∧ s.refreshHash ≠ hashToken draw.refresh := by
  unfold freshDraw
  rw [Bool.and_eq_true, Bool.not_eq_true', ← Bool.not_eq_true, Table.any_eq_true]
  simp only [ne_eq, decide_eq_true_eq, Bool.or_eq_true, not_exists, not_and, not_or]

namespace Honours

theorem eq_of_hash (h : Honours db tokens row) {s : Session} (hs : s ∈ db.sessions)
    (hh : s.tokenHash = row.tokenHash ∨ s.refreshHash = row.refreshHash) : s = row := by
  by_cases hid : s.id = row.id
  · exact Table.eq_of_key hs h.mem hid
  · obtain ⟨ht, hr⟩ := hashesFree_iff.mp h.free s hs hid
    rcases hh with hh | hh
    · exact absurd hh ht
    · exact absurd hh hr

theorem byAccess (h : Honours db tokens row)
    (hnow : World.inTime now db (fun s => s.tokenHash = hashToken tokens.accessToken) = true) :
    sessionByAccessToken now tokens.accessToken db = .ok row := by
  have hfind :
      db.sessions.find? (fun s => s.tokenHash = hashToken tokens.accessToken && s.revokedAt.isNone) = some row := by
    apply Table.find?_eq_some h.mem
    intro s hs
    constructor
    · intro hp
      simp only [Bool.and_eq_true, decide_eq_true_eq] at hp
      exact h.eq_of_hash hs (Or.inl (hp.1.trans h.tokenHash.symm))
    · intro he
      simp [he, h.tokenHash, h.unrevoked]
  have hrow : ¬row.expiresAt < now ∧ row.outlived now = false := by
    simp only [World.inTime, Bool.not_eq_true', ← Bool.not_eq_true, Table.any_eq_true] at hnow
    simpa [h.tokenHash, not_or] using fun hx => hnow ⟨row, h.mem, hx⟩
  simp [sessionByAccessToken, hfind, hrow.1, hrow.2]

theorem requireAuth (h : Honours db tokens row)
    (hnow : World.inTime now db (fun s => s.tokenHash = hashToken tokens.accessToken) = true) :
    ∃ u, requireAuth now tokens.accessToken db = some (u, row) := by
  obtain ⟨u, hu, hact⟩ := h.active
  refine ⟨u, ?_⟩
  simp [Http.requireAuth, h.byAccess hnow, userByID, hu, hact]

theorem touched (h : Honours db tokens row) (now : Time) (id : Id) : Honoured (touchSession now id db) tokens := by
  have hkeep : ∀ s ∈ (touchSession now id db).sessions, ∃ s₀ ∈ db.sessions, s₀.id = s.id ∧
      s₀.tokenHash = s.tokenHash ∧ s₀.refreshHash = s.refreshHash := by
    intro s hs
    have hs : s ∈ db.sessions.update (fun s => s.id = id && s.revokedAt.isNone) (·.touched now) := hs
    rcases Table.mem_update.mp hs with ⟨hs, -⟩ | ⟨s₀, hs₀, -, rfl⟩
    · exact ⟨s, hs, rfl, rfl, rfl⟩
    · exact ⟨s₀, hs₀, rfl, rfl, rfl⟩
  have hfree : ∀ row', row'.id = row.id → row'.tokenHash = row.tokenHash → row'.refreshHash = row.refreshHash →
      hashesFree (touchSession now id db) row' = true := by
    intro row' hid ht hr
    rw [hashesFree_iff]
    intro s hs hne
    obtain ⟨s₀, hs₀, hid₀, ht₀, hr₀⟩ := hkeep s hs
    rw [ht, hr, ← ht₀, ← hr₀]
    exact hashesFree_iff.mp h.free s₀ hs₀ (by rwa [hid₀, ← hid])
  by_cases hp : (row.id = id && row.revokedAt.isNone) = true
  · have hmem : row.touched now ∈ (touchSession now id db).sessions := by
      show _ ∈ db.sessions.update _ (·.touched now)
      exact Table.mem_update.mpr (Or.inr ⟨row, h.mem, hp, rfl⟩)
    exact ⟨row.touched now, hmem, h.tokenHash, h.refreshHash, h.unrevoked, hfree _ rfl rfl rfl, h.active, h.named⟩
  · have hmem : row ∈ (touchSession now id db).sessions := by
      show _ ∈ db.sessions.update _ (·.touched now)
      exact Table.mem_update.mpr (Or.inl ⟨h.mem, Bool.not_eq_true _ ▸ hp⟩)
    exact ⟨row, hmem, h.tokenHash, h.refreshHash, h.unrevoked, hfree _ rfl rfl rfl, h.active, h.named⟩

theorem rotated (h : Honours db tokens row) (now : Time) (hd : freshDraw draw db = true) :
    Honours { db with sessions := db.sessions.upsert (row.rotated now draw.token draw.refresh) }
      ⟨draw.token, draw.refresh⟩ (row.rotated now draw.token draw.refresh) := by
  obtain ⟨hne, hfresh⟩ := freshDraw_iff.mp hd
  refine ⟨Table.mem_upsert.mpr (Or.inr rfl), rfl, rfl, h.unrevoked, ?_, h.active, hne⟩
  rw [hashesFree_iff]
  intro s hs hid
  rcases Table.mem_upsert.mp hs with ⟨hs, -⟩ | rfl
  · exact hfresh s hs
  · exact absurd rfl hid

theorem byRefresh (h : Honours db tokens row)
    (hnow : (!db.sessions.any fun s => s.refreshHash = hashToken tokens.refreshToken && s.outlived now) = true) :
    sessionByRefreshToken now tokens.refreshToken db = .ok row := by
  have hfind : db.sessions.find? (fun s => s.refreshHash = hashToken tokens.refreshToken && s.revokedAt.isNone) =
      some row := by
    apply Table.find?_eq_some h.mem
    intro s hs
    constructor
    · intro hp
      simp only [Bool.and_eq_true, decide_eq_true_eq] at hp
      exact h.eq_of_hash hs (Or.inr (hp.1.trans h.refreshHash.symm))
    · intro he
      simp [he, h.refreshHash, h.unrevoked]
  have hlives : row.outlived now = false := by
    rw [Bool.not_eq_true', ← Bool.not_eq_true, Table.any_eq_true] at hnow
    simpa [h.refreshHash] using fun hx => hnow ⟨row, h.mem, hx⟩
  simp [sessionByRefreshToken, hfind, hlives]

theorem rotateRow (h : Honours db tokens row) (now : Time) (hd : freshDraw draw db = true) :
    ∃ n, n ≠ 0 ∧ rotateSessionRow now row.id tokens.refreshToken draw.token draw.refresh db =
      .ok (n, { db with sessions := db.sessions.upsert (row.rotated now draw.token draw.refresh) }) := by
  have hp : ∀ s ∈ db.sessions,
      (s.id = row.id && s.refreshHash = hashToken tokens.refreshToken && s.revokedAt.isNone) = true ↔ s = row := by
    intro s hs
    constructor
    · intro hp
      simp only [Bool.and_eq_true, decide_eq_true_eq] at hp
      exact Table.eq_of_key hs h.mem hp.1.1
    · intro he
      simp [he, h.refreshHash, h.unrevoked]
  have hfree : (db.sessions.filter fun s => s.id = row.id && s.refreshHash = hashToken tokens.refreshToken &&
      s.revokedAt.isNone).all (fun s => hashesFree db (s.rotated now draw.token draw.refresh)) = true := by
    rw [List.all_eq_true]
    intro s hs
    rw [hashesFree_iff]
    intro x hx _
    exact (freshDraw_iff.mp hd).2 x hx
  have hcount : db.sessions.count (fun s => s.id = row.id && s.refreshHash = hashToken tokens.refreshToken &&
      s.revokedAt.isNone) ≠ 0 := by
    intro hn
    have hrow := Table.count_eq_zero.mp hn row h.mem
    rw [(hp row h.mem).mpr rfl] at hrow
    cases hrow
  have hup := Table.update_eq_upsert (fun s : Session => s.rotated now draw.token draw.refresh)
    (fun _ => rfl) h.mem hp
  refine ⟨_, hcount, ?_⟩
  unfold rotateSessionRow
  simp only [hfree, if_true]
  exact congrArg (fun sessions => Except.ok (_, { db with sessions })) hup

theorem refresh (h : Honours db tokens row) (hd : freshDraw draw db = true)
    (hnow : (!db.sessions.any fun s => s.refreshHash = hashToken tokens.refreshToken && s.outlived now) = true) :
    ∃ db', handleRefresh tokens.refreshToken now draw db = (.ok ⟨draw.token, draw.refresh⟩, db') ∧
      Honoured db' ⟨draw.token, draw.refresh⟩ := by
  obtain ⟨n, hn, hrow⟩ := h.rotateRow now hd
  obtain ⟨u, hu, hact⟩ := h.active
  have htx : (rotateSessionTx now row tokens.refreshToken draw.token draw.refresh).exec db =
      .ok ({ row with lastSeenAt := now, expiresAt := now + accessTokenLifetime },
        { db with sessions := db.sessions.upsert (row.rotated now draw.token draw.refresh) }) := by
    simp only [rotateSessionTx, Prog.exec_bind_ok, exec_sql_ok, exec_require_ok]
    exact ⟨n, _, hrow, (), _, ⟨by simp [hn], rfl⟩, rfl⟩
  refine ⟨_, ?_, _, h.rotated now hd⟩
  simp [handleRefresh, rotateSession, h.byRefresh hnow, Prog.autocommit_ok.mpr htx, userByID, hu, hact]

end Honours

end

section
variable {α : Type} {endpoint : Endpoint α} {db : Db} {tokens : SessionTokens}

theorem handler_honoured (h : Honoured db tokens) (token : Option String) (now : Time) (draw : Draw) :
    Honoured (endpoint.handler token now draw db).2 tokens := by
  unfold Endpoint.handler
  rcases withAuth_cases token now db (endpoint.next now draw) with ⟨r, hr⟩
    | ⟨_, user, session, -, -, -, -, -, hr⟩
  · rw [hr]
    exact h
  · obtain ⟨row, hrow⟩ := h
    rw [hr]
    exact endpoint.honoured _ _ _ _ _ _ (hrow.touched now session.id)

theorem handler_authorised (h : Honoured db tokens) {now : Time} (draw : Draw)
    (hnow : World.inTime now db (fun s => s.tokenHash = hashToken tokens.accessToken) = true) :
    unauthorised ((endpoint.handler (some tokens.accessToken) now draw db).1.mapError toApiError) = false := by
  obtain ⟨row, hrow⟩ := h
  obtain ⟨u, hu⟩ := hrow.requireAuth hnow
  have hauth : endpoint.handler (some tokens.accessToken) now draw db =
      endpoint.next now draw u row (touchSession now row.id db) := by
    unfold Endpoint.handler withAuth
    split
    · rename_i hne
      cases hne
    · rename_i hne
      exact absurd (Option.some.inj hne) hrow.named
    · rename_i t hne
      cases hne
      rw [hu]
  rw [hauth]
  cases hr : (endpoint.next now draw u row (touchSession now row.id db)).1 with
  | ok a => rfl
  | error r =>
    have hne := endpoint.authorised _ _ _ _ _ r hr
    simpa [unauthorised, Except.mapError] using hne

end

/-! ## What the world keeps -/

def Phase.renews {α : Type} : Phase α → Bool
  | renewed .. => true
  | _ => false

/-- A call that carries the number `issued` carries what was issued. -/
def Phase.Fits {α : Type} (held issued : Nat) (tokens : SessionTokens) : Phase α → Prop
  | sent true token number => number ≤ held ∧ (number = issued → token = some tokens.accessToken)
  | refreshing _ refreshToken number => number ≤ held ∧ (number = issued → refreshToken = tokens.refreshToken)
  | renewed _ answer number =>
    answer = .ok ⟨tokens.accessToken, tokens.refreshToken⟩ ∧ number = issued ∧ held < issued
  | answered true answer | done answer => unauthorised answer = false
  | idle | sent false _ _ | answered false _ | resending => True

theorem Phase.Fits.rebase {α : Type} {phase : Phase α} {held held' issued issued' : Nat}
    {tokens tokens' : SessionTokens} (h : phase.Fits held issued tokens) (hp : phase.renews = false)
    (hle : held ≤ held')
    (hn : ∀ n ≤ held, n = issued' → n = issued ∧ tokens' = tokens) : phase.Fits held' issued' tokens' := by
  cases phase with
  | sent retry token number =>
    cases retry with
    | false => trivial
    | true =>
      refine ⟨h.1.trans hle, fun he => ?_⟩
      obtain ⟨hi, rfl⟩ := hn number h.1 he
      exact h.2 hi
  | refreshing cause refreshToken number =>
    refine ⟨h.1.trans hle, fun he => ?_⟩
    obtain ⟨hi, rfl⟩ := hn number h.1 he
    exact h.2 hi
  | renewed => cases hp
  | answered retry answer => cases retry <;> exact h
  | done answer => exact h
  | idle => trivial
  | resending => trivial

namespace World

variable {K α : Type} {api : Nat → Endpoint α} {w w' : World K α} {e : Event}

structure Inv (keys : Option (Vault.UnlockedKeys K)) (w : World K α) (tokens : SessionTokens) : Prop where
  keys : w.device.keys = keys
  honoured : Honoured w.db tokens
  signedIn : ∃ held, w.device.tokens = some held
  held_le : w.held ≤ w.issued
  pair : w.held = w.issued → w.device.tokens = some tokens
  fits : ∀ i, (w.calls i).Fits w.held w.issued tokens
  unique : ∀ i j, (w.calls i).renews = true → (w.calls j).renews = true → i = j
  coming : w.held < w.issued → ∃ i, (w.calls i).renews = true

variable {keys : Option (Vault.UnlockedKeys K)} {tokens : SessionTokens}

theorem Inv.move (h : Inv keys w tokens) {i : Nat} {phase : Phase α} {db : Db}
    (hf : phase.Fits w.held w.issued tokens) (hw : (w.calls i).renews = false) (hp : phase.renews = false)
    (hdb : Honoured db tokens) : Inv keys { w.moved i phase with db } tokens := by
  have hcalls : ∀ j, (if j = i then phase else w.calls j).renews = (w.calls j).renews := by
    intro j
    by_cases hj : j = i
    · rw [if_pos hj, hp, hj, hw]
    · rw [if_neg hj]
  refine ⟨h.keys, hdb, h.signedIn, h.held_le, h.pair, ?_, ?_, ?_⟩
  · intro j
    show (if j = i then phase else w.calls j).Fits _ _ _
    split
    · exact hf
    · exact h.fits j
  · intro j k hj hk
    exact h.unique j k ((hcalls j).symm.trans hj) ((hcalls k).symm.trans hk)
  · intro hlt
    obtain ⟨j, hj⟩ := h.coming hlt
    exact ⟨j, (hcalls j).trans hj⟩

theorem Inv.receive (h : Inv keys w tokens) {i : Nat} {retry : Bool} {answer : Except Failure α}
    (hc : w.calls i = .answered retry answer) : Inv keys (w.receive i retry answer) tokens := by
  have hw : (w.calls i).renews = false := by rw [hc]; rfl
  have hf := h.fits i
  rw [hc] at hf
  obtain ⟨held, hheld⟩ := h.signedIn
  unfold World.receive
  rw [hheld]
  cases answer with
  | ok a => exact h.move rfl hw rfl h.honoured
  | error e =>
    cases retry with
    | true => exact h.move hf hw rfl h.honoured
    | false =>
      by_cases he : e.status = some 401
      · simp only [he, if_true]
        refine h.move ⟨le_refl _, ?_⟩ hw rfl h.honoured
        intro hn
        have hpair := h.pair hn
        rw [hheld] at hpair
        cases hpair
        rfl
      · simp only [he, if_false]
        exact h.move (by simpa [Phase.Fits, unauthorised] using he) hw rfl h.honoured

theorem Inv.serveSent (h : Inv keys w tokens) {i : Nat} {retry : Bool} {token : Option String} {number : Nat}
    {now : Time} {draw : Draw} (hc : w.calls i = .sent retry token number)
    (hg : w.abreast (.serve i now draw) = true) :
    Inv keys { w.moved i (.answered retry (((api i).handler token now draw w.db).1.mapError toApiError)) with
      db := ((api i).handler token now draw w.db).2 } tokens := by
  refine h.move ?_ (by rw [hc]; rfl) rfl (handler_honoured h.honoured token now draw)
  cases retry with
  | false => trivial
  | true =>
    have hf := h.fits i
    rw [hc] at hf
    simp only [World.abreast, hc, Bool.and_eq_true, decide_eq_true_eq] at hg
    obtain ⟨hn, hnow⟩ := hg
    have htoken := hf.2 hn
    subst htoken
    exact handler_authorised h.honoured draw hnow

theorem Inv.serveRefresh (h : Inv keys w tokens) {i : Nat} {cause : Failure} {refreshToken : String} {number : Nat}
    {now : Time} {draw : Draw} (hc : w.calls i = .refreshing cause refreshToken number)
    (hd : freshDraw draw w.db = true) (hg : w.abreast (.serve i now draw) = true) :
    Inv keys (World.next api w (.serve i now draw)) ⟨draw.token, draw.refresh⟩ := by
  have hf := h.fits i
  rw [hc] at hf
  simp only [World.abreast, hc, Bool.and_eq_true, decide_eq_true_eq] at hg
  obtain ⟨hn, hnow⟩ := hg
  have htoken := hf.2 hn
  subst htoken
  obtain ⟨row, hrow⟩ := h.honoured
  obtain ⟨db', hserve, hhonoured⟩ := hrow.refresh hd hnow
  simp only [World.next, hc, hserve]
  have hheld : w.held = w.issued := by
    have hle := h.held_le
    have hnum := hf.1
    omega
  have hnone : ∀ j, (w.calls j).renews = false := by
    intro j
    have hj := h.fits j
    cases hp : w.calls j with
    | renewed cause answer number =>
      rw [hp] at hj
      obtain ⟨-, -, hlt⟩ := hj
      omega
    | _ => rfl
  refine ⟨h.keys, hhonoured, h.signedIn, ?_, ?_, ?_, ?_, ?_⟩
  · show w.held ≤ w.issued + 1
    omega
  · intro he
    have he : w.held = w.issued + 1 := he
    omega
  · intro j
    show (if j = i then _ else w.calls j).Fits w.held (w.issued + 1) _
    split
    · exact ⟨rfl, rfl, by omega⟩
    · refine (h.fits j).rebase (hnone j) (le_refl _) fun n hle hn => ?_
      omega
  · intro j k hj hk
    have hone : ∀ j, (if j = i then Phase.renewed (α := α) cause (.ok ⟨draw.token, draw.refresh⟩) (w.issued + 1)
        else w.calls j).renews = true → j = i := by
      intro j hj
      by_contra hne
      rw [if_neg hne, hnone j] at hj
      cases hj
    rw [hone j hj, hone k hk]
  · intro _
    refine ⟨i, ?_⟩
    show (if i = i then _ else w.calls i).renews = true
    rw [if_pos rfl]
    rfl

theorem Inv.deliverRenewed (h : Inv keys w tokens) {i : Nat} {cause : Failure}
    {answer : Except Response RefreshResponse} {number : Nat} (hc : w.calls i = .renewed cause answer number) :
    Inv keys (World.next api w (.deliver i)) tokens := by
  have hf := h.fits i
  rw [hc] at hf
  obtain ⟨rfl, rfl, hlt⟩ := hf
  have hi : (w.calls i).renews = true := by rw [hc]; rfl
  simp only [World.next, hc]
  have hnone : ∀ j, (if j = i then Phase.resending else w.calls j).renews = false := by
    intro j
    by_cases hj : j = i
    · rw [if_pos hj]
      rfl
    · rw [if_neg hj]
      by_contra hr
      exact hj (h.unique j i (by simpa using hr) hi)
  refine ⟨h.keys, h.honoured, ⟨_, rfl⟩, le_refl _, fun _ => rfl, ?_, ?_, ?_⟩
  · intro j
    show (if j = i then _ else w.calls j).Fits w.issued w.issued tokens
    have hr := hnone j
    by_cases hj : j = i
    · rw [if_pos hj]
      trivial
    · rw [if_neg hj] at hr ⊢
      exact (h.fits j).rebase hr (le_of_lt hlt) fun n _ hn => ⟨hn, rfl⟩
  · intro j k hj _
    exact absurd hj (Bool.eq_false_iff.mp (hnone j))
  · intro hlt'
    exact absurd hlt' (lt_irrefl _)

theorem inv_step (h : Lts.Guarded (step api) (fun w e => w.abreast e = true) w e w') (hi : Inv keys w tokens) :
    ∃ tokens', Inv keys w' tokens' := by
  obtain ⟨⟨he, rfl⟩, hg⟩ := h
  cases e with
  | send i =>
    cases hc : w.calls i with
    | idle =>
      simp only [World.next, hc]
      exact ⟨tokens, hi.move trivial (by rw [hc]; rfl) rfl hi.honoured⟩
    | resending =>
      simp only [World.next, hc]
      refine ⟨tokens, hi.move ⟨le_refl _, ?_⟩ (by rw [hc]; rfl) rfl hi.honoured⟩
      intro hn
      simp [Device.accessToken, hi.pair hn]
    | _ => simp [World.enabled, hc] at he
  | serve i now draw =>
    cases hc : w.calls i with
    | sent retry token number =>
      refine ⟨tokens, ?_⟩
      simp only [World.next, hc]
      exact hi.serveSent hc hg
    | refreshing cause refreshToken number =>
      simp only [World.enabled, hc, Bool.and_true] at he
      exact ⟨_, hi.serveRefresh hc he hg⟩
    | _ => simp [World.enabled, hc] at he
  | deliver i =>
    cases hc : w.calls i with
    | answered retry answer =>
      refine ⟨tokens, ?_⟩
      simp only [World.next, hc]
      exact hi.receive hc
    | renewed cause answer number => exact ⟨tokens, hi.deliverRenewed hc⟩
    | _ => simp [World.enabled, hc] at he

theorem inv_run {es : List Event} (h : Lts.Run (Lts.Guarded (step api) fun w e => w.abreast e = true) w es w')
    (hi : ∃ tokens, Inv keys w tokens) : ∃ tokens, Inv keys w' tokens := by
  refine h.inv (P := fun w => ∃ tokens, Inv keys w tokens) ?_ hi
  intro s e s' hs ⟨tokens, hi⟩
  exact inv_step hs hi

theorem Begins.inv (h : Begins w) : ∃ tokens, Inv w.device.keys w tokens := by
  obtain ⟨tokens, ht, hh⟩ := h.honoured
  refine ⟨tokens, rfl, hh, ⟨tokens, ht⟩, le_of_eq h.abreast, fun _ => ht, ?_, ?_, ?_⟩
  · intro i
    rw [h.idle i]
    trivial
  · intro i j hi
    rw [h.idle i] at hi
    cases hi
  · intro hlt
    rw [h.abreast] at hlt
    exact absurd hlt (lt_irrefl _)

/-- No request has ended unauthorised and the vault is as open as it was. Once no renewed pair
is on its way, the device's pair is the one the server honours. -/
structure Harmless (w w' : World K α) : Prop where
  authorised : ∀ i answer, w'.calls i = .done answer → unauthorised answer = false
  signedIn : w'.device.tokens.isSome = true
  unlocked : w'.device.keys = w.device.keys
  pair : (∀ i, (w'.calls i).renews = false) → ∃ tokens, w'.device.tokens = some tokens ∧ Honoured w'.db tokens

theorem Inv.harmless {w₀ : World K α} (h : Inv w₀.device.keys w tokens) : Harmless w₀ w := by
  obtain ⟨held, hheld⟩ := h.signedIn
  refine ⟨?_, by rw [hheld]; rfl, h.keys, ?_⟩
  · intro i answer hc
    have hf := h.fits i
    rw [hc] at hf
    exact hf
  · intro hnone
    refine ⟨tokens, h.pair ?_, h.honoured⟩
    by_contra hne
    obtain ⟨i, hi⟩ := h.coming (lt_of_le_of_ne h.held_le hne)
    rw [hnone i] at hi
    cases hi

/-- Where every refresh and every retry that the server takes carries the pair issued last,
within its lifetime, any number of requests refresh without harm. -/
theorem refresh_harmless {es : List Event} (h₀ : Begins w)
    (h : Lts.Run (Lts.Guarded (step api) fun w e => w.abreast e = true) w es w') : Harmless w w' := by
  obtain ⟨tokens, hi⟩ := inv_run h h₀.inv
  exact hi.harmless

/-! Alice has signed in and comes back after an hour, to save two items. -/

def saves (i : Nat) : Endpoint Item := .creating ⟨none, if i = 0 then "wifi" else "bank", "wrapped-key", 0⟩

def hour : Time := 60 * 60 * second

def aliceReturns : World String Item where
  device := .opened ⟨"access-1", "refresh-1"⟩ ⟨"user-key", "private-key"⟩
  db := (State.script (aliceEnrolls ++ [.receive 1 0 (.login "alice@home" "password-1" "laptop"), .advance 1,
    .commit 1 0 ⟨"session-1", "access-1", "refresh-1"⟩])).db
  calls _ := .idle
  held := 0
  issued := 0

theorem aliceReturns_begins : Begins aliceReturns := by
  refine ⟨fun _ => rfl, ⟨⟨"access-1", "refresh-1"⟩, rfl,
    newSession 0 "session-1" "access-1" "refresh-1" "alice" "laptop", by decide, rfl, rfl, rfl, by decide,
      ?_, by decide⟩, rfl⟩
  have hactive :
      (aliceReturns.db.users.get? (newSession 0 "session-1" "access-1" "refresh-1" "alice" "laptop").userID).any
        (·.status = .active) = true := by
    decide
  simpa only [Option.any_eq_true, decide_eq_true_eq] using hactive

def drawOf (n : String) : Draw := ⟨⟨"item-" ++ n, "access-" ++ n, "refresh-" ++ n⟩, "", ""⟩

/-- Both are refused; the second refreshes when the first has been answered. -/
def oneByOne : List Event :=
  [.send 0, .send 1, .serve 0 hour (drawOf "2"), .serve 1 hour (drawOf "2"), .deliver 0, .serve 0 hour (drawOf "2"),
    .deliver 0, .send 0, .serve 0 hour (drawOf "3"), .deliver 0, .deliver 1, .serve 1 hour (drawOf "3"), .deliver 1,
    .send 1, .serve 1 hour (drawOf "4"), .deliver 1]

theorem refresh_harmless_twice : Harmless aliceReturns (oneByOne.foldl (next saves) aliceReturns) ∧
    (oneByOne.foldl (next saves) aliceReturns).db.items.rows.map Item.ciphertext = ["wifi", "bank"] :=
  ⟨refresh_harmless aliceReturns_begins (Lts.run_guarded_script (by decide)), by decide⟩

/-- Both are refused and refresh with the one token they share. -/
def together : List Event :=
  [.send 0, .send 1, .serve 0 hour (drawOf "2"), .serve 1 hour (drawOf "2"), .deliver 0, .deliver 1,
    .serve 0 hour (drawOf "2"), .serve 1 hour (drawOf "3"), .deliver 0, .deliver 1]

theorem refresh_locks :
    ¬ ∀ (api : Nat → Endpoint Item) (w w' : World String Item) es, Begins w → Lts.Run (step api) w es w' →
      Harmless w w' := by
  intro h
  have hh := h saves _ _ together aliceReturns_begins (Lts.run_script (by decide))
  exact absurd hh.signedIn (by decide)

end World

end Keyhole.Client.Refresh
