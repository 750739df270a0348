import Keyhole.Store.Effect
import Keyhole.Vault.Items

/-!
# Every item opens under the key of the collection it is in

The members of a server and their item calls, each call a request or several,
each request step by step. A client seals a body under the key its own
`collectionId` picks; the server decides the collection the row ends in.
-/

namespace Keyhole.Vault.Sealing
open Sql Store Http

/-- The key of every user and of every collection. A reset would give its user
new ones, and is left out. -/
structure Keys (K : Type) where
  user : Id → K
  collection : Id → K

def Keys.parent {K : Type} (keys : Keys K) (userID : Id) : Option Id → K
  | none => keys.user userID
  | some c => keys.collection c

/-- `plaintexts` and those in `rest` are ghosts: what the request's bodies seal. -/
structure Request (P : Type) where
  ticket : Nat
  userID : Id
  progress : Progress
  call : ItemCall
  plaintexts : List P
  rest : List (ItemCall × List P)

/-- `written` is a ghost: what the last successful writer of an item passed in. -/
structure State (P : Type) where
  server : Server
  requests : Table (Request.ticket (P := P))
  nextTicket : Nat
  written : Id → Option P

inductive Event (K P : Type)
  | call (userID : Id) (session : Session K) (draw : Nat → ItemDraw K) (op : ItemOperation P)
  | advance (ticket : Nat)
  | write (ticket : Nat) (now : Time) (ids : List Id)
  | drop (ticket : Nat)
  | other (c : Command)

def isOther : Command → Bool
  | .createItem .. | .createItemsBulk .. | .updateItem .. | .deleteItem .. | .resetUser .. => false
  | _ => true

section
variable {K P : Type} (C : Crypto K P) (keys : Keys K)

def start : State P where
  server := Server.fresh
  requests := ∅
  nextTicket := 0
  written _ := none

def Genuine (userID : Id) (session : Session K) : Prop :=
  session.userKey = keys.user userID ∧ ∀ e ∈ session.collectionKeys, e.key = keys.collection e.id

def send (ticket : Nat) (userID : Id) (requests : Table (Request.ticket (P := P))) :
    List (ItemCall × List P) → Table (Request.ticket (P := P))
  | [] => requests.delete fun r => r.ticket = ticket
  | (call, plaintexts) :: rest =>
    match call.received with
    | .ok progress => requests.upsert ⟨ticket, userID, progress, call, plaintexts, rest⟩
    | .error _ => requests.delete fun r => r.ticket = ticket

def record (written : Id → Option P) (rows : List Item) (plaintexts : List P) (id : Id) : Option P :=
  match (rows.zip plaintexts).find? fun e => e.1.id = id with
  | some e => some e.2
  | none => written id

def enabled (s : State P) : Event K P → Prop
  | .call userID session _ _ => Genuine keys userID session
  | .advance ticket => (s.requests.get? ticket).any (fun r => decide (r.progress ≠ .targets [])) = true
  | .write ticket now ids => (s.requests.get? ticket).any (fun r =>
      r.progress = .targets [] && Server.Draws s.server.issued (r.call.command now ids r.userID).draws) = true
  | .drop ticket => (s.requests.get? ticket).isSome = true
  | .other c => isOther c = true ∧ Server.Draws s.server.issued c.draws

instance [DecidableEq K] (userID : Id) (session : Session K) : Decidable (Genuine keys userID session) :=
  inferInstanceAs (Decidable (_ ∧ _))

instance decEnabled [DecidableEq K] (s : State P) : (e : Event K P) → Decidable (enabled keys s e)
  | .call userID session _ _ => inferInstanceAs (Decidable (Genuine keys userID session))
  | .advance _ | .write _ _ _ | .drop _ => inferInstanceAs (Decidable (_ = true))
  | .other _ => inferInstanceAs (Decidable (_ ∧ _))

def next (s : State P) : Event K P → State P
  | .call userID session draw op =>
    match op.calls C session draw with
    | some calls =>
      { s with requests := send s.nextTicket userID s.requests calls, nextTicket := s.nextTicket + 1 }
    | none => s
  | .advance ticket =>
    match s.requests.get? ticket with
    | none => s
    | some r =>
      match r.call.advance s.server.db r.userID r.progress with
      | .ok progress => { s with requests := s.requests.upsert { r with progress } }
      | .error _ => { s with requests := s.requests.delete fun r => r.ticket = ticket }
  | .write ticket now ids =>
    match s.requests.get? ticket with
    | none => s
    | some r =>
      let server := s.server.after (r.call.command now ids r.userID)
      match (r.call.reply now ids r.userID s.server.db).rows with
      | some rows =>
        { s with
          server
          requests := send ticket r.userID s.requests r.rest
          written := record s.written rows r.plaintexts }
      | none => { s with server, requests := s.requests.delete fun r => r.ticket = ticket }
  | .drop ticket => { s with requests := s.requests.delete fun r => r.ticket = ticket }
  | .other c => { s with server := s.server.after c }

def step : State P → Event K P → State P → Prop := Lts.Stepwise (enabled keys) (next C)

def OpensTo (item : Item) (p : P) : Prop :=
  decryptItem C ⟨item.ciphertext, item.wrappedItemKey⟩ (keys.parent item.ownerUserID item.collectionID) = some p

def Consistent (items : Table Item.id) (written : Id → Option P) : Prop :=
  ∀ item ∈ items, item.deletedAt = none → ∃ p, written item.id = some p ∧ OpensTo C keys item p

/-- The write would commit an update that names no collection on a row that is in one. -/
def detaches (db : Db) : ItemCall → Bool
  | .update id req => req.collectionID = none && req.input.validate.isOk && db.items.any fun item =>
      item.id = id && item.deletedAt.isNone && item.revision = req.revision && item.collectionID.isSome
  | _ => false

def Attached (s : State P) : Event K P → Prop
  | .write ticket _ _ => (s.requests.get? ticket).all (fun r => !detaches s.server.db r.call) = true
  | .call .. | .advance _ | .drop _ | .other _ => True

instance decAttached (s : State P) : (e : Event K P) → Decidable (Attached s e)
  | .write _ _ _ => inferInstanceAs (Decidable (_ = true))
  | .call .. | .advance _ | .drop _ | .other _ => inferInstanceAs (Decidable True)

/-! ## Rows and where they come from -/

theorem row_before {db : Db} {c : Command} {v' : Store.Vault} (h : Effect db c v') {row : Item}
    (hr : row ∈ v'.items) :
    row.id ∈ c.draws ∨ ∃ item ∈ db.items, item.id = row.id ∧ item.ownerUserID = row.ownerUserID ∧
      (row.collectionID = none → item.collectionID = none) := by
  cases h with
  | still | folderCreated | folderUpdated | folderDeleted | collectionCreated | memberAdded | memberRemoved =>
    exact Or.inr ⟨row, hr, rfl, rfl, id⟩
  | created new hv hm hn =>
    rcases (hm row).mp hr with h | h
    · exact Or.inr ⟨row, h, rfl, rfl, id⟩
    · exact Or.inl (hn row h).2.1
  | @itemUpdated now id' inp hv current hg =>
    rcases Table.mem_upsert.mp hr with ⟨hr, -⟩ | rfl
    · exact Or.inr ⟨row, hr, rfl, rfl, id⟩
    · refine Or.inr ⟨current, (Table.get?_eq_some.mp hg).1, rfl, rfl, ?_⟩
      intro hc
      unfold Item.updated at hc
      cases hi : inp.collectionID with
      | none => rwa [hi] at hc
      | some c =>
        rw [hi] at hc
        cases hc
  | itemDeleted current hg =>
    rcases Table.mem_upsert.mp hr with ⟨hr, -⟩ | rfl
    · exact Or.inr ⟨row, hr, rfl, rfl, id⟩
    · exact Or.inr ⟨current, (Table.get?_eq_some.mp hg).1, rfl, rfl, id⟩
  | collectionDeleted | reset | userDeleted | purged =>
    exact Or.inr ⟨row, (Table.mem_delete.mp hr).1, rfl, rfl, id⟩

theorem row_of_other {db : Db} {c : Command} {v' : Store.Vault} (h : Effect db c v') (hc : isOther c = true)
    {row : Item}
    (hr : row ∈ v'.items) : row ∈ db.items := by
  cases h with
  | still | folderCreated | folderUpdated | folderDeleted | collectionCreated | memberAdded | memberRemoved =>
    exact hr
  | created new hv hm hn hs hk => cases c <;> cases hk <;> cases hc
  | itemUpdated | itemDeleted | reset => cases hc
  | collectionDeleted | userDeleted | purged => exact (Table.mem_delete.mp hr).1

/-! ## What a request knows -/

def Sealed (userID : Id) (call : ItemCall × List P) : Prop :=
  call.1.requests.length = call.2.length ∧ ∀ e ∈ call.1.requests.zip call.2,
    ∃ draw, e.1 = entryFor C draw (keys.parent userID e.1.collectionID) e.1.collectionID e.1.revision e.2

def Owns (server : Server) (id userID : Id) : Prop :=
  id ∈ server.issued ∧
    ∀ item ∈ server.db.items, item.id = id → item.collectionID = none → item.ownerUserID = userID

def Cleared (server : Server) (r : Request P) : Progress → Prop
  | .loading => True
  | .loaded existing => r.call.id ∈ server.issued ∧ ∀ item ∈ server.db.items, item.id = r.call.id →
      item.collectionID = none → existing.collectionID = none ∧ existing.ownerUserID = item.ownerUserID
  | .targets _ => ∀ id req, r.call = .update id req → Owns server id r.userID

structure Inv (s : State P) : Prop where
  issued : ∀ item ∈ s.server.db.items, item.id ∈ s.server.issued
  consistent : Consistent C keys s.server.db.items s.written
  sealed_ : ∀ r ∈ s.requests, ∀ call ∈ (r.call, r.plaintexts) :: r.rest, Sealed C keys r.userID call
  cleared : ∀ r ∈ s.requests, Cleared s.server r r.progress

variable {C keys}

theorem parentKeyFor_genuine {userID : Id} {session : Session K} (h : Genuine keys userID session) {c : Option Id}
    {key : K} (hk : parentKeyFor session c = some key) : key = keys.parent userID c := by
  cases c with
  | none =>
    cases hk
    exact h.1
  | some c =>
    obtain ⟨e, he, rfl⟩ := Option.map_eq_some_iff.mp hk
    obtain ⟨hmem, rfl⟩ := Table.get?_eq_some.mp he
    exact h.2 e hmem

theorem sealed_calls {userID : Id} {session : Session K} (h : Genuine keys userID session) {draw : Nat → ItemDraw K}
    {op : ItemOperation P} {calls : List (ItemCall × List P)} (hc : op.calls C session draw = some calls) :
    ∀ call ∈ calls, Sealed C keys userID call := by
  cases op with
  | createItem plaintext c =>
    obtain ⟨key, hk, rfl⟩ := Option.map_eq_some_iff.mp hc
    cases parentKeyFor_genuine h hk
    intro call hmem
    cases List.mem_singleton.mp hmem
    refine ⟨rfl, fun e he => ?_⟩
    cases List.mem_singleton.mp he
    exact ⟨draw 0, rfl⟩
  | updateItem id revision c plaintext =>
    obtain ⟨key, hk, rfl⟩ := Option.map_eq_some_iff.mp hc
    cases parentKeyFor_genuine h hk
    intro call hmem
    cases List.mem_singleton.mp hmem
    refine ⟨rfl, fun e he => ?_⟩
    cases List.mem_singleton.mp he
    exact ⟨draw 0, rfl⟩
  | uploadItems items c =>
    simp only [ItemOperation.calls] at hc
    split at hc
    · cases hc
      intro call hmem
      cases hmem
    · obtain ⟨key, hk, rfl⟩ := Option.map_eq_some_iff.mp hc
      cases parentKeyFor_genuine h hk
      intro call hmem
      obtain ⟨chunk, hchunk, rfl⟩ := List.mem_map.mp hmem
      refine ⟨by simp [ItemCall.requests], fun e he => ?_⟩
      have hz : chunk = (chunk.map (·.1)).zip (chunk.map (·.2)) := List.zip_of_prod rfl rfl
      have hin := List.mem_flatten.mpr ⟨chunk, hchunk, (congrArg (e ∈ ·) hz).mpr he⟩
      rw [flatten_chunks, List.nil_append, List.mem_map] at hin
      obtain ⟨⟨p, i⟩, -, rfl⟩ := hin
      exact ⟨draw i, rfl⟩
  | deleteItem id =>
    cases hc
    intro call hmem
    cases List.mem_singleton.mp hmem
    exact ⟨rfl, fun e he => by cases he⟩

/-! ## One step -/

theorem personal_before {s s' : Server} {c : Command} (h : Server.step s c s') {row : Item}
    (hr : row ∈ s'.db.items) (hid : row.id ∈ s.issued) (hc : row.collectionID = none) :
    ∃ item ∈ s.db.items, item.id = row.id ∧ item.ownerUserID = row.ownerUserID ∧ item.collectionID = none := by
  obtain ⟨hd, rfl⟩ := h
  rcases row_before (command_effect c s.db) hr with hn | ⟨item, hi, hid', ho, hcol⟩
  · exact absurd hid (hd.2 _ hn).2
  · exact ⟨item, hi, hid', ho, hcol hc⟩

theorem issued_step {s s' : Server} {c : Command} (h : Server.step s c s')
    (hi : ∀ item ∈ s.db.items, item.id ∈ s.issued) : ∀ item ∈ s'.db.items, item.id ∈ s'.issued := by
  obtain ⟨-, rfl⟩ := h
  intro row hr
  rw [Server.after, List.mem_append]
  rcases row_before (command_effect c s.db) hr with hn | ⟨item, hmem, hid, -⟩
  · exact Or.inl hn
  · exact Or.inr (hid ▸ hi item hmem)

theorem issued_mono {s s' : Server} {c : Command} (h : Server.step s c s') {d : String} (hd : d ∈ s.issued) :
    d ∈ s'.issued := by
  obtain ⟨-, rfl⟩ := h
  exact List.mem_append.mpr (Or.inr hd)

theorem cleared_step {s s' : Server} {c : Command} (h : Server.step s c s') {r : Request P} {progress : Progress}
    (hc : Cleared s r progress) : Cleared s' r progress := by
  cases progress with
  | loading => trivial
  | loaded existing =>
    refine ⟨issued_mono h hc.1, fun row hr hid hcol => ?_⟩
    obtain ⟨item, hi, hid', ho, hcol'⟩ := personal_before h hr (hid ▸ hc.1) hcol
    rw [← ho]
    exact hc.2 item hi (hid'.trans hid) hcol'
  | targets left =>
    intro id req hu
    obtain ⟨hiss, how⟩ := hc id req hu
    refine ⟨issued_mono h hiss, fun row hr hid hcol => ?_⟩
    obtain ⟨item, hi, hid', ho, hcol'⟩ := personal_before h hr (hid ▸ hiss) hcol
    rw [← ho]
    exact how item hi (hid'.trans hid) hcol'

theorem cleared_received {server : Server} {r : Request P} {progress : Progress}
    (h : r.call.received = .ok progress) : Cleared server r progress := by
  cases hc : r.call with
  | create req =>
    rw [hc] at h
    cases h
    intro id req' hu
    rw [hc] at hu
    cases hu
  | bulk items =>
    rw [hc] at h
    simp only [ItemCall.received] at h
    split at h
    · cases h
    · split at h
      · cases h
      · cases h
        intro id req' hu
        rw [hc] at hu
        cases hu
  | update id req =>
    rw [hc] at h
    cases h
    trivial
  | delete id =>
    rw [hc] at h
    cases h
    trivial

theorem cleared_advance {server : Server} (hi : ∀ item ∈ server.db.items, item.id ∈ server.issued) {r : Request P}
    (hc : Cleared server r r.progress) {progress : Progress}
    (h : r.call.advance server.db r.userID r.progress = .ok progress) : Cleared server r progress := by
  cases hp : r.progress with
  | loading =>
    rw [hp] at h
    unfold ItemCall.advance itemByID at h
    cases hg : server.db.items.get? r.call.id with
    | none => simp [hg] at h
    | some existing =>
      simp only [hg, Except.ok.injEq] at h
      subst h
      obtain ⟨hmem, hid⟩ := Table.get?_eq_some.mp hg
      refine ⟨hid ▸ hi existing hmem, fun item hitem hid' hcol => ?_⟩
      cases Table.eq_of_key hitem hmem (hid'.trans hid.symm)
      exact ⟨hcol, rfl⟩
  | loaded existing =>
    rw [hp] at h hc
    unfold ItemCall.advance at h
    simp only at h
    split at h
    · rename_i hcan
      cases h
      intro id req hu
      have hid : r.call.id = id := by rw [hu]; rfl
      refine ⟨hid ▸ hc.1, fun item hitem hid' hcol => ?_⟩
      obtain ⟨hn, ho⟩ := hc.2 item hitem (hid'.trans hid.symm) hcol
      -- the item it read was personal, so only its owner may access it
      have hown : existing.ownerUserID = r.userID := by simpa [Vault.canAccessItem, hn] using hcan
      exact ho.symm.trans hown
    · cases h
  | targets left =>
    rw [hp] at h hc
    cases left with
    | nil => cases h; exact hc
    | cons target left =>
      unfold ItemCall.advance at h
      simp only at h
      split at h
      · cases h
        exact hc
      · cases h

theorem mem_send {ticket : Nat} {userID : Id} {requests : Table (Request.ticket (P := P))}
    {calls : List (ItemCall × List P)} {r : Request P} (h : r ∈ send ticket userID requests calls) :
    r ∈ requests ∨ r.userID = userID ∧ (r.call, r.plaintexts) :: r.rest = calls ∧
      r.call.received = .ok r.progress := by
  cases calls with
  | nil => exact Or.inl (Table.mem_delete.mp h).1
  | cons call rest =>
    simp only [send] at h
    split at h
    · rename_i progress hp
      rcases Table.mem_upsert.mp h with ⟨h, -⟩ | rfl
      · exact Or.inl h
      · exact Or.inr ⟨rfl, rfl, hp⟩
    · exact Or.inl (Table.mem_delete.mp h).1

theorem sealed_send {ticket : Nat} {userID : Id} {requests : Table (Request.ticket (P := P))}
    {calls : List (ItemCall × List P)}
    (hs : ∀ r ∈ requests, ∀ call ∈ (r.call, r.plaintexts) :: r.rest, Sealed C keys r.userID call)
    (hc : ∀ call ∈ calls, Sealed C keys userID call) :
    ∀ r ∈ send ticket userID requests calls, ∀ call ∈ (r.call, r.plaintexts) :: r.rest,
      Sealed C keys r.userID call := by
  intro r hr
  rcases mem_send hr with hr | ⟨hu, hcalls, -⟩
  · exact hs r hr
  · rw [hcalls, hu]
    exact hc

theorem cleared_send {ticket : Nat} {userID : Id} {requests : Table (Request.ticket (P := P))}
    {calls : List (ItemCall × List P)} {server : Server} (hc : ∀ r ∈ requests, Cleared server r r.progress) :
    ∀ r ∈ send ticket userID requests calls, Cleared server r r.progress := by
  intro r hr
  rcases mem_send hr with hr | ⟨-, -, hp⟩
  · exact hc r hr
  · exact cleared_received hp

/-! ## A write -/

theorem record_cases (written : Id → Option P) (rows : List Item) (plaintexts : List P) (id : Id) :
    (record written rows plaintexts id = written id ∧ ∀ e ∈ rows.zip plaintexts, e.1.id ≠ id) ∨
    ∃ e ∈ rows.zip plaintexts, e.1.id = id ∧ record written rows plaintexts id = some e.2 := by
  unfold record
  cases h : (rows.zip plaintexts).find? fun e => e.1.id = id with
  | none => exact Or.inl ⟨rfl, by simpa using h⟩
  | some e => exact Or.inr ⟨e, List.mem_of_find?_eq_some h, by simpa using List.find?_some h, rfl⟩

theorem consistent_record {items : Table Item.id} {written : Id → Option P} {rows : List Item} {plaintexts : List P}
    (hrows : ∀ e ∈ rows.zip plaintexts, e.1 ∈ items ∧ OpensTo C keys e.1 e.2)
    (hold : ∀ item ∈ items, item.deletedAt = none → (∀ e ∈ rows.zip plaintexts, e.1.id ≠ item.id) →
      ∃ p, written item.id = some p ∧ OpensTo C keys item p) :
    Consistent C keys items (record written rows plaintexts) := by
  intro item hi hd
  rcases record_cases written rows plaintexts item.id with ⟨hr, hne⟩ | ⟨e, he, hid, hr⟩
  · rw [hr]
    exact hold item hi hd hne
  · obtain ⟨hmem, hop⟩ := hrows e he
    cases Table.eq_of_key hmem hi hid
    exact ⟨e.2, hr, hop⟩

theorem createdItems_zip {now : Time} {owner : Id} {n : Int} {ids : List Id} {reqs : List ItemRequest} {ps : List P}
    {e : Item × P} (he : e ∈ (createdItems now owner n ids (reqs.map ItemRequest.input)).zip ps) :
    ∃ d ∈ reqs.zip ps, ∃ id r, e = (Item.created now owner r id d.1.input, d.2) := by
  induction reqs generalizing n ids ps with
  | nil => cases ids <;> simp [createdItems] at he
  | cons req reqs ih =>
    cases ids with
    | nil => simp [createdItems] at he
    | cons id ids =>
      cases ps with
      | nil => simp at he
      | cons p ps =>
        simp only [List.map_cons, createdItems, List.zip_cons_cons, List.mem_cons] at he
        rcases he with rfl | he
        · exact ⟨(req, p), by simp, id, n + 1, rfl⟩
        · obtain ⟨d, hd, h⟩ := ih he
          exact ⟨d, by simp [hd], h⟩

theorem length_createdItems {now : Time} {owner : Id} {n : Int} {ids : List Id} {ins : List ItemInput}
    (h : ins.length ≤ ids.length) : (createdItems now owner n ids ins).length = ins.length := by
  induction ins generalizing n ids with
  | nil => cases ids <;> rfl
  | cons inp ins ih =>
    cases ids with
    | nil => simp at h
    | cons id ids =>
      simp only [createdItems, List.length_cons] at h ⊢
      rw [ih (by omega)]

theorem created_opens {db db' : Db} {now : Time} {ids : List Id} {userID : Id} {reqs : List ItemRequest}
    {plaintexts : List P} {rows : List Item}
    (h : createItemsBulk now ids userID (reqs.map ItemRequest.input) db = (.ok rows, db'))
    (hs : ∀ e ∈ reqs.zip plaintexts, ∃ draw,
      e.1 = entryFor C draw (keys.parent userID e.1.collectionID) e.1.collectionID e.1.revision e.2) :
    ∀ e ∈ rows.zip plaintexts, e.1 ∈ rows ∧ e.1.ownerUserID = userID ∧ OpensTo C keys e.1 e.2 := by
  obtain ⟨t, rfl, -, -, -⟩ := insertItems_ok (createItemsBulk_ok h).2
  intro e he
  have hmem := (List.of_mem_zip he).1
  obtain ⟨⟨req, p⟩, hd, id, r, rfl⟩ := createdItems_zip he
  obtain ⟨draw, heq⟩ := hs (req, p) hd
  refine ⟨hmem, rfl, ?_⟩
  have hopen := decryptItem_encryptItem C draw p (keys.parent userID req.collectionID)
  simp only at heq
  unfold OpensTo Item.created ItemRequest.input
  rw [heq]
  exact hopen

theorem consistent_created {db db' : Db} {written : Id → Option P} {now : Time} {ids : List Id} {userID : Id}
    {reqs : List ItemRequest} {plaintexts : List P} {rows : List Item}
    (h : createItemsBulk now ids userID (reqs.map ItemRequest.input) db = (.ok rows, db'))
    (hl : reqs.length = plaintexts.length) (hs : ∀ e ∈ reqs.zip plaintexts, ∃ draw,
      e.1 = entryFor C draw (keys.parent userID e.1.collectionID) e.1.collectionID e.1.revision e.2)
    (hc : Consistent C keys db.items written) :
    Consistent C keys db'.items (record written rows plaintexts) := by
  have hopens := created_opens h hs
  obtain ⟨t, rfl, hlen, rfl, hm, -⟩ := insertItems_ok (createItemsBulk_ok h).2
  apply consistent_record
  · intro e he
    obtain ⟨hmem, -, hopen⟩ := hopens e he
    exact ⟨(hm _).mpr (Or.inr hmem), hopen⟩
  · intro item hi hd hne
    rcases (hm item).mp hi with hold | hnew
    · exact hc item hold hd
    · -- a new row is one of those the ghost records
      have hfst : ((createdItems now userID db.revisionSequence ids (reqs.map ItemRequest.input)).zip
        plaintexts).map
          Prod.fst = createdItems now userID db.revisionSequence ids (reqs.map ItemRequest.input) :=
        List.map_fst_zip (by rw [length_createdItems hlen, List.length_map, hl])
      rw [← hfst] at hnew
      obtain ⟨e, he, rfl⟩ := List.mem_map.mp hnew
      exact absurd rfl (hne e he)

theorem update_key {server : Server} {id userID : Id} {now : Time} {req : ItemRequest} {row : Item} {db' : Db}
    (how : Owns server id userID) (hg : detaches server.db (.update id req) = false)
    (h : updateItem now id req.revision req.input server.db = (.ok row, db')) :
    keys.parent userID req.collectionID = keys.parent row.ownerUserID row.collectionID := by
  obtain ⟨hv, hexec⟩ := updateItem_ok h
  obtain ⟨current, hget, hd, hrev, -, rfl, -⟩ := updateItemTx_ok hexec
  obtain ⟨hmem, hid⟩ := Table.get?_eq_some.mp hget
  unfold Item.updated ItemRequest.input
  cases hc : req.collectionID with
  | some c => rfl
  | none =>
    have hcur : current.collectionID = none := by
      by_contra hne
      rw [← Ne, ← Option.isSome_iff_ne_none] at hne
      rw [detaches, hc, hv] at hg
      simp only [Except.isOk, Except.toBool, decide_true, Bool.true_and] at hg
      rw [← Bool.not_eq_true, Table.any_eq_true] at hg
      exact hg ⟨current, hmem, by simp [hid, hd, hrev, hne]⟩
    change keys.user userID = keys.parent current.ownerUserID (none.orElse fun _ => current.collectionID)
    rw [hcur, ← how.2 current hmem hid hcur]
    rfl

theorem updated_opens {server : Server} {id userID : Id} {now : Time} {req : ItemRequest} {row : Item} {db' : Db}
    {plaintexts : List P} (h : updateItem now id req.revision req.input server.db = (.ok row, db'))
    (how : Owns server id userID) (hg : detaches server.db (.update id req) = false)
    (hs : Sealed C keys userID (.update id req, plaintexts)) : ∃ p, plaintexts = [p] ∧ OpensTo C keys row p := by
  have hkey : keys.parent userID req.collectionID = keys.parent row.ownerUserID row.collectionID :=
    update_key how hg h
  obtain ⟨current, -, -, -, -, rfl, rfl⟩ := updateItemTx_ok (updateItem_ok h).2
  obtain ⟨p, rfl⟩ : ∃ p, plaintexts = [p] := List.length_eq_one_iff.mp hs.1.symm
  obtain ⟨draw, heq⟩ := hs.2 (req, p) List.mem_cons_self
  refine ⟨p, rfl, ?_⟩
  have hopen := decryptItem_encryptItem C draw p (keys.parent userID req.collectionID)
  unfold OpensTo
  rw [← hkey]
  simp only at heq
  unfold Item.updated ItemRequest.input
  rw [heq]
  exact hopen

theorem consistent_updated {server : Server} {id userID : Id} {now : Time} {req : ItemRequest} {row : Item}
    {db' : Db} {written : Id → Option P} {plaintexts : List P}
    (h : updateItem now id req.revision req.input server.db = (.ok row, db')) (how : Owns server id userID)
    (hg : detaches server.db (.update id req) = false) (hs : Sealed C keys userID (.update id req, plaintexts))
    (hc : Consistent C keys server.db.items written) :
    Consistent C keys db'.items (record written [row] plaintexts) := by
  obtain ⟨p, rfl, hopen⟩ := updated_opens h how hg hs
  obtain ⟨current, -, -, -, -, rfl, rfl⟩ := updateItemTx_ok (updateItem_ok h).2
  apply consistent_record
  · intro e he
    cases List.mem_singleton.mp he
    exact ⟨Table.mem_upsert.mpr (Or.inr rfl), hopen⟩
  · intro item hi hd hne
    rcases Table.mem_upsert.mp hi with ⟨hold, -⟩ | rfl
    · exact hc item hold hd
    · exact absurd rfl (hne _ (List.mem_singleton.mpr rfl))

theorem consistent_deleted {db db' : Db} {id : Id} {now : Time} {row : Item} {written : Id → Option P}
    (h : deleteItem now id db = (.ok row, db')) (hc : Consistent C keys db.items written) :
    Consistent C keys db'.items (record written [row] []) := by
  obtain ⟨current, -, -, rfl, rfl⟩ := deleteItemTx_ok (deleteItem_ok h)
  apply consistent_record
  · intro e he
    cases he
  · intro item hi hd _
    rcases Table.mem_upsert.mp hi with ⟨hold, -⟩ | rfl
    · exact hc item hold hd
    · cases hd

theorem consistent_write {s : State P} {r : Request P} (now : Time) (ids : List Id) (hinv : Inv C keys s)
    (hr : r ∈ s.requests) (hp : r.progress = .targets []) (hg : detaches s.server.db r.call = false) :
    Consistent C keys (s.server.after (r.call.command now ids r.userID)).db.items
      (match (r.call.reply now ids r.userID s.server.db).rows with
        | some rows => record s.written rows r.plaintexts
        | none => s.written) := by
  obtain ⟨hl, hs⟩ := hinv.sealed_ r hr _ List.mem_cons_self
  simp only at hl hs
  change Consistent C keys (Command.run (r.call.command now ids r.userID) s.server.db).items _
  cases hcall : r.call with
  | create req =>
    rw [hcall] at hl hs
    simp only [ItemCall.command, ItemCall.reply, Command.run]
    rcases createItem_eq with ⟨item, db', h, hb⟩ | ⟨e, h⟩
    · rw [h]
      exact consistent_created hb hl hs hinv.consistent
    · rw [h]
      cases e <;> exact hinv.consistent
  | bulk items =>
    rw [hcall] at hl hs
    simp only [ItemCall.command, ItemCall.reply, Command.run]
    cases h : createItemsBulk now ids r.userID (items.map ItemRequest.input) s.server.db with
    | mk res db' =>
      cases res with
      | ok rows => exact consistent_created h hl hs hinv.consistent
      | error e =>
        cases createItemsBulk_error h
        cases e <;> exact hinv.consistent
  | update id req =>
    rw [hcall] at hl hs hg
    simp only [ItemCall.command, ItemCall.reply, Command.run]
    cases h : updateItem now id req.revision req.input s.server.db with
    | mk res db' =>
      cases res with
      | error e =>
        cases updateItem_error h
        cases e <;> exact hinv.consistent
      | ok row =>
        have how : Owns s.server id r.userID := by
          have hcl := hinv.cleared r hr
          rw [hp] at hcl
          exact hcl id req hcall
        exact consistent_updated h how hg ⟨hl, hs⟩ hinv.consistent
  | delete id =>
    rw [hcall] at hl
    simp only [ItemCall.command, ItemCall.reply, Command.run]
    cases h : deleteItem now id s.server.db with
    | mk res db' =>
      cases res with
      | error e =>
        cases deleteItem_error h
        cases e <;> exact hinv.consistent
      | ok row =>
        rw [List.length_eq_zero_iff.mp hl.symm]
        exact consistent_deleted h hinv.consistent

/-! ## Every run -/

theorem inv_start : Inv C keys start where
  issued _ hi := absurd hi (Table.mem_empty _)
  consistent _ hi := absurd hi (Table.mem_empty _)
  sealed_ _ hr := absurd hr (Table.mem_empty _)
  cleared _ hr := absurd hr (Table.mem_empty _)

theorem inv_step {s s' : State P} {e : Event K P} (h : step C keys s e s') (hg : Attached s e)
    (hinv : Inv C keys s) :
    Inv C keys s' := by
  obtain ⟨he, rfl⟩ := h
  cases e with
  | call userID session draw op =>
    simp only [next]
    split
    · rename_i calls hc
      exact ⟨hinv.issued, hinv.consistent, sealed_send hinv.sealed_ (sealed_calls he hc), cleared_send hinv.cleared⟩
    · exact hinv
  | advance ticket =>
    simp only [next]
    split
    · exact hinv
    · rename_i r hr
      have hmem := (Table.get?_eq_some.mp hr).1
      split
      · rename_i progress hp
        refine ⟨hinv.issued, hinv.consistent, fun q hq => ?_, fun q hq => ?_⟩
        · rcases Table.mem_upsert.mp hq with ⟨hq, -⟩ | rfl
          · exact hinv.sealed_ q hq
          · exact hinv.sealed_ r hmem
        · rcases Table.mem_upsert.mp hq with ⟨hq, -⟩ | rfl
          · exact hinv.cleared q hq
          · exact cleared_advance hinv.issued (hinv.cleared r hmem) hp
      · exact ⟨hinv.issued, hinv.consistent, fun q hq => hinv.sealed_ q (Table.mem_delete.mp hq).1,
          fun q hq => hinv.cleared q (Table.mem_delete.mp hq).1⟩
  | write ticket now ids =>
    simp only [enabled, Option.any_eq_true, Bool.and_eq_true, decide_eq_true_eq] at he
    obtain ⟨r, hr, hp, hd⟩ := he
    have hmem := (Table.get?_eq_some.mp hr).1
    have hgr : detaches s.server.db r.call = false := by simpa [Attached, hr] using hg
    have hstep : Server.step s.server (r.call.command now ids r.userID) (s.server.after _) := ⟨hd, rfl⟩
    have hc := consistent_write now ids hinv hmem hp hgr
    have hcleared : ∀ q ∈ s.requests, Cleared (s.server.after (r.call.command now ids r.userID)) q q.progress :=
      fun q hq => cleared_step hstep (hinv.cleared q hq)
    simp only [next, hr]
    cases hrow : (r.call.reply now ids r.userID s.server.db).rows with
    | some rows =>
      rw [hrow] at hc
      refine ⟨issued_step hstep hinv.issued, hc, sealed_send hinv.sealed_ ?_, cleared_send hcleared⟩
      exact fun call hcall => hinv.sealed_ r hmem call (List.mem_cons_of_mem _ hcall)
    | none =>
      rw [hrow] at hc
      exact ⟨issued_step hstep hinv.issued, hc, fun q hq => hinv.sealed_ q (Table.mem_delete.mp hq).1,
        fun q hq => hcleared q (Table.mem_delete.mp hq).1⟩
  | drop ticket =>
    exact ⟨hinv.issued, hinv.consistent, fun q hq => hinv.sealed_ q (Table.mem_delete.mp hq).1,
      fun q hq => hinv.cleared q (Table.mem_delete.mp hq).1⟩
  | other c =>
    have hstep : Server.step s.server c (s.server.after c) := ⟨he.2, rfl⟩
    refine ⟨issued_step hstep hinv.issued, ?_, hinv.sealed_, fun r hr => cleared_step hstep (hinv.cleared r hr)⟩
    intro item hi hd
    exact hinv.consistent item (row_of_other (command_effect c s.server.db) he.1 hi) hd

/-- **Every item opens under the key of the collection it is in**, to what its
last successful writer passed in, in every run in which no update that names no
collection commits on a row that is in one; and every update that commits has
sealed its body under the key of the collection it leaves the row in. -/
theorem items_open {s : State P} {es : List (Event K P)}
    (hr : Lts.Run (Lts.Guarded (step C keys) Attached) start es s) :
    Consistent C keys s.server.db.items s.written ∧
    ∀ r ∈ s.requests, ∀ id req, r.call = .update id req → r.progress = .targets [] →
      detaches s.server.db r.call = false → ∀ now row db',
        updateItem now id req.revision req.input s.server.db = (.ok row, db') →
        keys.parent r.userID req.collectionID = keys.parent row.ownerUserID row.collectionID := by
  have hinv : Inv C keys s := hr.inv (P := Inv C keys) (fun _ _ _ h => inv_step h.1 h.2) inv_start
  refine ⟨hinv.consistent, ?_⟩
  intro r hmem id req hcall hp hg now row db' h
  have hcl := hinv.cleared r hmem
  rw [hp] at hcl
  rw [hcall] at hg
  exact update_key (hcl id req hcall) hg h

end

/-! Bob saves ann's shared item with the picker on Personal. -/

def labelled : Crypto Char String where
  encryptString m k _ := String.ofList (k :: m.toList)
  decryptString s k := match s.toList with
    | k' :: m => if k' = k then some (String.ofList m) else none
    | [] => none
  wrapKey k w _ := String.ofList [w, k]
  unwrapKey s w := match s.toList with
    | [w', k] => if w' = w then some k else none
    | _ => none
  stringify p := p
  parse p := some p
  decrypt_encrypt p k n := by simp
  unwrap_wrap k w n := by simp
  unwrap_other k w w' n h := by simp [h.symm]
  parse_stringify p := rfl

def householdKeys : Keys Char where
  user u := if u = "ann" then 'a' else 'b'
  collection _ := 'f'

def sessionOf (userKey : Char) : Session Char := ⟨userKey, ⟨[⟨"family", 'f'⟩], by decide⟩⟩

def drawn (_ : Nat) : ItemDraw Char := ⟨'i', "nonce-1", "nonce-2"⟩

def shared : List (Event Char String) := (enrolls "ann" "user" ++ enrolls "bob" "user").map .other ++ [
  .other (.createCollection 0 "family" "audit-1" "Family" "ann" "sealed-to-ann"),
  .other (.fulfilGrantOrAdd 0 "audit-2" "family" "bob" "sealed-to-bob" "member" "ann"),
  .call "ann" (sessionOf 'a') drawn (.createItem "password" (some "family")),
  .advance 0,
  .write 0 0 ["wifi"]]

def saved (collectionId : Option Id) : List (Event Char String) :=
  shared ++ [
    .call "bob" (sessionOf 'b') drawn (.updateItem "wifi" 3 collectionId "password-2"),
    .advance 1, .advance 1, .advance 1,
    .write 1 0 []]

def play (es : List (Event Char String)) : State String := es.foldl (next labelled) start

def unreadable : Item := ⟨"wifi", "ann", some "family", "ipassword-2", "bi", 4, 0, 0, none⟩

theorem personal_save_unreadable :
    ¬ ∀ (K P : Type) (C : Crypto K P) (keys : Keys K) (es : List (Event K P)) (s : State P),
      Lts.Run (step C keys) start es s → Consistent C keys s.server.db.items s.written := by
  intro h
  have hr : Lts.Run (step labelled householdKeys) start (saved none) (play (saved none)) :=
    Lts.run_script (by decide)
  obtain ⟨p, -, hp⟩ := h Char String labelled householdKeys _ _ hr unreadable (by decide) rfl
  have hnone : decryptItem labelled ⟨"ipassword-2", "bi"⟩ 'f' = none := by decide
  exact Option.some_ne_none p (hp.symm.trans hnone)

theorem items_open_shared_save :
    Consistent labelled householdKeys (play (saved (some "family"))).server.db.items
      (play (saved (some "family"))).written :=
  have hr : Lts.Run (Lts.Guarded (step labelled householdKeys) Attached) start (saved (some "family")) _ :=
    Lts.run_guarded_script (by decide)
  (items_open hr).1

end Keyhole.Vault.Sealing
