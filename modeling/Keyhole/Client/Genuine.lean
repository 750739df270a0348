import Keyhole.Client.Ownership
import Keyhole.Client.Writes

/-!
# What a commit stores is genuine

A wiped buffer reads as zeros, and what is sealed under it goes out with the
tokens of the next unlock. A body sealed while the buffer was whole is sealed
under the account's own key, wherever locks and unlocks fall.
-/

namespace Keyhole.Client.Writes
open Sql Store Http Vault

variable {K P : Type} (C : Crypto K P) (D : Kdf K) (keys : Sealing.Keys K) (userID : Id)

/-! ## What is promised -/

/-- The user key that an unlock with `masterPassword` takes from a user's row. -/
def unlocked (user : User) (masterPassword : String) : Option K := do
  let kdfSalt ← user.kdfSalt.bind D.fromBase64
  let params ← user.kdfParams.bind D.parseParams
  let protectedUserKey ← user.protectedUserKey
  let session ← beginUnlock D masterPassword kdfSalt params
  C.unwrapKey protectedUserKey session.wrappingKey

/-- The user key that a recovery with `recoveryCode` takes from it. -/
def recovered (user : User) (recoveryCode : String) : Option K := do
  let recoverySalt ← user.recoverySalt.bind D.fromBase64
  let params ← user.recoveryKDFParams.bind D.parseParams
  let recoveryProtectedUserKey ← user.recoveryProtectedUserKey
  recoverUserKey C D recoveryProtectedUserKey recoveryCode recoverySalt params

def Write.Genuine : Write P → Prop
  | .items rows => ∀ e ∈ rows, Sealing.OpensTo C keys e.1 e.2 ∧
    (e.1.collectionID = none → e.1.ownerUserID = userID)
  | .password newPassword user => user.id = userID ∧ unlocked C D user newPassword = some (keys.user userID)
  | .recovery recoveryCode user => user.id = userID ∧ recovered C D user recoveryCode = some (keys.user userID)

/-- What a commit stores was sealed under a buffer that was still whole when it was read, and no
item it updates stays in a collection that the update does not name. -/
def World.keepsKeys (w : World K P) : Event K P → Bool
  | .write ticket _ _ _ => (w.posts.get? ticket).all fun p => p.whole && match p.body with
      | .items call _ => !Sealing.detaches w.server.db call
      | .password .. | .recovery .. => true
  | _ => true

/-! ## What a body seals -/

def Entry.Sealed (entry : Entry P) : Prop :=
  entry.whole = true → ∃ draw, entry.request = entryFor C draw (keys.parent userID entry.request.collectionID)
    entry.request.collectionID entry.request.revision entry.plaintext

def Destination.chunk : Destination P → List (Entry P)
  | .create | .update _ => []
  | .upload _ chunk _ => chunk

structure Job.Sound (heap : Heap K) (job : Job P) : Prop where
  parentKey : heap.Only job.parentKey (keys.parent userID job.collectionId)
  chunk : ∀ entry ∈ job.destination.chunk, entry.Sealed C keys userID

def Body.Sealed : Body P → Prop
  | .items call plaintexts => Sealing.Sealed C keys userID (call, plaintexts)
  | .password newPassword req => ∃ draw current rotation,
      rotateMasterPassword C D draw newPassword (keys.user userID) defaultKdfParams = some rotation ∧
      req = rotatePasswordRequest D current rotation
  | .recovery recoveryCode req => ∃ draw current blob,
      createRecoveryBlob C D draw (keys.user userID) recoveryCode defaultKdfParams = some blob ∧
      req = rotateRecoveryRequest D current blob

structure Pending.Sound (heap : Heap K) (pending : Pending P) : Prop where
  body : pending.whole = true → pending.body.Sealed C D keys userID
  next : ∀ job ∈ pending.next, job.Sound C keys userID heap

def Move.Sound (heap : Heap K) : Move P → Prop
  | .encrypt job _ => job.Sound C keys userID heap
  | .post pending => pending.Sound C D keys userID heap
  | .finish => True

def Stage.Sound (heap : Heap K) (granted : List SessionTokens) : Stage P → Prop
  | .encrypting job _ => job.Sound C keys userID heap
  | .wrapping job entry => job.Sound C keys userID heap ∧ entry.Sealed C keys userID
  | .rotating _ _ userKey => heap.Only userKey (keys.user userID)
  | .rotated pending | .posted _ _ pending | .resending pending => pending.Sound C D keys userID heap
  | .refreshing pending refreshToken =>
    pending.Sound C D keys userID heap ∧ ∃ t ∈ granted, t.refreshToken = refreshToken
  | .renewed pending answer => pending.Sound C D keys userID heap ∧ ∀ t ∈ answer, t ∈ granted
  | .idle | .asking _ | .hashing .. | .ended => True

def asRequest (call : ItemCall) (plaintexts : List P) (progress : Progress) : Sealing.Request P :=
  ⟨0, userID, progress, call, plaintexts, []⟩

def Standing.Sound (server : Server) (body : Body P) : Standing → Prop
  | .checking user progress => user = userID ∧ ∀ call plaintexts, body = .items call plaintexts →
      Sealing.Cleared server (asRequest userID call plaintexts progress) progress
  | .verified user _ => user = userID
  | .received | .answered _ => True

structure Post.Sound (server : Server) (granted : List SessionTokens) (p : Post P) : Prop where
  body : p.whole = true → p.body.Sealed C D keys userID
  token : ∀ token ∈ p.token, ∃ t ∈ granted, t.accessToken = token
  standing : p.standing.Sound userID server p.body

/-- A pair of tokens is this account's, and none the server will draw again. -/
structure Granted (server : Server) (t : SessionTokens) : Prop where
  holds : Holds userID server.db t
  accessToken : t.accessToken ∈ server.issued
  refreshToken : t.refreshToken ∈ server.issued

structure Inv (w : World K P) : Prop where
  tokens : ∀ t ∈ w.memory.session.tokens, t ∈ w.granted
  userKey : ∀ r ∈ w.memory.session.userKey, w.memory.heap.Only r (keys.user userID)
  ring : ∀ e ∈ w.memory.session.collectionKeys, w.memory.heap.Only e.2 (keys.collection e.1)
  opened : ∀ e ∈ w.opened, w.memory.heap.Only e.2 (keys.collection e.1)
  calls : ∀ i, (w.calls i).Sound C D keys userID w.memory.heap w.granted
  issued : ∀ item ∈ w.server.db.items, item.id ∈ w.server.issued
  granted : ∀ t ∈ w.granted, Granted userID w.server t
  posts : ∀ p ∈ w.posts, p.Sound C D keys userID w.server w.granted
  committed : ∀ x ∈ w.committed, x.Genuine C D keys userID

variable {C D keys userID} {heap heap' : Heap K} {granted granted' : List SessionTokens}

/-! ## Between two awaits -/

theorem bulk_sound {chunk : List (Entry P)} {next : Option (Job P)}
    (hc : ∀ entry ∈ chunk, entry.Sealed C keys userID) (hn : ∀ job ∈ next, job.Sound C keys userID heap) :
    (bulk chunk next).Sound C D keys userID heap := by
  refine ⟨fun hw => ⟨by simp [ItemCall.requests], ?_⟩, hn⟩
  intro e he
  have hw' : ∀ entry ∈ chunk, entry.whole = true := by simpa [bulk] using hw
  have hz : ((chunk.map (·.request)).zip (chunk.map (·.plaintext))) =
      chunk.map fun entry => (entry.request, entry.plaintext) :=
    List.zip_map' ..
  change e ∈ (chunk.map (·.request)).zip (chunk.map (·.plaintext)) at he
  rw [hz] at he
  obtain ⟨entry, hmem, rfl⟩ := List.mem_map.mp he
  exact hc entry hmem (hw' entry hmem)

theorem single_sound {call : ItemCall} {entry : Entry P} (hcall : call.requests = [entry.request])
    (he : entry.Sealed C keys userID) :
    Pending.Sound C D keys userID heap ⟨.items call [entry.plaintext], entry.whole, none⟩ := by
  refine ⟨fun hw => ⟨by simp [hcall], ?_⟩, by simp⟩
  intro e hmem
  simp only [hcall, List.zip_cons_cons, List.zip_nil_right, List.mem_singleton] at hmem
  subst hmem
  exact he hw

theorem Job.Sound.loop {job : Job P} (h : job.Sound C keys userID heap) {rest : List P} {chunk : List (Entry P)}
    {chunkBytes : Nat} (hc : ∀ entry ∈ chunk, entry.Sealed C keys userID) :
    (job.loop rest chunk chunkBytes).Sound C D keys userID heap := by
  cases rest with
  | cons item rest => exact ⟨h.parentKey, hc⟩
  | nil =>
    by_cases hne : chunk = []
    · simp only [Job.loop, hne, if_true]
      trivial
    · simp only [Job.loop, hne, if_false]
      have hbulk : (bulk chunk none).Sound C D keys userID heap := bulk_sound hc (by simp)
      exact hbulk

theorem Job.Sound.encrypted {job : Job P} (h : job.Sound C keys userID heap) {entry : Entry P}
    (he : entry.Sealed C keys userID) : (job.encrypted entry).Sound C D keys userID heap := by
  have hchunk := h.chunk
  unfold Job.encrypted
  cases hd : job.destination with
  | create => exact single_sound rfl he
  | update id => exact single_sound rfl he
  | upload rest chunk chunkBytes =>
    rw [hd] at hchunk
    simp only
    split
    · refine bulk_sound hchunk ?_
      intro next hn
      cases hn
      refine ⟨h.parentKey, fun e hmem => ?_⟩
      cases List.mem_singleton.mp hmem
      exact he
    · apply h.loop
      intro e hmem
      rcases List.mem_append.mp hmem with hmem | hmem
      · exact hchunk e hmem
      · cases List.mem_singleton.mp hmem
        exact he

theorem Pending.Sound.landed {pending : Pending P} (h : pending.Sound C D keys userID heap) :
    pending.landed.Sound C D keys userID heap := by
  unfold Pending.landed
  cases hn : pending.next with
  | none => trivial
  | some job =>
    have hjob := h.next job hn
    have hchunk := hjob.chunk
    simp only
    cases hd : job.destination with
    | create => trivial
    | update id => trivial
    | upload rest chunk chunkBytes =>
      rw [hd] at hchunk
      exact hjob.loop hchunk

/-! ## A heap that moves on -/

section
variable (hh : ∀ r k, heap.Only r k → heap'.Only r k)
include hh

theorem Job.Sound.mono {job : Job P} (h : job.Sound C keys userID heap) : job.Sound C keys userID heap' :=
  ⟨hh _ _ h.parentKey, h.chunk⟩

theorem Pending.Sound.mono {pending : Pending P} (h : pending.Sound C D keys userID heap) :
    pending.Sound C D keys userID heap' :=
  ⟨h.body, fun job hj => (h.next job hj).mono hh⟩

theorem Stage.Sound.mono {stage : Stage P} (hg : ∀ t ∈ granted, t ∈ granted')
    (h : stage.Sound C D keys userID heap granted) : stage.Sound C D keys userID heap' granted' := by
  cases stage with
  | encrypting job item => exact Job.Sound.mono hh h
  | wrapping job entry => exact ⟨h.1.mono hh, h.2⟩
  | rotating change current userKey => exact hh _ _ h
  | rotated pending => exact Pending.Sound.mono hh h
  | posted retry ticket pending => exact Pending.Sound.mono hh h
  | resending pending => exact Pending.Sound.mono hh h
  | refreshing pending refreshToken =>
    obtain ⟨hp, t, ht, hr⟩ := h
    exact ⟨hp.mono hh, t, hg t ht, hr⟩
  | renewed pending answer => exact ⟨h.1.mono hh, fun t ht => hg t (h.2 t ht)⟩
  | idle => trivial
  | asking change => trivial
  | hashing change found => trivial
  | ended => trivial

end

/-! ## What is read from a buffer -/

theorem Job.Sound.entry {job : Job P} {m : Memory K} (h : job.Sound C keys userID m.heap) (zero : K) (item : P)
    (draw : ItemDraw K) : (job.entry C zero item draw m).Sealed C keys userID := by
  intro hw
  obtain ⟨b, hb⟩ := Option.isSome_iff_exists.mp hw
  have hkey : m.read zero job.parentKey = keys.parent userID job.collectionId := by
    unfold Memory.read
    rw [hb]
    exact h.parentKey.2 b hb
  refine ⟨draw, ?_⟩
  simp only [Job.entry, hkey]
  rfl

theorem Change.body_sealed {change : Change} {draw : CodeDraw K} {current : String} {body : Body P}
    (h : change.body C D draw current (keys.user userID) = some body) : body.Sealed C D keys userID := by
  cases change with
  | password input =>
    obtain ⟨rotation, hr, rfl⟩ := Option.map_eq_some_iff.mp h
    exact ⟨_, _, rotation, hr, rfl⟩
  | recovery input =>
    obtain ⟨blob, hb, rfl⟩ := Option.map_eq_some_iff.mp h
    exact ⟨_, _, blob, hb, rfl⟩

/-! ## What opens -/

theorem unlocked_rotated {draw : WrapDraw K} {newPassword : String} {userKey : K} {rotation : RotationResult K}
    (h : rotateMasterPassword C D draw newPassword userKey defaultKdfParams = some rotation) (user : User)
    (now : Time) (current : String) (d : Draw) :
    unlocked C D (user.passwordRotated now ((rotatePasswordRequest D current rotation).input d)) newPassword =
      some userKey := by
  obtain ⟨masterKey, hm, hr⟩ := Option.bind_eq_some_iff.mp h
  cases hr
  simp [unlocked, User.passwordRotated, RotatePasswordRequest.input, rotatePasswordRequest, D.fromBase64_toBase64,
    D.parseParams_default, beginUnlock, hm, C.unwrap_wrap]

theorem recovered_rotated {draw : WrapDraw K} {recoveryCode : String} {userKey : K} {blob : RecoveryBlob K}
    (h : createRecoveryBlob C D draw userKey recoveryCode defaultKdfParams = some blob) (user : User) (now : Time)
    (current : String) (d : Draw) :
    recovered C D (user.recoveryRotated now ((rotateRecoveryRequest D current blob).input d)) recoveryCode =
      some userKey := by
  obtain ⟨recoveryKey, hk, hr⟩ := Option.bind_eq_some_iff.mp h
  cases hr
  simp [recovered, User.recoveryRotated, RotateRecoveryRequest.input, rotateRecoveryRequest, D.fromBase64_toBase64,
    D.parseParams_default, recoverUserKey, hk, C.unwrap_wrap]

/-! ## What a commit stores -/

theorem rotatePassword_row {now : Time} {auditID user keep : Id} {inp : PasswordRotation} {db : Db} {m : Mark}
    (hm : m ∈ Command.mark db (.rotatePassword now auditID user inp keep)) :
    ∃ u : User, u.id = user ∧
      (Command.run (.rotatePassword now auditID user inp keep) db).users.get? user =
        some (u.passwordRotated now inp) := by
  have he := account_effect (.rotatePassword now auditID user inp keep) db
  change ∃ u : User, u.id = user ∧
    (Command.run (.rotatePassword now auditID user inp keep) db).toAccounts.users.get? user = _
  generalize Command.mark db (.rotatePassword now auditID user inp keep) = mark at he hm
  generalize (Command.run _ db).toAccounts = a at he ⊢
  cases he with
  | @passwordRotated _ _ _ _ _ u hu =>
    obtain ⟨-, hid⟩ := Table.get?_eq_some.mp hu
    exact ⟨u, hid, Table.get?_eq_some.mpr ⟨Table.mem_upsert.mpr (Or.inr rfl), hid⟩⟩
  | _ => cases hm

theorem rotateRecovery_row {now : Time} {auditID user : Id} {inp : RecoveryRotation} {db : Db} {m : Mark}
    (hm : m ∈ Command.mark db (.rotateRecovery now auditID user inp)) :
    ∃ u : User, u.id = user ∧
      (Command.run (.rotateRecovery now auditID user inp) db).users.get? user =
        some (u.recoveryRotated now inp) := by
  have he := account_effect (.rotateRecovery now auditID user inp) db
  change ∃ u : User, u.id = user ∧
    (Command.run (.rotateRecovery now auditID user inp) db).toAccounts.users.get? user = _
  generalize Command.mark db (.rotateRecovery now auditID user inp) = mark at he hm
  generalize (Command.run _ db).toAccounts = a at he ⊢
  cases he with
  | @recoveryRotated _ _ _ _ u hu =>
    obtain ⟨-, hid⟩ := Table.get?_eq_some.mp hu
    exact ⟨u, hid, Table.get?_eq_some.mpr ⟨Table.mem_upsert.mpr (Or.inr rfl), hid⟩⟩
  | _ => cases hm

theorem rows_genuine {server : Server} {call : ItemCall} {plaintexts : List P} {now : Time} {ids : List Id}
    {rows : List Item} (hs : Sealing.Sealed C keys userID (call, plaintexts))
    (hc : Sealing.Cleared server (asRequest userID call plaintexts (.targets [])) (.targets []))
    (hd : Sealing.detaches server.db call = false) (hr : (call.reply now ids userID server.db).rows = some rows) :
    (Write.items (rows.zip plaintexts)).Genuine C D keys userID := by
  have hbulk : ∀ reqs db' ids, Sealing.Sealed C keys userID (.bulk reqs, plaintexts) →
      createItemsBulk now ids userID (reqs.map ItemRequest.input) server.db = (.ok rows, db') →
      (Write.items (rows.zip plaintexts)).Genuine C D keys userID := by
    intro reqs db' ids hs h e he
    obtain ⟨-, howner, hopen⟩ := Sealing.created_opens h hs.2 e he
    exact ⟨hopen, fun _ => howner⟩
  cases call with
  | create req =>
    simp only [ItemCall.reply] at hr
    rcases @createItem_eq now (ids.headD "") userID req.input server.db with ⟨item, db', h, hb⟩ | ⟨e, h⟩
    · rw [h] at hr
      cases hr
      exact hbulk [req] db' _ hs hb
    · rw [h] at hr
      cases e <;> cases hr
  | bulk reqs =>
    simp only [ItemCall.reply] at hr
    cases h : createItemsBulk now ids userID (reqs.map ItemRequest.input) server.db with
    | mk result db' =>
      rw [h] at hr
      cases result with
      | ok items =>
        cases hr
        exact hbulk reqs db' ids hs h
      | error e => cases e <;> cases hr
  | update id req =>
    simp only [ItemCall.reply] at hr
    cases h : updateItem now id req.revision req.input server.db with
    | mk result db' =>
      rw [h] at hr
      cases result with
      | error e => cases e <;> cases hr
      | ok row =>
        cases hr
        have how : Sealing.Owns server id userID := hc id req rfl
        obtain ⟨p, rfl, hopen⟩ := Sealing.updated_opens h how hd hs
        intro e he
        cases List.mem_singleton.mp he
        refine ⟨hopen, fun hcol => ?_⟩
        obtain ⟨current, hget, -, -, -, rfl, -⟩ := updateItemTx_ok (updateItem_ok h).2
        obtain ⟨hmem, hid⟩ := Table.get?_eq_some.mp hget
        -- an update never takes a row out of its collection
        have hcurrent : current.collectionID = none := by
          simp only [Item.updated] at hcol
          cases hi : req.input.collectionID with
          | none => simpa [hi] using hcol
          | some c => simp [hi] at hcol
        exact how.2 current hmem hid hcurrent
  | delete id =>
    have hnil : plaintexts = [] := List.length_eq_zero_iff.mp hs.1.symm
    rw [hnil, List.zip_nil_right]
    intro e he
    cases he

theorem Post.Sound.stores {server : Server} {p : Post P} (h : p.Sound C D keys userID server granted) {now : Time}
    {ids : List Id} {draw : Draw} {c : Command} (hc : p.command now ids draw = some c) (hw : p.whole = true)
    (hd : ∀ call plaintexts, p.body = .items call plaintexts → Sealing.detaches server.db call = false) :
    ∀ x ∈ p.stores now ids draw server.db, x.Genuine C D keys userID := by
  obtain ⟨ticket, token, body, whole, standing⟩ := p
  have hs := h.body hw
  have hst := h.standing
  simp only at hs hst hd
  unfold Post.command at hc
  simp only at hc
  split at hc
  · -- an item request
    obtain ⟨rfl, hclear⟩ := hst
    intro x hx
    simp only [Post.stores, List.mem_map, Option.mem_toList] at hx
    obtain ⟨rows, hrows, rfl⟩ := hx
    exact rows_genuine hs (hclear _ _ rfl) (hd _ _ rfl) hrows
  · cases hst
    obtain ⟨d, current, rotation, hr, rfl⟩ := hs
    intro x hx
    simp only [Post.stores, List.mem_flatMap, List.mem_map, Option.mem_toList] at hx
    obtain ⟨m, hm, user, hu, rfl⟩ := hx
    obtain ⟨u, hid, hget⟩ := rotatePassword_row hm
    cases hget.symm.trans hu
    exact ⟨hid, unlocked_rotated hr u now current draw⟩
  · cases hst
    obtain ⟨d, current, blob, hr, rfl⟩ := hs
    intro x hx
    simp only [Post.stores, List.mem_flatMap, List.mem_map, Option.mem_toList] at hx
    obtain ⟨m, hm, user, hu, rfl⟩ := hx
    obtain ⟨u, hid, hget⟩ := rotateRecovery_row hm
    cases hget.symm.trans hu
    exact ⟨hid, recovered_rotated hr u now current draw⟩
  · cases hc

/-! ## The session moves -/

section
variable {w : World K P}

theorem Inv.remember (h : Inv C D keys userID w) {m : Memory K}
    (hh : ∀ r k, w.memory.heap.Only r k → m.heap.Only r k) (ht : ∀ t ∈ m.session.tokens, t ∈ w.granted)
    (hu : ∀ r ∈ m.session.userKey, m.heap.Only r (keys.user userID))
    (hr : ∀ e ∈ m.session.collectionKeys, m.heap.Only e.2 (keys.collection e.1)) :
    Inv C D keys userID { w with memory := m } where
  tokens := ht
  userKey := hu
  ring := hr
  opened e he := hh _ _ (h.opened e he)
  calls i := (h.calls i).mono hh fun _ ht => ht
  issued := h.issued
  granted := h.granted
  posts := h.posts
  committed := h.committed

theorem Inv.lock (h : Inv C D keys userID w) : Inv C D keys userID { w with memory := w.memory.lock } := by
  apply h.remember
  · exact fun r k hr => hr.wipe _
  · intro t ht
    cases ht
  · intro r hr
    cases hr
  · exact fun e he => absurd he (Table.mem_empty e)

theorem Inv.unlock (h : Inv C D keys userID w) {tokens : SessionTokens} (ht : tokens ∈ w.granted) (privateKey : K) :
    Inv C D keys userID { w with memory := w.memory.openSession tokens ⟨keys.user userID, privateKey⟩ } := by
  apply h.remember
  · exact fun r k hr => ((hr.wipe _).alloc _).alloc _
  · intro t heq
    cases heq
    exact ht
  · intro r heq
    cases heq
    exact (Heap.only_alloc _ _).alloc _
  · exact fun e he => absurd he (Table.mem_empty e)

theorem Inv.openCollectionKey (h : Inv C D keys userID w) (id : Id) :
    Inv C D keys userID { w with
      memory := { w.memory with heap := w.memory.heap.alloc (keys.collection id) }
      opened := (id, w.memory.heap.top) :: w.opened } := by
  have hh : ∀ r k, w.memory.heap.Only r k → (w.memory.heap.alloc (keys.collection id)).Only r k :=
    fun r k hr => hr.alloc _
  have hm : Inv C D keys userID
      { w with memory := { w.memory with heap := w.memory.heap.alloc (keys.collection id) } } :=
    h.remember hh h.tokens (fun r hr => hh _ _ (h.userKey r hr)) fun e he => hh _ _ (h.ring e he)
  refine { hm with opened := ?_ }
  intro e he
  rcases List.mem_cons.mp he with rfl | he
  · exact Heap.only_alloc _ _
  · exact hm.opened e he

theorem Inv.setCollectionKeys (h : Inv C D keys userID w) {next : Keyring}
    (hn : ∀ e ∈ next.rows, e ∈ w.memory.session.collectionKeys.rows ∨ e ∈ w.opened) :
    Inv C D keys userID { w with memory := w.memory.setCollectionKeys next } := by
  have hh : ∀ r k, w.memory.heap.Only r k → (w.memory.setCollectionKeys next).heap.Only r k :=
    fun r k hr => hr.wipe _
  apply h.remember hh h.tokens
  · exact fun r hr => hh _ _ (h.userKey r hr)
  · intro e he
    rcases hn e he with hring | hopened
    · exact hh _ _ (h.ring e hring)
    · exact hh _ _ (h.opened e hopened)

/-! ## A call moves -/

theorem Inv.put (h : Inv C D keys userID w) {i : Nat} {stage : Stage P}
    (hs : stage.Sound C D keys userID w.memory.heap w.granted) : Inv C D keys userID (w.put i stage) := by
  refine { h with calls := ?_ }
  intro j
  show (if j = i then stage else w.calls j).Sound C D keys userID w.memory.heap w.granted
  split
  · exact hs
  · exact h.calls j

theorem Inv.post (h : Inv C D keys userID w) {i : Nat} {pending : Pending P}
    (hp : pending.Sound C D keys userID w.memory.heap) (retry : Bool) :
    Inv C D keys userID (w.post i retry pending) := by
  have hput : Inv C D keys userID (w.put i (.posted retry w.nextTicket pending)) := h.put hp
  refine { hput with posts := ?_ }
  intro p hmem
  rcases Table.mem_upsert.mp hmem with ⟨hmem, -⟩ | rfl
  · exact h.posts p hmem
  · refine ⟨hp.body, fun token htoken => ?_, trivial⟩
    obtain ⟨t, ht, heq⟩ := Option.map_eq_some_iff.mp htoken
    exact ⟨t, h.tokens t ht, heq⟩

theorem Inv.move (h : Inv C D keys userID w) {i : Nat} {m : Move P} (hm : m.Sound C D keys userID w.memory.heap) :
    Inv C D keys userID (w.move i m) := by
  cases m with
  | encrypt job item => exact h.put hm
  | post pending => exact h.post hm false
  | finish => exact h.put trivial

theorem Inv.withParentKey (h : Inv C D keys userID w) {i : Nat} {collectionId : Option Id} {f : Ref → Move P}
    (hf : ∀ r, w.memory.heap.Only r (keys.parent userID collectionId) → (f r).Sound C D keys userID w.memory.heap) :
    Inv C D keys userID (w.withParentKey i collectionId f) := by
  unfold World.withParentKey
  split
  · rename_i r hr
    apply h.move
    apply hf
    cases collectionId with
    | none =>
      obtain ⟨⟨userKey, privateKey⟩, hkeys, heq⟩ := Option.map_eq_some_iff.mp hr
      cases heq
      exact h.userKey userKey (SessionBuffers.getKeys_eq_some hkeys).1
    | some c =>
      obtain ⟨⟨id, r'⟩, hg, rfl⟩ := Option.map_eq_some_iff.mp (Option.some.inj hr)
      obtain ⟨hmem, rfl⟩ := Table.get?_eq_some.mp hg
      exact h.ring _ hmem
  · exact h.put trivial

theorem Inv.call (h : Inv C D keys userID w) (i : Nat) (op : Operation P) : Inv C D keys userID (w.call i op) := by
  cases op with
  | createItem plaintext collectionId => exact h.withParentKey fun r hr => ⟨hr, by simp [Destination.chunk]⟩
  | updateItem id revision collectionId plaintext => exact h.withParentKey fun r hr =>
    ⟨hr, by simp [Destination.chunk]⟩
  | uploadItems items collectionId =>
    unfold World.call
    simp only
    split
    · exact h.put trivial
    · apply h.withParentKey
      intro r hr
      have hjob : Job.Sound C keys userID w.memory.heap ⟨r, collectionId, 0, .upload items [] 0⟩ :=
        ⟨hr, by simp [Destination.chunk]⟩
      exact hjob.loop (by simp)
  | changeMasterPassword input => exact h.put trivial
  | regenerateRecoveryCode input => exact h.put trivial

theorem Inv.hear (h : Inv C D keys userID w) {i : Nat} {pending : Pending P}
    (hp : pending.Sound C D keys userID w.memory.heap) (retry : Bool) (e : Failure) :
    Inv C D keys userID (w.hear i retry pending e) := by
  unfold World.hear
  split
  · rename_i tokens _ ht
    exact h.put ⟨hp, tokens, h.tokens tokens ht, rfl⟩
  · exact h.put trivial

theorem Inv.resume (h : Inv C D keys userID w) (decoys : Decoys) (i : Nat) :
    Inv C D keys userID (w.resume D decoys i) := by
  have hcall := h.calls i
  unfold World.resume
  split
  · exact h.put trivial
  · split
    · rename_i userKey _ _ hkeys
      exact h.put (h.userKey userKey (SessionBuffers.getKeys_eq_some hkeys).1)
    · exact h.put trivial
  · rename_i job entry hi
    rw [hi] at hcall
    exact h.move (hcall.1.encrypted hcall.2)
  · rename_i pending hi
    rw [hi] at hcall
    exact h.post hcall false
  · rename_i retry ticket pending hi
    rw [hi] at hcall
    have hp : pending.Sound C D keys userID w.memory.heap := hcall
    split
    · exact h.move hp.landed
    · exact h.hear hp retry _
    · exact h
  · rename_i pending tokens hi
    rw [hi] at hcall
    have hput : Inv C D keys userID (w.put i (.resending pending)) := h.put hcall.1
    exact hput.remember (fun r k hr => hr) (fun t ht => by cases ht; exact hcall.2 tokens rfl)
      hput.userKey hput.ring
  · have hput : Inv C D keys userID (w.put i .ended) := h.put trivial
    exact hput.lock
  · rename_i pending hi
    rw [hi] at hcall
    exact h.post hcall true
  · exact h

/-! ## The server moves -/

theorem Standing.Sound.step {server server' : Server} {c : Command} (hs : Server.step server c server')
    {body : Body P} {standing : Standing} (h : standing.Sound userID server body) :
    standing.Sound userID server' body := by
  cases standing with
  | checking user progress =>
    exact ⟨h.1, fun call plaintexts hb => Sealing.cleared_step hs (h.2 call plaintexts hb)⟩
  | verified user sessionID => exact h
  | received => trivial
  | answered answer => trivial

theorem Inv.serve (h : Inv C D keys userID w) {c : Command} {server : Server} (hs : Server.step w.server c server) :
    Inv C D keys userID { w with server } := by
  have hdb : server.db = c.run w.server.db := by
    obtain ⟨-, rfl⟩ := hs
    rfl
  refine { h with issued := Sealing.issued_step hs h.issued, granted := ?_, posts := ?_ }
  · intro t ht
    obtain ⟨hholds, hacc, href⟩ := h.granted t ht
    refine ⟨?_, Sealing.issued_mono hs hacc, Sealing.issued_mono hs href⟩
    show Holds userID server.db t
    rw [hdb]
    -- the command draws nothing the server has drawn before
    exact hholds.after (fun hd => (hs.1.2 _ hd).2 hacc) fun hd => (hs.1.2 _ hd).2 href
  · intro p hp
    obtain ⟨hbody, htoken, hstanding⟩ := h.posts p hp
    exact ⟨hbody, htoken, hstanding.step hs⟩

theorem Inv.grant (h : Inv C D keys userID w) {t : SessionTokens} (ht : Granted userID w.server t) :
    Inv C D keys userID { w with granted := t :: w.granted } where
  tokens t' ht' := List.mem_cons_of_mem _ (h.tokens t' ht')
  userKey := h.userKey
  ring := h.ring
  opened := h.opened
  calls i := (h.calls i).mono (fun _ _ hr => hr) fun _ ht' => List.mem_cons_of_mem _ ht'
  issued := h.issued
  granted t' ht' := by
    rcases List.mem_cons.mp ht' with rfl | ht'
    · exact ht
    · exact h.granted t' ht'
  posts p hp := by
    obtain ⟨hbody, htoken, hstanding⟩ := h.posts p hp
    refine ⟨hbody, fun token hmem => ?_, hstanding⟩
    obtain ⟨t', ht', heq⟩ := htoken token hmem
    exact ⟨t', List.mem_cons_of_mem _ ht', heq⟩
  committed := h.committed

theorem Inv.stand (h : Inv C D keys userID w) {ticket : Nat} {f : Post P → Standing}
    (hf : ∀ p ∈ w.posts, (f p).Sound userID w.server p.body) : Inv C D keys userID (w.serve ticket f) := by
  unfold World.serve
  split
  · rename_i p hg
    have hp : p ∈ w.posts := (Table.get?_eq_some.mp hg).1
    refine { h with posts := ?_ }
    intro q hq
    rcases Table.mem_upsert.mp hq with ⟨hq, -⟩ | rfl
    · exact h.posts q hq
    · exact ⟨(h.posts p hp).body, (h.posts p hp).token, hf p hp⟩
  · exact h

theorem Post.Sound.user {server : Server} {p : Post P} (h : p.Sound C D keys userID server granted)
    (hg : ∀ t ∈ granted, Granted userID server t) {token : String} (ht : p.token = some token) {now : Time}
    {user : User} {session : Store.Session} (ha : requireAuth now token server.db = some (user, session)) :
    user.id = userID := by
  obtain ⟨hs, hu, -⟩ := requireAuth_some ha
  obtain ⟨hmem, hhash, -⟩ := sessionByAccessToken_ok hs
  obtain ⟨t, hgranted, rfl⟩ := h.token token ht
  have howner : session.userID = userID := (hg t hgranted).holds session hmem (Or.inl hhash)
  exact (Table.get?_eq_some.mp hu).2.trans howner

theorem Body.received_sound {server : Server} {body : Body P} {user : User} (hu : user.id = userID)
    (session : Store.Session) : (body.received user session).Sound userID server body := by
  cases body with
  | items call plaintexts =>
    simp only [Body.received]
    split
    · rename_i progress hr
      refine ⟨hu, fun call' plaintexts' hb => ?_⟩
      cases hb
      exact Sealing.cleared_received (r := asRequest userID call plaintexts progress) hr
    · trivial
  | password newPassword req =>
    simp only [Body.received]
    split
    · trivial
    · split
      · trivial
      · split
        · exact hu
        · trivial
  | recovery recoveryCode req =>
    simp only [Body.received]
    split
    · trivial
    · split
      · trivial
      · split
        · exact hu
        · trivial

theorem Inv.authorize (h : Inv C D keys userID w) (now : Time) {p : Post P} (hp : p ∈ w.posts) :
    (p.authorize now w.server.db).Sound userID w.server p.body := by
  unfold Post.authorize
  split
  · trivial
  · trivial
  · rename_i token _ ht
    split
    · trivial
    · rename_i user session ha
      exact Body.received_sound ((h.posts p hp).user h.granted ht ha) session

theorem Inv.advance (h : Inv C D keys userID w) {p : Post P} (hp : p ∈ w.posts) :
    (p.advance w.server.db).Sound userID w.server p.body := by
  have hs := (h.posts p hp).standing
  unfold Post.advance
  split
  · rename_i user progress call plaintexts hst hb
    rw [hst] at hs
    obtain ⟨rfl, hc⟩ := hs
    split
    · rename_i progress' ha
      refine ⟨rfl, fun call' plaintexts' hb' => ?_⟩
      cases hb.symm.trans hb'
      exact Sealing.cleared_advance (r := asRequest _ call plaintexts progress) h.issued (hc call plaintexts hb) ha
    · trivial
  · exact hs

theorem Inv.write (h : Inv C D keys userID w) {ticket : Nat} {now : Time} {ids : List Id} {draw : Draw} {p : Post P}
    (hg : w.posts.get? ticket = some p) {c : Command} (hc : p.command now ids draw = some c)
    (hd : Server.Draws w.server.issued c.draws) (hk : w.keepsKeys (K := K) (.write ticket now ids draw) = true) :
    Inv C D keys userID {
      w.serve ticket fun p => .answered (p.answer now ids draw w.server.db) with
        server := w.server.after c
        committed := p.stores now ids draw w.server.db ++ w.committed } := by
  have hp : p ∈ w.posts := (Table.get?_eq_some.mp hg).1
  simp only [World.keepsKeys, hg, Option.all_some, Bool.and_eq_true] at hk
  have hstores := (h.posts p hp).stores hc hk.1 (by
    intro call plaintexts hb
    simpa [hb] using hk.2)
  have hstand : Inv C D keys userID (w.serve ticket fun p => .answered (p.answer now ids draw w.server.db)) :=
    h.stand fun q _ => trivial
  have hserver : (w.serve ticket fun p => .answered (p.answer now ids draw w.server.db)).server = w.server := by
    unfold World.serve
    rw [hg]
  have hstep : Server.step (w.serve ticket fun p => .answered (p.answer now ids draw w.server.db)).server c
      (w.server.after c) := by
    rw [hserver]
    exact ⟨hd, rfl⟩
  refine { hstand.serve hstep with committed := ?_ }
  intro x hx
  rcases List.mem_append.mp hx with hx | hx
  · exact hstores x hx
  · exact h.committed x hx

end

/-! ## Tokens -/

theorem createSession_granted {now : Time} {id user : Id} {t : SessionTokens} {label : String} {server : Server}
    (hok : (Store.createSession now id t.accessToken t.refreshToken user label server.db).1.isOk = true) :
    Granted user (server.after (.createSession now id t.accessToken t.refreshToken user label)) t := by
  refine ⟨?_, by simp [Server.after, Command.draws], by simp [Server.after, Command.draws]⟩
  show Holds user (Store.createSession now id t.accessToken t.refreshToken user label server.db).2 t
  rcases insert_cases (wrap "insert session")
      (insertSession (newSession now id t.accessToken t.refreshToken user label))
      (newSession now id t.accessToken t.refreshToken user label) server.db with ⟨db', hi, hc⟩ | ⟨e, hc⟩
  · have hc' : Store.createSession now id t.accessToken t.refreshToken user label server.db = (.ok _, db') := hc
    obtain ⟨sessions, hins, hf, -, rfl⟩ := insertSession_ok hi
    rw [hc']
    exact holds_created hins hf
  · have hc' : Store.createSession now id t.accessToken t.refreshToken user label server.db =
        (.error e, server.db) := hc
    rw [hc'] at hok
    cases hok

theorem rotateSession_granted {now : Time} {session : Store.Session} {t₀ t : SessionTokens} {server : Server}
    (h₀ : Holds userID server.db t₀) (hm : (Command.mark server.db
      (.rotateSession now session t₀.refreshToken t.accessToken t.refreshToken)).isSome = true) :
    Granted userID (server.after (.rotateSession now session t₀.refreshToken t.accessToken t.refreshToken)) t := by
  refine ⟨?_, by simp [Server.after, Command.draws], by simp [Server.after, Command.draws]⟩
  show Holds userID (Command.run (.rotateSession now session t₀.refreshToken t.accessToken t.refreshToken)
    server.db) t
  simp only [Command.mark] at hm
  simp only [Command.run]
  rcases rotateSession_cases now session t₀.refreshToken t.accessToken t.refreshToken server.db with
    ⟨s', hx, hr⟩ | ⟨e, he⟩
  · obtain ⟨row, hrow, hhash, -, hf, -, hdb⟩ := rotateSessionTx_ok hx
    have howner : row.userID = userID := h₀ row (Table.get?_eq_some.mp hrow).1 (Or.inr hhash)
    rw [hdb, ← howner]
    exact holds_rotated hf
  · rw [he] at hm
    simp [Except.isOk, Except.toBool] at hm

/-! ## Every run -/

theorem inv_start : Inv C D keys userID (start : World K P) where
  tokens t ht := by cases ht
  userKey r hr := by cases hr
  ring e he := absurd he (Table.mem_empty e)
  opened e he := by cases he
  calls i := trivial
  issued _ hi := absurd hi (Table.mem_empty _)
  granted t ht := by cases ht
  posts _ hp := absurd hp (Table.mem_empty _)
  committed x hx := by cases hx

theorem Inv.refresh {w : World K P} (h : Inv C D keys userID w) {i : Nat} {pending : Pending P}
    {refreshToken : String} (hi : w.calls i = .refreshing pending refreshToken) {now : Time}
    {tokens : SessionTokens} {session : Store.Session} {server : Server}
    (hs : server = w.server.after (.rotateSession now session refreshToken tokens.accessToken tokens.refreshToken))
    (hd : Server.Draws w.server.issued [tokens.accessToken, tokens.refreshToken])
    (hm : (Command.mark w.server.db
      (.rotateSession now session refreshToken tokens.accessToken tokens.refreshToken)).isSome = true) :
    Inv C D keys userID { w.put i (.renewed pending (some tokens)) with
                          server, granted := tokens :: w.granted } := by
  have hcall := h.calls i
  rw [hi] at hcall
  obtain ⟨hp, t₀, ht₀, rfl⟩ := hcall
  have hgranted : Granted userID server tokens := by
    rw [hs]
    exact rotateSession_granted (h.granted t₀ ht₀).holds hm
  have hserved : Inv C D keys userID { w with server } :=
    h.serve (c := .rotateSession now session t₀.refreshToken tokens.accessToken tokens.refreshToken) ⟨hd, hs⟩
  have hgrant : Inv C D keys userID { w with server, granted := tokens :: w.granted } := hserved.grant hgranted
  have hstage : (Stage.renewed pending (some tokens)).Sound C D keys userID w.memory.heap
    (tokens :: w.granted) := by
    refine ⟨hp, fun t ht => ?_⟩
    cases ht
    exact List.mem_cons_self
  exact hgrant.put hstage

section
variable {decoys : Decoys} {zero : K} {w : World K P}

theorem Inv.encrypt (h : Inv C D keys userID w) (i : Nat) (draw : ItemDraw K) :
    Inv C D keys userID (World.next C D decoys zero keys userID w (.encrypt i draw)) := by
  simp only [World.next]
  split
  · rename_i job item hi
    have hjob : job.Sound C keys userID w.memory.heap := by
      have hcall := h.calls i
      rwa [hi] at hcall
    exact h.put ⟨hjob, hjob.entry zero item draw⟩
  · exact h

theorem Inv.rotate (h : Inv C D keys userID w) (i : Nat) (draw : CodeDraw K) :
    Inv C D keys userID (World.next C D decoys zero keys userID w (.rotate i draw)) := by
  simp only [World.next]
  split
  · rename_i change current userKey hi
    have honly : w.memory.heap.Only userKey (keys.user userID) := by
      have hcall := h.calls i
      rwa [hi] at hcall
    split
    · rename_i body hb
      apply h.put
      refine ⟨fun hw => ?_, by simp⟩
      obtain ⟨b, hget⟩ := Option.isSome_iff_exists.mp hw
      have hread : w.memory.read zero userKey = keys.user userID := by
        unfold Memory.read
        rw [hget]
        exact honly.2 b hget
      rw [hread] at hb
      exact Change.body_sealed hb
    · exact h.put trivial
  · exact h

theorem Inv.thrown (h : Inv C D keys userID w) (i : Nat) (e : Failure) :
    Inv C D keys userID (World.next C D decoys zero keys userID w (.thrown i e)) := by
  have hcall := h.calls i
  simp only [World.next]
  split
  · rename_i retry ticket pending hi
    rw [hi] at hcall
    exact h.hear hcall retry e
  · rename_i pending refreshToken hi
    rw [hi] at hcall
    exact h.put ⟨hcall.1, by simp⟩
  · exact h.put trivial
  · exact h

theorem Inv.login (h : Inv C D keys userID w) {now : Time} {id : Id} {tokens : SessionTokens}
    (hd : Server.Draws w.server.issued [id, tokens.accessToken, tokens.refreshToken]) (deviceLabel : String) :
    Inv C D keys userID (World.next C D decoys zero keys userID w (.login now id tokens deviceLabel)) := by
  have hserved := h.serve (c := .createSession now id tokens.accessToken tokens.refreshToken userID deviceLabel)
    ⟨hd, rfl⟩
  simp only [World.next]
  split
  · rename_i hok
    exact hserved.grant (createSession_granted hok)
  · exact hserved

theorem Inv.refreshed (h : Inv C D keys userID w) (i : Nat) {now : Time} {tokens : SessionTokens}
    (hd : Server.Draws w.server.issued [tokens.accessToken, tokens.refreshToken]) :
    Inv C D keys userID (World.next C D decoys zero keys userID w (.refresh i now tokens)) := by
  simp only [World.next]
  split
  · rename_i pending refreshToken hi
    have hp : pending.Sound C D keys userID w.memory.heap := by
      have hcall := h.calls i
      rw [hi] at hcall
      exact hcall.1
    split
    · exact h.put ⟨hp, by simp⟩
    · rename_i session hs
      split
      · rename_i hm
        rw [Bool.and_eq_true] at hm
        exact h.refresh hi rfl hd hm.1
      · have hput : Inv C D keys userID (w.put i (.renewed pending none)) := h.put ⟨hp, by simp⟩
        exact hput.serve (c := .rotateSession now session refreshToken tokens.accessToken tokens.refreshToken)
          ⟨hd, rfl⟩
  · exact h

end

theorem inv_step {decoys : Decoys} {zero : K} {w w' : World K P} {e : Event K P}
    (h : World.step C D decoys zero keys userID w e w') (hk : w.keepsKeys e = true) (hinv : Inv C D keys userID w) :
    Inv C D keys userID w' := by
  obtain ⟨he, rfl⟩ := h
  cases e with
  | lock => exact hinv.lock
  | unlock tokens privateKey => exact hinv.unlock (by simpa [World.enabled] using he) privateKey
  | openCollectionKey id => exact hinv.openCollectionKey id
  | setCollectionKeys next =>
    apply hinv.setCollectionKeys
    simpa [World.enabled] using he
  | call i op => exact hinv.call i op
  | encrypt i draw => exact hinv.encrypt i draw
  | rotate i draw => exact hinv.rotate i draw
  | resume i => exact hinv.resume decoys i
  | thrown i e => exact hinv.thrown i e
  | login now id tokens deviceLabel =>
    apply hinv.login
    simpa [World.enabled] using he
  | refresh i now tokens =>
    simp only [World.enabled, Bool.and_eq_true, decide_eq_true_eq] at he
    exact hinv.refreshed i he.1
  | authorize ticket now => exact hinv.stand fun p hp => hinv.authorize now hp
  | advance ticket => exact hinv.stand fun p hp => hinv.advance hp
  | write ticket now ids draw =>
    simp only [World.next]
    split
    · rename_i p hg
      split
      · rename_i c hc
        have hd : Server.Draws w.server.issued c.draws := by simpa [World.enabled, hg, hc] using he
        exact hinv.write hg hc hd hk
      · exact hinv
    · exact hinv
  | other c =>
    simp only [World.enabled, Bool.and_eq_true, decide_eq_true_eq] at he
    exact hinv.serve ⟨he.2, rfl⟩

/-- **What a commit stores is genuine**, in every run in which no commit stores what was sealed
under a wiped buffer, and no update that names no collection commits on a row that is in one. -/
theorem writes_genuine {decoys : Decoys} {zero : K} {w : World K P} {es : List (Event K P)}
    (hr : Lts.Run (Lts.Guarded (World.step C D decoys zero keys userID) fun w e => w.keepsKeys e = true)
      start es w) :
    ∀ x ∈ w.committed, x.Genuine C D keys userID := by
  have hinv : Inv C D keys userID w :=
    hr.inv (P := Inv C D keys userID) (fun _ _ _ h => inv_step h.1 h.2) inv_start
  exact hinv.committed

/-! Ann's session locks and unlocks in the middle of what she saves. -/

def householdKeys : Sealing.Keys (List Char) where
  user u := 'u' :: u.toList
  collection c := 'c' :: c.toList

def annSalt : List Char := "kdf-salt-16bytes".toList

def annAuthHash : String :=
  symbolicKdf.toBase64 (deriveAuthHash symbolicKdf (symbolicKdf.argon2id "password-1" annSalt defaultKdfParams))

def annEnrolment : EnrollmentInput where
  kdfSalt := symbolicKdf.toBase64 annSalt
  kdfParams := defaultKDFParamsJSON
  authHash := hashAuthHash "salt-1" annAuthHash
  protectedUserKey := "protected-user-key"
  publicKey := "public-key"
  encryptedPrivateKey := "encrypted-private-key"
  recoverySalt := "recovery-salt"
  recoveryProtectedUserKey := "recovery-protected-user-key"
  recoveryKDFParams := defaultKDFParamsJSON
  recoveryAuthHash := hashAuthHash "salt-2" "code-1"

def firstTokens : SessionTokens := ⟨"access-1", "refresh-1"⟩

def secondTokens : SessionTokens := ⟨"access-2", "refresh-2"⟩

def annUnlocks : List (Event (List Char) String) := [
  .other (.createPendingUser 0 "ann" "ann@home" "Ann" "user"),
  .other (.createInvite 0 "invite-1" "link-1" "ann" inviteTTL),
  .other (.completeEnrollment 0 (newInvite 0 "invite-1" "link-1" "ann" inviteTTL) annEnrolment),
  .login 0 "session-1" firstTokens "Web", .unlock firstTokens ['p']]

def annRelocks : List (Event (List Char) String) := [
  .lock, .login 0 "session-2" secondTokens "Web", .unlock secondTokens ['p']]

def itemDraw : ItemDraw (List Char) := ⟨['i'], "nonce-1", "nonce-2"⟩

def auditDraw : Draw := ⟨⟨"audit-1", "", ""⟩, "salt-3", "salt-4"⟩

def uploadCommits : List (Event (List Char) String) := [
  .authorize 0 0, .advance 0, .advance 0, .write 0 0 ["item-1", "item-2"] auditDraw]

def play (es : List (Event (List Char) String)) : World (List Char) String :=
  es.foldl (World.next symbolic symbolicKdf ⟨id, id⟩ "0".toList householdKeys "ann") start

/-- Each lock falls after the key has been read. -/
def keysReadBefore : List (Event (List Char) String) :=
  annUnlocks ++ [.call 0 (.uploadItems ["wifi", "bank"] none), .encrypt 0 itemDraw, .resume 0,
    .encrypt 0 itemDraw] ++
    annRelocks ++ [.resume 0] ++ uploadCommits ++ [
    .call 1 (.changeMasterPassword ⟨"ann@home", "password-1", "password-2"⟩), .resume 1, .resume 1,
    .rotate 1 ⟨[], "new-salt-16bytes".toList, "nonce-3"⟩, .lock, .unlock secondTokens ['p'], .resume 1,
    .authorize 1 0, .write 1 0 [] auditDraw]

theorem writes_genuine_relocked : (play keysReadBefore).committed.length = 2 ∧
    ∀ x ∈ (play keysReadBefore).committed, x.Genuine symbolic symbolicKdf householdKeys "ann" :=
  ⟨by decide +kernel, writes_genuine (Lts.run_guarded_script (by decide +kernel))⟩

/-- The lock falls while the second item's body is encrypted. -/
def relockedUpload : List (Event (List Char) String) :=
  annUnlocks ++ [.call 0 (.uploadItems ["wifi", "bank"] none), .encrypt 0 itemDraw, .resume 0] ++ annRelocks ++
    [.encrypt 0 itemDraw, .resume 0] ++ uploadCommits

def annItem (id : Id) (encrypted : EncryptedItem) (revision : Int) : Item :=
  ⟨id, "ann", none, encrypted.ciphertext, encrypted.wrappedItemKey, revision, 0, 0, none⟩

theorem wiped_key_uploaded :
    ¬ ∀ (K P : Type) (C : Crypto K P) (D : Kdf K) (decoys : Decoys) (zero : K) (keys : Sealing.Keys K) (userID : Id)
      (es : List (Event K P)) (w : World K P), Lts.Run (World.step C D decoys zero keys userID) start es w →
      ∀ x ∈ w.committed, x.Genuine C D keys userID := by
  intro h
  have hr : Lts.Run (World.step symbolic symbolicKdf ⟨id, id⟩ "0".toList householdKeys "ann") start relockedUpload
      (play relockedUpload) := Lts.run_script (by decide +kernel)
  have hx : Write.items [(annItem "item-1" (encryptItem symbolic itemDraw "wifi" "uann".toList) 1, "wifi"),
      (annItem "item-2" (encryptItem symbolic itemDraw "bank" "0".toList) 2, "bank")] ∈
      (play relockedUpload).committed := by decide +kernel
  obtain ⟨hopen, -⟩ := h _ _ _ _ _ _ _ _ _ _ hr _ hx _ (List.mem_cons_of_mem _ List.mem_cons_self)
  have hnone : decryptItem symbolic (encryptItem symbolic itemDraw "bank" "0".toList) "uann".toList = none := by
    decide +kernel
  exact Option.some_ne_none _ (hopen.symm.trans hnone)

end Keyhole.Client.Writes
