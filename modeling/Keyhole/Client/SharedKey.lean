import Keyhole.Client.Sharing

/-!
# One key for a collection

A buffer of a collection's key holds that key until it is wiped. While nothing
is sealed out of a wiped one, all that the server stores and all that a device
opens is the key that was drawn.
-/

namespace Keyhole.Sharing
open Sql Store Crypto
open Client (Keyring Memory SessionTokens)
open Vault (UnlockedKeys)

section
variable (P : Platform) (C : Curve)

/-! ## What is genuine -/

/-- The text of a public key the account has enrolled with. -/
def Listed (s : Secrets) (userID : Id) (publicKey : String) : Prop :=
  ∃ privateKey ∈ s.privateKeys userID, publicKeyText C privateKey = some publicKey

def SealedFor (s : Secrets) (key : Random KEY_BYTES) (userID : Id) (blob : String) : Prop :=
  ∃ privateKey ∈ s.privateKeys userID, ∃ publicKey draw text, C.getPublicKey privateKey.val = some publicKey ∧
    sealToUser P C draw key.val publicKey = .ok text ∧ blob = toWire text

def Handed (s : Secrets) (handed : Id × Id × String) : Prop :=
  ∃ key, s.collectionKey handed.1 = some key ∧ SealedFor P C s key handed.2.1 handed.2.2

def Holds (s : Secrets) (e : Id × Bytes) : Prop := ∃ key, s.collectionKey e.1 = some key ∧ e.2 = key.val

/-- The buffer was given the key of the collection, though it may have been wiped. -/
def Held (s : Secrets) (heap : Heap Bytes) (e : Id × Ref) : Prop :=
  ∃ key, s.collectionKey e.1 = some key ∧ heap.Only e.2 key.val

def Share.Of (s : Secrets) (key : Random KEY_BYTES) : Share → Prop
  | createCollection ticket _ _ => s.drawn[ticket]? = some key
  | addMember collectionID _ _ | fulfilGrant collectionID _ => s.collectionKey collectionID = some key

def WireGenuine (s : Secrets) (wire : List CollectionWithMembership) : Prop :=
  ∀ row ∈ wire, ∃ userID, Handed P C s (row.id, userID, row.sealedCollectionKey)

structure OpeningGenuine (s : Secrets) (opening : Opening) : Prop where
  opened : ∀ key, opening.opened = .ok key → Holds s (opening.collectionID, key)
  rest : WireGenuine P C s opening.rest

def CallGenuine (s : Secrets) (heap : Heap Bytes) : Call → Prop
  | .synced wire => WireGenuine P C s wire
  | .adopting _ next opening => (∀ e ∈ next, Held s heap e) ∧ OpeningGenuine P C s opening
  | .sealing share collectionKey publicKey =>
    Listed C s share.recipient publicKey ∧ ∃ key, share.Of s key ∧ heap.Only collectionKey key.val
  | .posting share collectionKey blob =>
    ∃ key, share.Of s key ∧ heap.Only collectionKey key.val ∧ SealedFor P C s key share.recipient blob
  | .idle | .syncing _ | .done => True

structure DeviceGenuine (s : Secrets) (d : Device) : Prop where
  profiles : ∀ profile ∈ d.profiles, Listed C s profile.1 profile.2
  directory : ∀ entry ∈ d.directory, Listed C s entry.id entry.publicKey
  keys : ∀ e ∈ d.memory.session.collectionKeys, Held s d.memory.heap e
  calls : ∀ n, CallGenuine P C s d.memory.heap (d.calls n)

def RequestGenuine (s : Secrets) : Request → Prop
  | .createCollection ticket _ userID blob => ∃ key, s.drawn[ticket]? = some key ∧ SealedFor P C s key userID blob
  | .addMember collectionID userID blob _ _ => Handed P C s (collectionID, userID, blob)
  | .fulfilGrant collectionID userID blob _ => Handed P C s (collectionID, userID, blob)

structure Genuine (w : World) : Prop where
  issued : ∀ c key, w.collectionKey c = some key → c ∈ w.server.issued
  users : ∀ userID publicKey, Keyed w.server.db.users userID publicKey → Listed C w.toSecrets userID publicKey
  memberships : ∀ m ∈ w.server.db.memberships, Handed P C w.toSecrets m.handed
  devices : ∀ i, DeviceGenuine P C w.toSecrets (w.devices i)
  sent : ∀ request ∈ w.sent, RequestGenuine P C w.toSecrets request
  answered : ∀ a ∈ w.answered, ∃ key, w.drawn[a.ticket]? = some key ∧ w.collectionKey a.id = some key

/-- Nothing that was enrolled with or drawn is forgotten or drawn anew. -/
structure Grows (s s' : Secrets) : Prop where
  privateKeys : ∀ userID, ∀ privateKey ∈ s.privateKeys userID, privateKey ∈ s'.privateKeys userID
  drawn : ∀ (ticket : Nat) key, s.drawn[ticket]? = some key → s'.drawn[ticket]? = some key
  collectionKey : ∀ c key, s.collectionKey c = some key → s'.collectionKey c = some key

end

section
variable {P : Platform} {C : Curve} {s s' : Secrets} {heap heap' : Heap Bytes}

theorem Grows.refl (s : Secrets) : Grows s s := ⟨fun _ _ h => h, fun _ _ h => h, fun _ _ h => h⟩

theorem Grows.trans (a b c : Secrets) (h : Grows a b) (h' : Grows b c) : Grows a c where
  privateKeys userID p hp := h'.privateKeys userID p (h.privateKeys userID p hp)
  drawn ticket key hk := h'.drawn ticket key (h.drawn ticket key hk)
  collectionKey c key hc := h'.collectionKey c key (h.collectionKey c key hc)

section
variable (hg : Grows s s')
include hg

theorem Listed.mono {userID : Id} {publicKey : String} (h : Listed C s userID publicKey) :
    Listed C s' userID publicKey := by
  obtain ⟨privateKey, hp, ht⟩ := h
  exact ⟨privateKey, hg.privateKeys userID _ hp, ht⟩

theorem SealedFor.mono {key : Random KEY_BYTES} {userID : Id} {blob : String}
    (h : SealedFor P C s key userID blob) :
    SealedFor P C s' key userID blob := by
  obtain ⟨privateKey, hp, hblob⟩ := h
  exact ⟨privateKey, hg.privateKeys userID _ hp, hblob⟩

theorem Handed.mono {handed : Id × Id × String} (h : Handed P C s handed) : Handed P C s' handed := by
  obtain ⟨key, hc, hs⟩ := h
  exact ⟨key, hg.collectionKey _ _ hc, hs.mono hg⟩

theorem Holds.mono {e : Id × Bytes} (h : Holds s e) : Holds s' e := by
  obtain ⟨key, hc, he⟩ := h
  exact ⟨key, hg.collectionKey _ _ hc, he⟩

theorem Share.Of.mono {share : Share} {key : Random KEY_BYTES} (h : share.Of s key) : share.Of s' key := by
  cases share with
  | createCollection => exact hg.drawn _ _ h
  | addMember => exact hg.collectionKey _ _ h
  | fulfilGrant => exact hg.collectionKey _ _ h

theorem WireGenuine.mono {wire : List CollectionWithMembership} (h : WireGenuine P C s wire) :
    WireGenuine P C s' wire := by
  intro row hrow
  obtain ⟨userID, hh⟩ := h row hrow
  exact ⟨userID, hh.mono hg⟩

theorem OpeningGenuine.mono {opening : Opening} (h : OpeningGenuine P C s opening) :
    OpeningGenuine P C s' opening where
  opened key hk := (h.opened key hk).mono hg
  rest := h.rest.mono hg

theorem RequestGenuine.mono {request : Request} (h : RequestGenuine P C s request) :
    RequestGenuine P C s' request := by
  cases request with
  | createCollection =>
    obtain ⟨key, hk, hs⟩ := h
    exact ⟨key, hg.drawn _ _ hk, hs.mono hg⟩
  | addMember => exact Handed.mono hg h
  | fulfilGrant => exact Handed.mono hg h

section
variable (hh : heap.Later heap')
include hh

theorem Held.mono {e : Id × Ref} (h : Held s heap e) : Held s' heap' e := by
  obtain ⟨key, hc, ho⟩ := h
  exact ⟨key, hg.collectionKey _ _ hc, hh _ _ ho⟩

theorem CallGenuine.mono {call : Call} (h : CallGenuine P C s heap call) : CallGenuine P C s' heap' call := by
  cases call with
  | idle | syncing | done => trivial
  | synced wire => exact WireGenuine.mono hg h
  | adopting privateKey next opening => exact ⟨fun e he => (h.1 e he).mono hg hh, h.2.mono hg⟩
  | sealing share collectionKey publicKey =>
    obtain ⟨hl, key, hk, ho⟩ := h
    exact ⟨hl.mono hg, key, hk.mono hg, hh _ _ ho⟩
  | posting share collectionKey blob =>
    obtain ⟨key, hk, ho, hs⟩ := h
    exact ⟨key, hk.mono hg, hh _ _ ho, hs.mono hg⟩

end

theorem DeviceGenuine.mono {d : Device} (h : DeviceGenuine P C s d) : DeviceGenuine P C s' d where
  profiles profile hp := (h.profiles profile hp).mono hg
  directory entry he := (h.directory entry he).mono hg
  keys e he := (h.keys e he).mono hg (Heap.Later.refl _)
  calls n := (h.calls n).mono hg (Heap.Later.refl _)

end

theorem genuine_fresh (s : Secrets) : DeviceGenuine P C s .fresh where
  profiles _ h := by cases h
  directory _ h := by cases h
  keys _ h := by cases h
  calls _ := trivial

theorem genuine_init {w : World} (h : w.init) : Genuine P C w := by
  subst h
  exact {
    issued := fun _ _ h => by cases h
    users := fun _ _ ⟨_, hu, _⟩ => by cases hu
    memberships := fun _ hm => by cases hm
    devices := fun _ => genuine_fresh _
    sent := fun _ h => by cases h
    answered := fun _ h => by cases h }

/-! ## What is sealed, opened -/

theorem sealTo_eq_some {draw : SealDraw} {secret : Bytes} {publicKey blob : String}
    (h : sealTo P C draw secret publicKey = some blob) :
    ∃ recipientPublicKey text, fromBase64 (ofWire publicKey) = .ok recipientPublicKey ∧
      sealToUser P C draw secret recipientPublicKey = .ok text ∧ blob = toWire text := by
  unfold sealTo at h
  split at h
  · cases h
  · rename_i recipientPublicKey hkey
    split at h
    · cases h
    · rename_i text htext
      cases h
      exact ⟨recipientPublicKey, text, hkey, htext, rfl⟩

theorem publicKeyText_read {privateKey : Random KEY_BYTES} {publicKey : String}
    (h : publicKeyText C privateKey = some publicKey) :
    ∃ bytes, C.getPublicKey privateKey.val = some bytes ∧ fromBase64 (ofWire publicKey) = .ok bytes := by
  obtain ⟨bytes, hbytes, rfl⟩ := Option.map_eq_some_iff.mp h
  exact ⟨bytes, hbytes, by rw [ofWire_toWire (wellFormed_toBase64 bytes), fromBase64_toBase64]⟩

/-- What is sealed with a listed public key is sealed for the account it is listed under. -/
theorem sealedFor_listed {draw : SealDraw} {key : Random KEY_BYTES} {userID : Id} {publicKey blob : String}
    (hl : Listed C s userID publicKey) (h : sealTo P C draw key.val publicKey = some blob) :
    SealedFor P C s key userID blob := by
  obtain ⟨privateKey, hp, htext⟩ := hl
  obtain ⟨bytes, hbytes, hread⟩ := publicKeyText_read htext
  obtain ⟨bytes', text, hread', hsealed, rfl⟩ := sealTo_eq_some h
  obtain rfl := Except.ok.inj (hread.symm.trans hread')
  exact ⟨privateKey, hp, bytes, draw, text, hbytes, hsealed, rfl⟩

section
variable (hauth : P.Authentic) (hsep : C.Separates)
include hauth hsep

theorem SealedFor.opens {key : Random KEY_BYTES} {userID : Id} {blob : String}
    (h : SealedFor P C s key userID blob) :
    ∃ mine ∈ s.privateKeys userID, ∀ privateKey, openSealed P C (ofWire blob) privateKey =
      if C.getPublicKey privateKey = C.getPublicKey mine.val then .ok key.val else .error .decryption := by
  obtain ⟨mine, hmine, publicKey, draw, text, hpk, hsealed, rfl⟩ := h
  refine ⟨mine, hmine, fun privateKey => ?_⟩
  obtain ⟨text', hsealed', hopens⟩ := openSealed_sealToUser hauth hsep draw key.val hpk
  obtain rfl := Except.ok.inj (hsealed.symm.trans hsealed')
  have hsize : key.val.length = SEALED_SECRET_BYTES := key.property
  rw [ofWire_toWire (wellFormed_sealToUser hpk hsealed), hopens privateKey, hpk]
  simp only [hsize, and_true]

theorem Handed.opened {c userID : Id} {blob : String} {privateKey opened : Bytes}
    (h : Handed P C s (c, userID, blob)) (ho : openSealed P C (ofWire blob) privateKey = .ok opened) :
    Holds s (c, opened) := by
  obtain ⟨key, hc, hs⟩ := h
  obtain ⟨mine, -, hopens⟩ := hs.opens hauth hsep
  rw [hopens privateKey] at ho
  split at ho
  · cases ho
    exact ⟨key, hc, rfl⟩
  · cases ho

/-! ## Step by step -/

theorem adopt_genuine {m : Memory Bytes} {privateKey : Ref}
    (hring : ∀ e ∈ m.session.collectionKeys, Held s m.heap e) {wire : List CollectionWithMembership} :
    ∀ {next : Keyring}, (∀ e ∈ next, Held s m.heap e) → WireGenuine P C s wire →
      (∀ e ∈ (adopt P C m privateKey next wire).1, Held s m.heap e) ∧
        ∀ opening, (adopt P C m privateKey next wire).2 = some opening → OpeningGenuine P C s opening := by
  induction wire with
  | nil =>
    intro next hnext _
    exact ⟨hnext, fun _ h => by cases h⟩
  | cons collection rest ih =>
    intro next hnext hwire
    have hrest : WireGenuine P C s rest := fun row hrow => hwire row (List.mem_cons_of_mem _ hrow)
    unfold adopt
    split
    · rename_i existing hk
      refine ih (fun e he => ?_) hrest
      rcases Table.mem_upsert.mp he with ⟨he, -⟩ | rfl
      · exact hnext e he
      · obtain ⟨e, hg, rfl⟩ := Option.map_eq_some_iff.mp hk
        obtain ⟨hmem, hid⟩ := Table.get?_eq_some.mp hg
        rw [← hid]
        exact hring e hmem
    · refine ⟨hnext, fun opening ho => ?_⟩
      cases ho
      obtain ⟨userID, hh⟩ := hwire collection List.mem_cons_self
      exact ⟨fun key hk => hh.opened hauth hsep hk, hrest⟩

end

namespace DeviceGenuine

variable {d : Device} {n : Nat}

/-- Whatever becomes of the memory, if the buffers keep what they were given. -/
theorem moved (h : DeviceGenuine P C s d) {m : Memory Bytes} (hh : d.memory.heap.Later m.heap)
    (hring : ∀ e ∈ m.session.collectionKeys, Held s m.heap e) : DeviceGenuine P C s { d with memory := m } where
  profiles := h.profiles
  directory := h.directory
  keys := hring
  calls n := (h.calls n).mono (Grows.refl s) hh

theorem user (h : DeviceGenuine P C s d) (user : Option Id) : DeviceGenuine P C s { d with user } := { h with }

theorem call (h : DeviceGenuine P C s d) {call : Call} (hc : CallGenuine P C s d.memory.heap call) :
    DeviceGenuine P C s (d.call n call) := by
  refine { h with calls := fun m => ?_ }
  unfold Device.call
  by_cases hm : m = n
  · simp only [hm, Function.update_self]
    exact hc
  · simp only [Function.update_of_ne hm]
    exact h.calls m

theorem held (h : DeviceGenuine P C s d) {c : Id} {r : Ref} (hk : d.memory.session.getCollectionKey c = some r) :
    Held s d.memory.heap (c, r) := by
  obtain ⟨e, hg, rfl⟩ := Option.map_eq_some_iff.mp hk
  obtain ⟨hmem, rfl⟩ := Table.get?_eq_some.mp hg
  exact h.keys e hmem

theorem unlocked (h : DeviceGenuine P C s d) (userID : Id) (tokens : SessionTokens) (keys : UnlockedKeys Bytes) :
    DeviceGenuine P C s (d.unlock userID tokens keys) := by
  have hlater := (Heap.later_wipe d.memory.heap d.memory.session.buffers).trans
    ((Heap.later_alloc _ keys.userKey).trans (Heap.later_alloc _ keys.privateKey))
  exact (h.moved hlater fun e he => by cases he).user _

theorem locked (h : DeviceGenuine P C s d) : DeviceGenuine P C s d.lock :=
  (h.moved (Heap.later_wipe _ _) fun e he => by cases he).user _

/-- Another keyring, of genuine keys, and the keys it leaves out wiped. -/
theorem install (h : DeviceGenuine P C s d) {next : Keyring} (hnext : ∀ e ∈ next, Held s d.memory.heap e) :
    DeviceGenuine P C s { d with memory := d.memory.setCollectionKeys next } :=
  h.moved (Heap.later_wipe _ _) fun e he => (hnext e he).mono (Grows.refl s) (Heap.later_wipe _ _)

theorem alloc (h : DeviceGenuine P C s d) (key : Bytes) :
    DeviceGenuine P C s { d with memory := { d.memory with heap := d.memory.heap.alloc key } } :=
  h.moved (Heap.later_alloc _ _) fun e he => (h.keys e he).mono (Grows.refl s) (Heap.later_alloc _ _)

theorem wipe (h : DeviceGenuine P C s d) (refs : List Ref) :
    DeviceGenuine P C s { d with memory := { d.memory with heap := d.memory.heap.wipe refs } } :=
  h.moved (Heap.later_wipe _ _) fun e he => (h.keys e he).mono (Grows.refl s) (Heap.later_wipe _ _)

theorem sync (h : DeviceGenuine P C s d) : DeviceGenuine P C s (d.sync n) := by
  unfold Device.sync
  split <;> exact h.call trivial

theorem thrown (h : DeviceGenuine P C s d) : DeviceGenuine P C s (d.thrown n) := by
  unfold Device.thrown
  split
  any_goals exact h.call trivial
  any_goals exact h
  all_goals exact (h.wipe _).call trivial

theorem share (h : DeviceGenuine P C s d) {collectionID : Id} {recipient : DirectoryEntry} {share : Share}
    (hto : share.recipient = recipient.id) (hof : ∀ key, s.collectionKey collectionID = some key → share.Of s key)
    (hr : recipient ∈ d.directory) : DeviceGenuine P C s (d.share n collectionID recipient share) := by
  unfold Device.share
  split
  · rename_i r hk
    obtain ⟨e, hg, rfl⟩ := Option.map_eq_some_iff.mp hk
    obtain ⟨hmem, hid⟩ := Table.get?_eq_some.mp hg
    obtain ⟨key, hc, ho⟩ := h.keys e hmem
    exact h.call ⟨hto ▸ h.directory recipient hr, key, hof key (hid ▸ hc), ho⟩
  · exact h.call trivial

theorem seals (h : DeviceGenuine P C s d) {draw : SealDraw}
    (hwhole : ∀ share r publicKey, d.calls n = .sealing share r publicKey → (d.memory.heap.get r).isSome = true) :
    DeviceGenuine P C s (d.seals P C n draw) := by
  unfold Device.seals
  split
  · rename_i share r publicKey hcall
    obtain ⟨key, hget⟩ := Option.isSome_iff_exists.mp (hwhole share r publicKey hcall)
    have hgen := h.calls n
    rw [hcall] at hgen
    obtain ⟨hl, genuine, hof, ho⟩ := hgen
    obtain rfl := ho.2 key hget
    split
    · rename_i blob hblob
      have hread : d.memory.read zeros r = genuine.val := by
        unfold Memory.read
        rw [hget]
        rfl
      rw [hread] at hblob
      exact h.call ⟨genuine, hof, ho, sealedFor_listed hl hblob⟩
    · exact h.thrown
  · exact h

theorem created (h : DeviceGenuine P C s d) {answer : Created}
    (ha : ∃ key, s.drawn[answer.ticket]? = some key ∧ s.collectionKey answer.id = some key) :
    DeviceGenuine P C s (d.created n answer) := by
  unfold Device.created
  split
  · rename_i ticket name userID r blob hcall
    split
    · rename_i hticket
      have hgen := h.calls n
      rw [hcall] at hgen
      obtain ⟨key, hof, ho, -⟩ := hgen
      obtain ⟨key', hdrawn, hkey⟩ := ha
      obtain rfl : key = key' := by
        rw [← hticket] at hdrawn
        exact Option.some.inj (hof.symm.trans hdrawn)
      refine (h.install fun e he => ?_).call trivial
      rcases Table.mem_upsert.mp he with ⟨he, -⟩ | rfl
      · exact h.keys e he
      · exact ⟨key, hkey, ho⟩
    · exact h
  · exact h

section
variable (hauth : P.Authentic) (hsep : C.Separates)
include hauth hsep

theorem adoptFrom (h : DeviceGenuine P C s d) {privateKey : Ref} {next : Keyring}
    {wire : List CollectionWithMembership} (hnext : ∀ e ∈ next, Held s d.memory.heap e)
    (hwire : WireGenuine P C s wire) :
    DeviceGenuine P C s (d.adoptFrom P C n privateKey next wire) := by
  obtain ⟨hkeys, hopening⟩ := adopt_genuine hauth hsep h.keys hnext hwire
  unfold Device.adoptFrom
  split
  · rename_i next' opening hadopt
    rw [hadopt] at hkeys hopening
    exact h.call ⟨hkeys, hopening opening rfl⟩
  · rename_i next' hadopt
    rw [hadopt] at hkeys
    exact (h.install hkeys).call trivial

theorem adopts (h : DeviceGenuine P C s d) : DeviceGenuine P C s (d.adopts P C n) := by
  unfold Device.adopts
  split
  · rename_i wire hcall
    have hgen := h.calls n
    rw [hcall] at hgen
    split
    · exact h.adoptFrom hauth hsep (fun e he => by cases he) hgen
    · exact h.call trivial
  · exact h

theorem opened (h : DeviceGenuine P C s d) : DeviceGenuine P C s (d.opened P C n) := by
  unfold Device.opened
  split
  · rename_i privateKey next collectionID key rest hcall
    have hgen := h.calls n
    rw [hcall] at hgen
    obtain ⟨hnext, hopening⟩ := hgen
    refine (h.alloc key).adoptFrom hauth hsep (fun e he => ?_) hopening.rest
    rcases Table.mem_upsert.mp he with ⟨he, -⟩ | rfl
    · exact (hnext e he).mono (Grows.refl s) (Heap.later_alloc _ _)
    · obtain ⟨genuine, hc, rfl⟩ := hopening.opened key rfl
      exact ⟨genuine, hc, Heap.only_alloc _ _⟩
  · rename_i privateKey next collectionID e rest hcall
    have hgen := h.calls n
    rw [hcall] at hgen
    exact h.adoptFrom hauth hsep hgen.1 hgen.2.rest
  · exact h

end

end DeviceGenuine

section
variable {w w' : World}

theorem Genuine.onDevice (h : Genuine P C w) (i : Nat) {f : Device → Device}
    (hf : DeviceGenuine P C w.toSecrets (w.devices i) → DeviceGenuine P C w.toSecrets (f (w.devices i))) :
    Genuine P C (w.onDevice i f) := by
  refine { h with devices := fun j => ?_ }
  unfold World.onDevice
  by_cases hj : j = i
  · simp only [hj, Function.update_self]
    exact hf (h.devices i)
  · simp only [Function.update_of_ne hj]
    exact h.devices j

/-- The server runs a command, and of what it then holds everything new is genuine. -/
theorem Genuine.served (h : Genuine P C w) (hg : Grows w.toSecrets w'.toSecrets) {c : Command}
    (hserver : w'.server = w.server.after c)
    (hissued : ∀ id key, w'.collectionKey id = some key → w.collectionKey id = some key ∨ id ∈ c.draws)
    (husers : ∀ userID publicKey, Keyed (c.run w.server.db).users userID publicKey →
      Keyed w.server.db.users userID publicKey ∨ Listed C w'.toSecrets userID publicKey)
    (hmembers : ∀ m ∈ (c.run w.server.db).memberships, m ∈ w.server.db.memberships ∨
      Handed P C w'.toSecrets m.handed)
    (hdevices : w'.devices = w.devices) (hsent : w'.sent = w.sent)
    (hanswered : ∀ a ∈ w'.answered, a ∈ w.answered ∨ ∃ key, w'.drawn[a.ticket]? = some key ∧
      w'.collectionKey a.id = some key) :
    Genuine P C w' where
  issued id key hk := by
    rw [hserver]
    rcases hissued id key hk with hk | hd
    · exact List.mem_append_right _ (h.issued id key hk)
    · exact List.mem_append_left _ hd
  users userID publicKey hk := by
    rw [hserver] at hk
    rcases husers userID publicKey hk with hk | hl
    · exact (h.users userID publicKey hk).mono hg
    · exact hl
  memberships m hm := by
    rw [hserver] at hm
    rcases hmembers m hm with hm | hn
    · exact (h.memberships m hm).mono hg
    · exact hn
  devices i := by
    rw [hdevices]
    exact (h.devices i).mono hg
  sent r hr := by
    rw [hsent] at hr
    exact (h.sent r hr).mono hg
  answered a ha := by
    rcases hanswered a ha with ha | hn
    · obtain ⟨key, hk, hc⟩ := h.answered a ha
      exact ⟨key, hg.drawn _ _ hk, hg.collectionKey _ _ hc⟩
    · exact hn

/-! What each request brings the server, and what is known of it there. -/

theorem keyed_after {c : Command} {db : Db} {userID : Id} {publicKey : String}
    (hc : ∀ now invite inp, c ≠ .completeEnrollment now invite inp) (h : Keyed (c.run db).users userID publicKey) :
    Keyed db.users userID publicKey := by
  obtain ⟨user, hu, rfl, hp⟩ := h
  rcases publicKey_after c db hu hp with hk | ⟨now, invite, inp, he, -⟩
  · exact hk
  · exact absurd he (hc now invite inp)

theorem Genuine.other (h : Genuine P C w) {c : Command} (hc : c.hands = none) (he : isEnrollment c = false) :
    Genuine P C { w with server := w.server.after c } := by
  refine h.served (Grows.refl _) rfl (fun _ _ hk => .inl hk) ?_ ?_ rfl rfl fun _ ha => .inl ha
  · intro userID publicKey hk
    refine .inl (keyed_after (fun now invite inp hc => ?_) hk)
    rw [hc] at he
    cases he
  · intro m hm
    rcases membership_after c w.server.db m hm with hm | hn
    · exact .inl hm
    · rw [hc] at hn
      cases hn

theorem Genuine.enrolled (h : Genuine P C w) {now : Time} {invite : Invite} {inp : EnrollmentInput}
    {privateKey : Random KEY_BYTES} (hp : publicKeyText C privateKey = some inp.publicKey) :
    Genuine P C (next P C w (.enroll now invite inp privateKey)) := by
  have hmembers : ∀ (s : Secrets),
    ∀ m ∈ ((Command.completeEnrollment now invite inp).run w.server.db).memberships,
      m ∈ w.server.db.memberships ∨ Handed P C s m.handed := by
    intro s m hm
    rcases membership_after _ w.server.db m hm with hm | hn
    · exact .inl hm
    · cases hn
  unfold next
  simp only
  by_cases hmark : ((Command.completeEnrollment now invite inp).mark w.server.db).isSome = true
  · rw [if_pos hmark]
    refine h.served ⟨?_, fun _ _ hk => hk, fun _ _ hk => hk⟩ rfl (fun _ _ hk => .inl hk) ?_ (hmembers _)
      rfl rfl fun _ ha => .inl ha
    · intro userID p hin
      by_cases hu : userID = invite.userID
      · subst hu
        simp only [Function.update_self]
        exact List.mem_cons_of_mem _ hin
      · simp only [Function.update_of_ne hu]
        exact hin
    · intro userID publicKey hk
      obtain ⟨user, hu, rfl, hkey⟩ := hk
      rcases publicKey_after _ w.server.db hu hkey with hk | ⟨_, _, _, he, hid, rfl, -⟩
      · exact .inl hk
      · cases he
        refine .inr ⟨privateKey, ?_, hp⟩
        rw [hid]
        simp only [Function.update_self, List.mem_cons_self]
  · rw [if_neg hmark]
    refine h.served (Grows.refl _) rfl (fun _ _ hk => .inl hk) ?_ (hmembers _) rfl rfl fun _ ha => .inl ha
    intro userID publicKey hk
    obtain ⟨user, hu, rfl, hkey⟩ := hk
    rcases publicKey_after _ w.server.db hu hkey with hk | ⟨_, _, _, he, -, -, hm⟩
    · exact .inl hk
    · cases he
      rw [hm] at hmark
      exact absurd rfl hmark

theorem Genuine.unissued (h : Genuine P C w) {id : Id} (hid : id ∉ w.server.issued) :
    w.collectionKey id = none := by
  cases hk : w.collectionKey id with
  | none => rfl
  | some key => exact absurd (h.issued id key hk) hid

theorem grows_creates (ticket : Nat) {id : Id} (hnew : w.collectionKey id = none) :
    Grows w.toSecrets (w.creates ticket id).toSecrets := by
  refine ⟨fun _ _ hp => hp, fun _ _ hk => hk, fun c key hk => ?_⟩
  unfold World.creates
  have hne : c ≠ id := fun he => by
    rw [he, hnew] at hk
    cases hk
  simp only [Function.update_of_ne hne]
  exact hk

section
variable {request : Request} {now : Time} {id auditID : Id}

theorem keyed_delivered {db : Db} {userID : Id} {publicKey : String}
    (h : Keyed ((request.command now id auditID).run db).users userID publicKey) :
    Keyed db.users userID publicKey := by
  refine keyed_after (fun _ _ _ he => ?_) h
  cases request <;> cases he

/-- A membership the server then has, when what the request hands in is genuine. -/
theorem handed_delivered {db : Db} {s : Secrets} {handed : Id × Id × String}
    (hh : (request.command now id auditID).hands = some handed) (hgen : Handed P C s handed) :
    ∀ m ∈ ((request.command now id auditID).run db).memberships, m ∈ db.memberships ∨
      Handed P C s m.handed := by
  intro m hm
  rcases membership_after _ db m hm with hm | hn
  · exact .inl hm
  · rw [hh] at hn
    exact .inr (Option.some.inj hn ▸ hgen)

/-- The server as a delivered request leaves it. -/
def World.serves (w : World) (request : Request) (now : Time) (id auditID : Id) : World :=
  { w with server := w.server.after (request.command now id auditID) }

theorem Genuine.serves (h : Genuine P C w)
    (hm : ∀ m ∈ ((request.command now id auditID).run w.server.db).memberships, m ∈ w.server.db.memberships ∨
      Handed P C w.toSecrets m.handed) :
    Genuine P C (w.serves request now id auditID) :=
  h.served (Grows.refl _) rfl (fun _ _ hk => .inl hk) (fun _ _ hk => .inl (keyed_delivered hk)) hm rfl rfl
    fun _ ha => .inl ha

theorem Genuine.creates (h : Genuine P C w) {ticket : Nat} {key : Random KEY_BYTES} {userID : Id} {blob : String}
    (hid : id ∉ w.server.issued) (hdraw : id ∈ (request.command now id auditID).draws)
    (hh : (request.command now id auditID).hands = some (id, userID, blob)) (hk : w.drawn[ticket]? = some key)
    (hs : SealedFor P C w.toSecrets key userID blob) :
    Genuine P C ((w.serves request now id auditID).creates ticket id) := by
  have hg : Grows w.toSecrets ((w.serves request now id auditID).creates ticket id).toSecrets :=
    grows_creates (w := w.serves request now id auditID) ticket (h.unissued hid)
  have hset : ((w.serves request now id auditID).creates ticket id).collectionKey id = some key := by
    unfold World.creates
    simp only [Function.update_self]
    exact hk
  refine h.served hg rfl ?_ (fun _ _ hk => .inl (keyed_delivered hk))
    (handed_delivered hh ⟨key, hset, SealedFor.mono hg hs⟩) rfl rfl ?_
  · intro c key' hk
    by_cases hc : c = id
    · subst hc
      exact .inr hdraw
    · unfold World.creates at hk
      simp only [Function.update_of_ne hc] at hk
      exact .inl hk
  · intro a ha
    rcases List.mem_cons.mp ha with rfl | ha
    · exact .inr ⟨key, hk, hset⟩
    · exact .inl ha

theorem Genuine.delivered (h : Genuine P C w) (hr : request ∈ w.sent)
    (hd : Server.Draws w.server.issued (request.command now id auditID).draws) :
    Genuine P C (next P C w (.deliver request now id auditID)) := by
  have hreq := h.sent request hr
  cases request with
  | addMember collectionID userID blob role actorID =>
    change Genuine P C (w.serves (.addMember collectionID userID blob role actorID) now id auditID)
    exact h.serves (handed_delivered rfl hreq)
  | fulfilGrant collectionID userID blob actorID =>
    change Genuine P C (w.serves (.fulfilGrant collectionID userID blob actorID) now id auditID)
    exact h.serves (handed_delivered rfl hreq)
  | createCollection ticket name userID blob =>
    change Genuine P C (if (Store.createCollection now id auditID name userID blob w.server.db).1.isOk = true then
      (w.serves (.createCollection ticket name userID blob) now id auditID).creates ticket id
      else w.serves (.createCollection ticket name userID blob) now id auditID)
    by_cases hok : (Store.createCollection now id auditID name userID blob w.server.db).1.isOk = true
    · rw [if_pos hok]
      obtain ⟨key, hk, hs⟩ := hreq
      exact h.creates (hd.2 id List.mem_cons_self).2 List.mem_cons_self rfl hk hs
    · rw [if_neg hok]
      apply h.serves
      intro m hm
      left
      have hsame : (Request.command now id auditID (.createCollection ticket name userID blob)).run w.server.db =
          w.server.db := by
        simp only [Request.command, Command.run]
        exact createCollection_failed hok
      rwa [hsame] at hm

end

theorem Genuine.draws (h : Genuine P C w) (i n : Nat) (name : String) (collectionKey : Random KEY_BYTES)
    {profile : Id × String} (hp : profile ∈ (w.devices i).profiles) :
    Genuine P C (next P C w (.createCollection i n name collectionKey profile)) := by
  have hg : Grows w.toSecrets { w.toSecrets with drawn := w.drawn ++ [collectionKey] } := by
    refine ⟨fun _ _ hp => hp, fun ticket key hk => ?_, fun _ _ hk => hk⟩
    rw [List.getElem?_append_left (List.getElem?_eq_some_iff.mp hk).1]
    exact hk
  have hdevice := ((h.devices i).mono hg).alloc collectionKey.val
  refine {
    issued := h.issued
    users := fun userID publicKey hk => (h.users userID publicKey hk).mono hg
    memberships := fun m hm => (h.memberships m hm).mono hg
    devices := fun j => ?_
    sent := fun r hr => (h.sent r hr).mono hg
    answered := fun a ha => ?_ }
  · unfold next World.onDevice
    by_cases hj : j = i
    · simp only [hj, Function.update_self]
      refine hdevice.call ⟨hdevice.profiles profile hp, collectionKey, ?_, Heap.only_alloc _ _⟩
      exact List.getElem?_concat_length
    · simp only [Function.update_of_ne hj]
      exact (h.devices j).mono hg
  · obtain ⟨key, hk, hc⟩ := h.answered a ha
    exact ⟨key, hg.drawn _ _ hk, hc⟩

theorem Genuine.posted (h : Genuine P C w) {i n : Nat} (hwhole : w.whole (.post i n) = true) :
    Genuine P C (next P C w (.post i n)) := by
  refine { h with sent := fun request hr => ?_ }
  rcases List.mem_append.mp hr with hr | hr
  · have hr := Option.mem_toList.mp hr
    unfold Device.posts at hr
    split at hr
    · rename_i userID share r blob huser hcall
      cases hr
      have hgen := (h.devices i).calls n
      rw [hcall] at hgen
      obtain ⟨key, hof, -, hs⟩ := hgen
      cases share with
      | createCollection ticket name recipient =>
        simp only [World.whole, hcall, huser, decide_eq_true_eq, Option.some.injEq] at hwhole
        subst hwhole
        exact ⟨key, hof, hs⟩
      | addMember collectionID recipient role => exact ⟨key, hof, hs⟩
      | fulfilGrant collectionID recipient => exact ⟨key, hof, hs⟩
    · cases hr
  · exact h.sent request hr

theorem genuine_step (hauth : P.Authentic) (hsep : C.Separates) {e : Event}
    (hs : Lts.Guarded (step P C) (fun w e => w.whole e = true) w e w') (h : Genuine P C w) : Genuine P C w' := by
  obtain ⟨⟨he, rfl⟩, hwhole⟩ := hs
  cases e with
  | other c => exact h.other he.1 he.2.1
  | enroll now invite inp privateKey => exact h.enrolled he
  | unlock i userID tokens keys =>
    simp only [next]
    apply h.onDevice
    exact fun hd => hd.unlocked userID tokens keys
  | lock i =>
    simp only [next]
    apply h.onDevice
    exact fun hd => hd.locked
  | loadAccount i userID publicKey =>
    simp only [next]
    apply h.onDevice
    exact fun hd => { hd with profiles := List.forall_mem_cons.mpr ⟨h.users _ _ he.2, hd.profiles⟩ }
  | loadDirectory i =>
    simp only [next]
    apply h.onDevice
    refine fun hd => { hd with directory := fun entry hentry => ?_ }
    rcases List.mem_append.mp hentry with hentry | hentry
    · exact h.users _ _ (keyed_of_directory (List.mem_filter.mp hentry).1)
    · exact hd.directory entry hentry
  | sync i n =>
    simp only [next]
    apply h.onDevice
    exact fun hd => hd.sync
  | handleSync i n =>
    simp only [next]
    apply h.onDevice
    intro hd
    split
    · rename_i userID _
      refine hd.call fun row hrow => ⟨userID, ?_⟩
      obtain ⟨m, hm, hu, hc, hkey⟩ := mem_collectionsForUser hrow
      have hh := h.memberships m hm
      unfold Membership.handed at hh
      rwa [hu, hc, hkey] at hh
    · exact hd
  | adopt i n =>
    simp only [next]
    apply h.onDevice
    exact fun hd => hd.adopts hauth hsep
  | opened i n =>
    simp only [next]
    apply h.onDevice
    exact fun hd => hd.opened hauth hsep
  | createCollection i n name collectionKey profile => exact h.draws i n name collectionKey he.2
  | addMember i n collectionID recipient role =>
    simp only [next]
    apply h.onDevice
    exact fun hd => hd.share rfl (fun _ hk => hk) he.2
  | fulfilGrant i n collectionID recipient =>
    simp only [next]
    apply h.onDevice
    exact fun hd => hd.share rfl (fun _ hk => hk) he.2
  | encrypt i n draw =>
    simp only [next]
    apply h.onDevice
    refine fun hd => hd.seals fun share r publicKey hcall => ?_
    simpa only [World.whole, hcall] using hwhole
  | post i n => exact h.posted hwhole
  | created i n answer =>
    simp only [next]
    apply h.onDevice
    exact fun hd => hd.created (h.answered answer he)
  | thrown i n =>
    simp only [next]
    apply h.onDevice
    exact fun hd => hd.thrown
  | deliver request now id auditID => exact h.delivered he.1 he.2

/-- The key of a collection is drawn once: an id the server draws is new. -/
theorem grows_step {e : Event} (hs : step P C w e w') (h : Genuine P C w) : Grows w.toSecrets w'.toSecrets := by
  obtain ⟨he, rfl⟩ := hs
  cases e with
  | enroll now invite inp privateKey =>
    unfold next
    simp only
    split
    · refine ⟨fun userID p hp => ?_, fun _ _ hk => hk, fun _ _ hk => hk⟩
      by_cases hu : userID = invite.userID
      · subst hu
        simp only [Function.update_self]
        exact List.mem_cons_of_mem _ hp
      · simp only [Function.update_of_ne hu]
        exact hp
    · exact Grows.refl _
  | createCollection i n name collectionKey profile =>
    refine ⟨fun _ _ hp => hp, fun ticket key hk => ?_, fun _ _ hk => hk⟩
    unfold next
    simp only
    rw [List.getElem?_append_left (List.getElem?_eq_some_iff.mp hk).1]
    exact hk
  | deliver request now id auditID =>
    unfold next
    cases request with
    | createCollection ticket name userID sealedCollectionKey =>
      simp only
      split
      · exact grows_creates (w := { w with
          server := w.server.after (.createCollection now id auditID name userID sealedCollectionKey) }) ticket
          (h.unissued (he.2.2 id List.mem_cons_self).2)
      · exact Grows.refl _
    | addMember | fulfilGrant => exact Grows.refl _
  | _ => exact Grows.refl _

/-- The runs in which everything that is sealed is whole. -/
abbrev Run (P : Platform) (C : Curve) : World → List Event → World → Prop :=
  Lts.Run (Lts.Guarded (step P C) fun w e => w.whole e = true)

abbrev Reachable (P : Platform) (C : Curve) : World → Prop :=
  Lts.Reachable World.init (Lts.Guarded (step P C) fun w e => w.whole e = true)

section
variable (hauth : P.Authentic) (hsep : C.Separates)
include hauth hsep

theorem genuine_run {es : List Event} (hr : Run P C w es w') (h : Genuine P C w) :
    Genuine P C w' ∧ Grows w.toSecrets w'.toSecrets := by
  induction hr with
  | nil w => exact ⟨h, Grows.refl _⟩
  | cons hs _ ih =>
    obtain ⟨h', hg⟩ := ih (genuine_step hauth hsep hs h)
    exact ⟨h', (grows_step hs.1 h).trans _ _ _ hg⟩

theorem genuine_reachable (h : Reachable P C w) : Genuine P C w := by
  obtain ⟨w₀, es, h0, hr⟩ := h
  exact (genuine_run hauth hsep hr (genuine_init h0)).1

/-- What the server holds for a member opens to the collection's key, under the private keys of one public key the
member has enrolled with and under no other. -/
theorem membership_opens (h : Reachable P C w) : ∀ m ∈ w.server.db.memberships,
    ∃ key, w.collectionKey m.collectionID = some key ∧ ∃ mine ∈ w.privateKeys m.userID, ∀ privateKey,
      openSealed P C (ofWire m.sealedCollectionKey) privateKey =
        if C.getPublicKey privateKey = C.getPublicKey mine.val then .ok key.val else .error .decryption := by
  intro m hm
  obtain ⟨key, hc, hs⟩ := (genuine_reachable hauth hsep h).memberships m hm
  exact ⟨key, hc, hs.opens hauth hsep⟩

/-- Whoever holds a collection's key at some time, what anybody is handed for it later is the same key, and so is
what anybody's session holds for it in a buffer that has not been wiped. -/
theorem shared_key (h : Reachable P C w) {es : List Event} (hr : Run P C w es w') {i : Nat} {c : Id} {r : Ref}
    {k : Bytes} (hheld : (w.devices i).memory.session.getCollectionKey c = some r)
    (hget : (w.devices i).memory.heap.get r = some k) :
    (∀ m ∈ w'.server.db.memberships, m.collectionID = c → ∀ privateKey opened,
        openSealed P C (ofWire m.sealedCollectionKey) privateKey = .ok opened → opened = k) ∧
      ∀ j r' l, (w'.devices j).memory.session.getCollectionKey c = some r' →
        (w'.devices j).memory.heap.get r' = some l → l = k ∧
          ∀ draw item, (encryptItem P draw item k).bind (decryptItem P · l) = .ok item := by
  have hw := genuine_reachable hauth hsep h
  obtain ⟨hw', hg⟩ := genuine_run hauth hsep hr hw
  obtain ⟨key, hkey, ho⟩ := (hw.devices i).held hheld
  obtain rfl := ho.2 k hget
  constructor
  · rintro m hm rfl privateKey opened hopened
    obtain ⟨key', hkey', rfl⟩ := (hw'.memberships m hm).opened hauth hsep hopened
    rw [Option.some.inj ((hg.collectionKey _ key hkey).symm.trans hkey')]
  · intro j r' l hheld' hget'
    obtain ⟨key', hkey', ho'⟩ := (hw'.devices j).held hheld'
    obtain rfl := ho'.2 l hget'
    obtain rfl := Option.some.inj ((hg.collectionKey c key hkey).symm.trans hkey')
    exact ⟨rfl, fun draw item => decryptItem_encryptItem P draw item key.property⟩

end

end

end

/-! Ann makes a collection and adds Bob, who unlocks after that. -/

def publicText (privateKey : Random KEY_BYTES) : String := toWire (toBase64 privateKey.val)

def annSecret : Random KEY_BYTES := evenKey 1

def bobSecret : Random KEY_BYTES := evenKey 2

def homeSecret : Random KEY_BYTES := evenKey 5

def sealDraw (b : UInt8) : SealDraw := ⟨evenKey b, zeroNonce⟩

def sealedTo (secret : Bytes) (draw : SealDraw) (privateKey : Random KEY_BYTES) : String :=
  (sealTo locked plainCurve draw secret (publicText privateKey)).getD ""

def enrollment (userID invite token : String) (privateKey : Random KEY_BYTES) : List Event := [
  .other (.createPendingUser 0 userID (userID ++ "@home") userID "user"),
  .other (.createInvite 0 invite token userID inviteTTL),
  .enroll 0 (newInvite 0 invite token userID inviteTTL) {
    kdfSalt := "salt", kdfParams := defaultKDFParamsJSON, authHash := .argon2id "s" "password"
    protectedUserKey := "key-under-password", publicKey := publicText privateKey, encryptedPrivateKey := "private"
    recoverySalt := "recovery-salt", recoveryProtectedUserKey := "key-under-code"
    recoveryKDFParams := defaultKDFParamsJSON, recoveryAuthHash := .argon2id "s" "code" } privateKey]

def unlocking (i : Nat) (userID : Id) (privateKey : Random KEY_BYTES) : Event :=
  .unlock i userID ⟨"access-" ++ userID, "refresh-" ++ userID⟩ ⟨zeroKey.val, privateKey.val⟩

def founding : List Event :=
  enrollment "ann" "invite-a" "token-a" annSecret ++ enrollment "bob" "invite-b" "token-b" bobSecret ++ [
  unlocking 0 "ann" annSecret,
  .loadAccount 0 "ann" (publicText annSecret),
  .loadDirectory 0,
  .createCollection 0 0 "Home" homeSecret ("ann", publicText annSecret),
  .encrypt 0 0 (sealDraw 8),
  .post 0 0,
  .deliver (.createCollection 0 "Home" "ann" (sealedTo homeSecret.val (sealDraw 8) annSecret)) 0 "home" "audit-1",
  .created 0 0 ⟨0, "home"⟩]

def bobEntry : DirectoryEntry := ⟨"bob", "bob", "bob@home", publicText bobSecret⟩

def adding : Event := .addMember 0 1 "home" bobEntry "member"

def handing (secret : Bytes) : List Event := [
  .encrypt 0 1 (sealDraw 9),
  .post 0 1,
  .deliver (.addMember "home" "bob" (sealedTo secret (sealDraw 9) bobSecret) "member" "ann") 0 "" "audit-2"]

def joining : List Event := adding :: handing homeSecret.val ++ [
  .lock 0,
  unlocking 1 "bob" bobSecret,
  .sync 1 0,
  .handleSync 1 0,
  .adopt 1 0,
  .opened 1 0]

def after (w : World) (es : List Event) : World := es.foldl (next locked plainCurve) w

def founded : World := after .start founding

def joined : World := after founded joining

theorem founding_run : Run locked plainCurve .start founding founded := Lts.run_guarded_script (by decide +kernel)

theorem joining_run : Run locked plainCurve founded joining joined := Lts.run_guarded_script (by decide +kernel)

theorem founded_reachable : Reachable locked plainCurve founded := ⟨.start, founding, rfl, founding_run⟩

/-- What a device's session holds for a collection. -/
def Device.holds (d : Device) (c : Id) : Option Bytes :=
  (d.memory.session.getCollectionKey c).bind d.memory.heap.get

theorem both_hold : (founded.devices 0).holds "home" = some homeSecret.val ∧
    (joined.devices 1).holds "home" = some homeSecret.val ∧
    (joined.server.db.memberships.get? ("home", "bob")).isSome = true := by
  decide +kernel

theorem membership_opens_home : ∃ m ∈ joined.server.db.memberships, m.key = ("home", "bob") ∧
    ∃ key, joined.collectionKey m.collectionID = some key ∧
      ∃ mine ∈ joined.privateKeys m.userID, ∀ privateKey,
      openSealed locked plainCurve (ofWire m.sealedCollectionKey) privateKey =
        if plainCurve.getPublicKey privateKey = plainCurve.getPublicKey mine.val then .ok key.val
        else .error .decryption := by
  obtain ⟨m, hm, hk⟩ := Table.get?_isSome.mp both_hold.2.2
  have hreach := founded_reachable.run joining_run
  exact ⟨m, hm, hk, membership_opens locked_authentic plainCurve_separates hreach m hm⟩

theorem shared_key_home : ∃ r l, (joined.devices 1).memory.session.getCollectionKey "home" = some r ∧
    (joined.devices 1).memory.heap.get r = some l ∧ l = homeSecret.val ∧
    ∀ m ∈ joined.server.db.memberships, m.collectionID = "home" → ∀ privateKey opened,
      openSealed locked plainCurve (ofWire m.sealedCollectionKey) privateKey = .ok opened →
        opened = homeSecret.val := by
  obtain ⟨r, hheld, hget⟩ := Option.bind_eq_some_iff.mp both_hold.1
  obtain ⟨r', hheld', hget'⟩ := Option.bind_eq_some_iff.mp both_hold.2.1
  obtain ⟨hmembers, hsessions⟩ :=
    shared_key locked_authentic plainCurve_separates founded_reachable joining_run hheld hget
  exact ⟨r', _, hheld', hget', (hsessions 1 r' _ hheld' hget').1, hmembers⟩

/-- Ann's tab is locked and unlocked again before the key she adds Bob with is read. -/
def relocking : List Event := adding :: .lock 0 :: unlocking 0 "ann" annSecret :: handing zeros

theorem wiped_key_handed : ¬ ∀ w, Lts.Reachable World.init (step locked plainCurve) w →
    ∀ m ∈ w.server.db.memberships, ∃ key, w.collectionKey m.collectionID = some key ∧
      ∃ mine ∈ w.privateKeys m.userID, openSealed locked plainCurve (ofWire m.sealedCollectionKey) mine.val =
        .ok key.val := by
  intro h
  have hreach : Lts.Reachable World.init (step locked plainCurve) (after founded relocking) := by
    refine Lts.Reachable.run ⟨.start, founding, rfl, ?_⟩ (Lts.run_script (by decide +kernel))
    exact founding_run.mono fun _ _ _ hs => hs.1
  obtain ⟨hhome, hmine', hbob⟩ : (after founded relocking).collectionKey "home" = some homeSecret ∧
      (after founded relocking).privateKeys "bob" = [bobSecret] ∧
      ((after founded relocking).server.db.memberships.get? ("home", "bob")).any (fun m =>
        m.collectionID = "home" ∧ m.userID = "bob" ∧
          (openSealed locked plainCurve (ofWire m.sealedCollectionKey) bobSecret.val).toOption = some zeros) =
            true := by
    decide +kernel
  obtain ⟨m, hg, hm⟩ := (Option.any_eq_true _ _).mp hbob
  obtain ⟨hc, hu, hzeros⟩ := of_decide_eq_true hm
  obtain ⟨key, hkey, mine, hmine, hopens⟩ := h _ hreach m (Table.get?_eq_some.mp hg).1
  rw [hc, hhome] at hkey
  rw [hu, hmine', List.mem_singleton] at hmine
  rw [hmine] at hopens
  rw [hopens, ← Option.some.inj hkey] at hzeros
  exact absurd hzeros (by decide)

end Keyhole.Sharing
