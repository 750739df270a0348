import Keyhole.Client.Session
import Keyhole.Crypto.Sealed
import Keyhole.Store.Distribution

/-!
# Collections are shared

Whoever creates a collection draws its key, and whoever holds it seals it to
others, with a public key the server answered some time before. The keys of a
device are buffers, which its session wipes, though a call may hold one.
A request may arrive at any time, more than once, or never, and accounts may
be reset and enroll anew in between.
-/

namespace Keyhole.Sharing
open Sql Store Crypto
open Client (Keyring Memory SessionTokens)
open Vault (UnlockedKeys)

/-- What a wiped key reads as. -/
def zeros : Bytes := .replicate KEY_BYTES 0

/-- An `openSealed` under way, and what is left of the loop of `adoptCollections` after it. -/
structure Opening where
  collectionID : Id
  opened : Except CryptoError Bytes
  rest : List CollectionWithMembership

/-- What a key is sealed for. The collection to create has a ticket for the key that was drawn for it, and the
account whose public key is its creator's. -/
inductive Share
  | createCollection (ticket : Nat) (name : String) (userID : Id)
  | addMember (collectionID userID : Id) (role : String)
  | fulfilGrant (collectionID userID : Id)

def Share.recipient : Share → Id
  | createCollection _ _ userID | addMember _ userID _ | fulfilGrant _ userID => userID

/-- A call at one of its awaits: `load` or `resync`, the first three, or one that seals a key. -/
inductive Call
  | idle
  | syncing (userID : Id)
  | synced (wire : List CollectionWithMembership)
  | adopting (privateKey : Ref) (next : Keyring) (opening : Opening)
  | sealing (share : Share) (collectionKey : Ref) (publicKey : String)
  | posting (share : Share) (collectionKey : Ref) (sealedCollectionKey : String)
  | done

def Call.isIdle : Call → Bool
  | idle => true
  | _ => false

/-- `user` is the session's. `profiles` and `directory` are whatever the server has answered here. -/
structure Device where
  user : Option Id
  memory : Memory Bytes
  profiles : List (Id × String)
  directory : List DirectoryEntry
  calls : Nat → Call

def Device.fresh : Device := ⟨none, .empty, [], [], fun _ => .idle⟩

/-- A request on its way, as the account whose token it has. -/
inductive Request
  | createCollection (ticket : Nat) (name : String) (userID : Id) (sealedCollectionKey : String)
  | addMember (collectionID userID : Id) (sealedCollectionKey role : String) (actorID : Id)
  | fulfilGrant (collectionID userID : Id) (sealedCollectionKey : String) (actorID : Id)
  deriving DecidableEq

def Share.request (actorID : Id) (sealedCollectionKey : String) : Share → Request
  | createCollection ticket name _ => .createCollection ticket name actorID sealedCollectionKey
  | addMember collectionID userID role => .addMember collectionID userID sealedCollectionKey role actorID
  | fulfilGrant collectionID userID => .fulfilGrant collectionID userID sealedCollectionKey actorID

/-- The write a handler comes to when it refuses nothing. -/
def Request.command (now : Time) (id auditID : Id) : Request → Command
  | createCollection _ name userID sealedCollectionKey =>
    .createCollection now id auditID name userID sealedCollectionKey
  | addMember collectionID userID sealedCollectionKey role actorID =>
    .fulfilGrantOrAdd now auditID collectionID userID sealedCollectionKey role actorID
  | fulfilGrant collectionID userID sealedCollectionKey actorID =>
    .fulfilGrant now auditID collectionID userID sealedCollectionKey actorID

structure Created where
  ticket : Nat
  id : Id
  deriving DecidableEq

/-- Ghosts: the key pairs an account has enrolled with, the keys drawn, by their tickets, and the one of each
collection. -/
structure Secrets where
  privateKeys : Id → List (Random KEY_BYTES)
  drawn : List (Random KEY_BYTES)
  collectionKey : Id → Option (Random KEY_BYTES)

structure World extends Secrets where
  server : Server
  devices : Nat → Device
  sent : List Request
  answered : List Created

/-- Events of a device name it first and, where they are a call's, the call. -/
inductive Event
  | other (c : Command)
  | enroll (now : Time) (invite : Invite) (inp : EnrollmentInput) (privateKey : Random KEY_BYTES)
  | unlock (i : Nat) (userID : Id) (tokens : SessionTokens) (keys : UnlockedKeys Bytes)
  | lock (i : Nat)
  | loadAccount (i : Nat) (userID : Id) (publicKey : String)
  | loadDirectory (i : Nat)
  | sync (i n : Nat)
  | handleSync (i n : Nat)
  | adopt (i n : Nat)
  | opened (i n : Nat)
  | createCollection (i n : Nat) (name : String) (collectionKey : Random KEY_BYTES) (profile : Id × String)
  | addMember (i n : Nat) (collectionID : Id) (recipient : DirectoryEntry) (role : String)
  | fulfilGrant (i n : Nat) (collectionID : Id) (recipient : DirectoryEntry)
  | encrypt (i n : Nat) (draw : SealDraw)
  | post (i n : Nat)
  | created (i n : Nat) (answer : Created)
  | thrown (i n : Nat)
  | deliver (request : Request) (now : Time) (id auditID : Id)

def World.start : World := ⟨⟨fun _ => [], [], fun _ => none⟩, Server.fresh, fun _ => .fresh, [], []⟩

def World.init (w : World) : Prop := w = World.start

def isEnrollment : Command → Bool
  | .completeEnrollment .. => true
  | _ => false

section
variable (P : Platform) (C : Curve)

/-- `none` where the call throws, and sends nothing. -/
def sealTo (draw : SealDraw) (secret : Bytes) (publicKey : String) : Option String :=
  match fromBase64 (ofWire publicKey) with
  | .error _ => none
  | .ok recipientPublicKey =>
    match sealToUser P C draw secret recipientPublicKey with
    | .error _ => none
    | .ok blob => some (toWire blob)

/-- An entry whose public key does not parse is not offered. -/
def loadDirectory (users : List DirectoryEntry) : List DirectoryEntry :=
  users.filter fun entry => (fromBase64 (ofWire entry.publicKey)).isOk

/-- The loop of `adoptCollections` up to its next `await`. A key that is held is not opened again: its buffer is
shared. -/
def adopt (m : Memory Bytes) (privateKey : Ref) :
    Keyring → List CollectionWithMembership → Keyring × Option Opening
  | next, [] => (next, none)
  | next, collection :: rest =>
    match m.session.getCollectionKey collection.id with
    | some existing => adopt m privateKey (next.upsert (collection.id, existing)) rest
    | none =>
      let opened := openSealed P C (ofWire collection.sealedCollectionKey) (m.read zeros privateKey)
      (next, some ⟨collection.id, opened, rest⟩)

def publicKeyText (privateKey : Random KEY_BYTES) : Option String :=
  (C.getPublicKey privateKey.val).map fun publicKey => toWire (toBase64 publicKey)

namespace Device

def call (d : Device) (n : Nat) (call : Call) : Device := { d with calls := Function.update d.calls n call }

def unlock (d : Device) (userID : Id) (tokens : SessionTokens) (keys : UnlockedKeys Bytes) : Device :=
  { d with user := some userID, memory := d.memory.openSession tokens keys }

def lock (d : Device) : Device := { d with user := none, memory := d.memory.lock }

def sync (d : Device) (n : Nat) : Device :=
  match d.user with
  | some userID => d.call n (.syncing userID)
  | none => d.call n .done

def adoptFrom (d : Device) (n : Nat) (privateKey : Ref) (next : Keyring) (wire : List CollectionWithMembership) :
    Device :=
  match adopt P C d.memory privateKey next wire with
  | (next, some opening) => d.call n (.adopting privateKey next opening)
  | (next, none) => { d.call n .done with memory := d.memory.setCollectionKeys next }

def adopts (d : Device) (n : Nat) : Device :=
  match d.calls n with
  | .synced wire =>
    match d.memory.session.getKeys with
    | some (_, privateKey) => d.adoptFrom P C n privateKey ∅ wire
    | none => d.call n .done
  | _ => d

def opened (d : Device) (n : Nat) : Device :=
  match d.calls n with
  | .adopting privateKey next ⟨collectionID, .ok key, rest⟩ =>
    { d with memory := { d.memory with heap := d.memory.heap.alloc key } }.adoptFrom P C n privateKey
      (next.upsert (collectionID, d.memory.heap.top)) rest
  | .adopting privateKey next ⟨_, .error _, rest⟩ => d.adoptFrom P C n privateKey next rest
  | _ => d

def createCollection (d : Device) (n ticket : Nat) (name : String) (collectionKey : Random KEY_BYTES)
    (profile : Id × String) : Device :=
  { d with memory := { d.memory with heap := d.memory.heap.alloc collectionKey.val } }.call n
    (.sealing (.createCollection ticket name profile.1) d.memory.heap.top profile.2)

/-- Without the key there is nothing to seal. -/
def share (d : Device) (n : Nat) (collectionID : Id) (recipient : DirectoryEntry) (share : Share) : Device :=
  match d.memory.session.getCollectionKey collectionID with
  | some collectionKey => d.call n (.sealing share collectionKey recipient.publicKey)
  | none => d.call n .done

/-- The call comes to nothing, and a key drawn for a collection is wiped. -/
def thrown (d : Device) (n : Nat) : Device :=
  match d.calls n with
  | .sealing (.createCollection ..) collectionKey _ | .posting (.createCollection ..) collectionKey _ =>
    { d.call n .done with memory := { d.memory with heap := d.memory.heap.wipe [collectionKey] } }
  | .syncing _ | .synced _ | .sealing .. | .posting .. => d.call n .done
  | _ => d

/-- `subtle.encrypt` reads the buffer after the key it encrypts with has been imported. -/
def seals (d : Device) (n : Nat) (draw : SealDraw) : Device :=
  match d.calls n with
  | .sealing share collectionKey publicKey =>
    match sealTo P C draw (d.memory.read zeros collectionKey) publicKey with
    | some blob => d.call n (.posting share collectionKey blob)
    | none => d.thrown n
  | _ => d

/-- What the session holds by now, and the new collection's. -/
def created (d : Device) (n : Nat) (answer : Created) : Device :=
  match d.calls n with
  | .posting (.createCollection ticket _ _) collectionKey _ =>
    if ticket = answer.ticket then
      { d.call n .done with
        memory := d.memory.setCollectionKeys (d.memory.session.collectionKeys.upsert (answer.id, collectionKey)) }
    else d
  | _ => d

/-- The token is read when the request is sent, and once more where it is sent again. -/
def posts (d : Device) (n : Nat) : Option Request :=
  match d.user, d.calls n with
  | some userID, .posting share _ blob => some (share.request userID blob)
  | _, _ => none

end Device

def enabled (w : World) : Event → Prop
  | .other c => c.hands = none ∧ isEnrollment c = false ∧ Server.Draws w.server.issued c.draws
  | .enroll _ _ inp privateKey => publicKeyText C privateKey = some inp.publicKey
  | .unlock _ userID _ keys => keys.privateKey ∈ (w.privateKeys userID).map Subtype.val
  | .loadAccount i userID publicKey => (w.devices i).user = some userID ∧ Keyed w.server.db.users userID publicKey
  | .sync i n => ((w.devices i).calls n).isIdle = true
  | .createCollection i n _ _ profile => ((w.devices i).calls n).isIdle = true ∧ profile ∈ (w.devices i).profiles
  | .addMember i n _ recipient _ | .fulfilGrant i n _ recipient =>
    ((w.devices i).calls n).isIdle = true ∧ recipient ∈ (w.devices i).directory
  | .created _ _ answer => answer ∈ w.answered
  | .deliver request now id auditID =>
    request ∈ w.sent ∧ Server.Draws w.server.issued (request.command now id auditID).draws
  | _ => True

instance decEnabled (w : World) : (e : Event) → Decidable (enabled C w e)
  | .other _ => inferInstanceAs (Decidable (_ ∧ _ ∧ _))
  | .enroll .. | .sync .. => inferInstanceAs (Decidable (_ = _))
  | .unlock .. | .created .. => inferInstanceAs (Decidable (_ ∈ _))
  | .loadAccount .. | .createCollection .. | .addMember .. | .fulfilGrant .. | .deliver .. =>
    inferInstanceAs (Decidable (_ ∧ _))
  | .lock .. | .loadDirectory .. | .handleSync .. | .adopt .. | .opened .. | .encrypt .. | .post .. | .thrown .. =>
    inferInstanceAs (Decidable True)

def World.onDevice (w : World) (i : Nat) (f : Device → Device) : World :=
  { w with devices := Function.update w.devices i (f (w.devices i)) }

/-- The collection is there, with the key of the ticket, and the call that waits may learn its id. -/
def World.creates (w : World) (ticket : Nat) (id : Id) : World :=
  { w with
    collectionKey := Function.update w.collectionKey id w.drawn[ticket]?
    answered := ⟨ticket, id⟩ :: w.answered }

def next (w : World) : Event → World
  | .other c => { w with server := w.server.after c }
  | .enroll now invite inp privateKey =>
    let c := Command.completeEnrollment now invite inp
    if (c.mark w.server.db).isSome then
      { w with
        server := w.server.after c
        privateKeys := Function.update w.privateKeys invite.userID (privateKey :: w.privateKeys invite.userID) }
    else { w with server := w.server.after c }
  | .unlock i userID tokens keys => w.onDevice i (·.unlock userID tokens keys)
  | .lock i => w.onDevice i (·.lock)
  | .loadAccount i userID publicKey => w.onDevice i fun d =>
    { d with profiles := (userID, publicKey) :: d.profiles }
  | .loadDirectory i =>
    w.onDevice i fun d => { d with directory := loadDirectory w.server.db.directory ++ d.directory }
  | .sync i n => w.onDevice i (·.sync n)
  | .handleSync i n =>
    w.onDevice i fun d =>
      match d.calls n with
      | .syncing userID => d.call n (.synced (w.server.db.collectionsForUser userID))
      | _ => d
  | .adopt i n => w.onDevice i (·.adopts P C n)
  | .opened i n => w.onDevice i (·.opened P C n)
  | .createCollection i n name collectionKey profile =>
    { w.onDevice i (·.createCollection n w.drawn.length name collectionKey profile) with
      drawn := w.drawn ++ [collectionKey] }
  | .addMember i n collectionID recipient role =>
    w.onDevice i (·.share n collectionID recipient (.addMember collectionID recipient.id role))
  | .fulfilGrant i n collectionID recipient =>
    w.onDevice i (·.share n collectionID recipient (.fulfilGrant collectionID recipient.id))
  | .encrypt i n draw => w.onDevice i (·.seals P C n draw)
  | .post i n => { w with sent := ((w.devices i).posts n).toList ++ w.sent }
  | .created i n answer => w.onDevice i (·.created n answer)
  | .thrown i n => w.onDevice i (·.thrown n)
  | .deliver request now id auditID =>
    let w' := { w with server := w.server.after (request.command now id auditID) }
    match request with
    | .createCollection ticket name userID sealedCollectionKey =>
      if (Store.createCollection now id auditID name userID sealedCollectionKey w.server.db).1.isOk then
        w'.creates ticket id
      else w'
    | _ => w'

def step : World → Event → World → Prop := Lts.Stepwise (enabled C) (next P C)

/-- What is sealed is still in its buffer, and a collection is created under the account whose public key its
creator's is. -/
def World.whole (w : World) : Event → Bool
  | .encrypt i n _ =>
    match (w.devices i).calls n with
    | .sealing _ collectionKey _ => ((w.devices i).memory.heap.get collectionKey).isSome
    | _ => true
  | .post i n =>
    match (w.devices i).calls n with
    | .posting (.createCollection _ _ userID) _ _ => (w.devices i).user = some userID
    | _ => true
  | _ => true

end

end Keyhole.Sharing
