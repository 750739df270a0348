import Keyhole.Client.Api
import Keyhole.Lib.Heap

/-!
# The session and its buffers

The session of the application as it is: keys are buffers, which it shares with
whoever asked for them, and which it wipes when it drops them.
-/

namespace Keyhole.Client
open Sql Store Vault

/-- A `Map` from the ids of collections to buffers. -/
abbrev Keyring : Type := Table (Prod.fst : Id × Ref → Id)

structure SessionBuffers where
  tokens : Option SessionTokens
  userKey : Option Ref
  privateKey : Option Ref
  collectionKeys : Keyring
  deriving DecidableEq

def createSession : SessionBuffers where
  tokens := none
  userKey := none
  privateKey := none
  collectionKeys := ∅

namespace SessionBuffers

def isUnlocked (s : SessionBuffers) : Bool := s.userKey.isSome && s.privateKey.isSome

def getKeys (s : SessionBuffers) : Option (Ref × Ref) := do
  let userKey ← s.userKey
  let privateKey ← s.privateKey
  return (userKey, privateKey)

def getCollectionKey (s : SessionBuffers) (collectionId : Id) : Option Ref :=
  (s.collectionKeys.get? collectionId).map Prod.snd

/-- `none` is the error of `getKeys`, `some none` the `null` of a collection without a key. -/
def parentKeyFor (s : SessionBuffers) : Option Id → Option (Option Ref)
  | none => s.getKeys.map fun keys => some keys.1
  | some collectionId => some (s.getCollectionKey collectionId)

def buffers (s : SessionBuffers) : List Ref :=
  s.userKey.toList ++ s.privateKey.toList ++ s.collectionKeys.rows.map Prod.snd

/-- What `setCollectionKeys` wipes: a key that is not, as the same buffer, in the new map. -/
def dropped (s : SessionBuffers) (next : Keyring) : List Ref :=
  (s.collectionKeys.rows.filter fun e => next.get? e.1 ≠ some e).map Prod.snd

theorem getKeys_eq_some {s : SessionBuffers} {userKey privateKey : Ref}
    (h : s.getKeys = some (userKey, privateKey)) : s.userKey = some userKey ∧ s.privateKey = some privateKey := by
  obtain ⟨u, hu, h⟩ := Option.bind_eq_some_iff.mp h
  obtain ⟨p, hp, h⟩ := Option.bind_eq_some_iff.mp h
  cases h
  exact ⟨hu, hp⟩

end SessionBuffers

/-- A session and the heap its buffers are in. -/
structure Memory (K : Type) where
  heap : Heap K
  session : SessionBuffers

namespace Memory

variable {K : Type}

def empty : Memory K where
  heap := .empty
  session := createSession

def setCollectionKeys (m : Memory K) (next : Keyring) : Memory K where
  heap := m.heap.wipe (m.session.dropped next)
  session := { m.session with collectionKeys := next }

/-- The keys come in buffers of their own. -/
def openSession (m : Memory K) (tokens : SessionTokens) (keys : UnlockedKeys K) : Memory K :=
  let heap := m.heap.wipe m.session.buffers
  { heap := (heap.alloc keys.userKey).alloc keys.privateKey
    session := {
      tokens := some tokens
      userKey := some heap.top
      privateKey := some (heap.top + 1)
      collectionKeys := ∅ } }

def replaceTokens (m : Memory K) (next : SessionTokens) : Memory K :=
  { m with session := { m.session with tokens := some next } }

def lock (m : Memory K) : Memory K where
  heap := m.heap.wipe m.session.buffers
  session := createSession

/-- The bytes of a buffer; `zero` are those of a wiped one. -/
def read (zero : K) (m : Memory K) (r : Ref) : K := (m.heap.get r).getD zero

/-! ## What it holds -/

/-- The session by value, as the flows of an account see it. -/
def device (m : Memory K) : Device K where
  tokens := m.session.tokens
  keys := do
    let userKey ← m.session.userKey.bind m.heap.get
    let privateKey ← m.session.privateKey.bind m.heap.get
    return ⟨userKey, privateKey⟩

theorem device_openSession (m : Memory K) (tokens : SessionTokens) (keys : UnlockedKeys K) :
    (m.openSession tokens keys).device = .opened tokens keys := by
  simp [device, openSession, Device.opened, Heap.get_alloc]

theorem device_lock (m : Memory K) : m.lock.device = .locked := rfl

theorem mem_dropped {s : SessionBuffers} {next : Keyring} {r : Ref} :
    r ∈ s.dropped next ↔ ∃ id, (id, r) ∈ s.collectionKeys ∧ next.get? id ≠ some (id, r) := by
  unfold SessionBuffers.dropped
  simp only [List.mem_map, List.mem_filter, decide_eq_true_eq]
  constructor
  · intro h
    obtain ⟨⟨id, r'⟩, ⟨hm, hd⟩, hr⟩ := h
    cases hr
    exact ⟨id, hm, hd⟩
  · intro h
    obtain ⟨id, hm, hd⟩ := h
    exact ⟨(id, r), ⟨hm, hd⟩, rfl⟩

theorem not_mem_dropped {s : SessionBuffers} {next : Keyring} {r : Ref}
    (h : ∀ id, (id, r) ∈ s.collectionKeys → (id, r) ∈ next) : r ∉ s.dropped next := by
  rw [mem_dropped]
  intro ⟨id, hm, hd⟩
  exact hd (Table.get?_eq_some.mpr ⟨h id hm, rfl⟩)

end Memory

end Keyhole.Client
