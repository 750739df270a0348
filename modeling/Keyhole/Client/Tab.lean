import Keyhole.Client.Session
import Keyhole.Vault.Store

/-!
# One tab and what is under way in it

The session, the store and the operations in flight, each at one of its
`await`s: `load` and `resync` with the `adoptCollections` inside them,
`createCollection`, and any other call. What stands between two `await`s runs
in one piece. What the server answers is up to the events.
-/

namespace Keyhole.Client.Tab
open Sql Store Vault

/-! ## The three loops, each up to its next `await` -/

/-- The loop of `adoptCollections` so far. `reused` is a ghost: the entries of `next`
that were the session's own. -/
structure Adoption where
  next : Keyring
  reused : List (Id × Ref)
  summaries : List CollectionSummary

def summaryOf (c : CollectionWithMembership) (usable : Bool) : CollectionSummary := ⟨c.id, c.name, c.role, usable⟩

namespace Adoption

def start : Adoption := ⟨∅, [], []⟩

def reuse (a : Adoption) (c : CollectionWithMembership) (r : Ref) : Adoption where
  next := a.next.upsert (c.id, r)
  reused := a.reused ++ [(c.id, r)]
  summaries := a.summaries ++ [summaryOf c true]

def add (a : Adoption) (c : CollectionWithMembership) (r : Ref) : Adoption where
  next := a.next.upsert (c.id, r)
  reused := a.reused
  summaries := a.summaries ++ [summaryOf c true]

def skip (a : Adoption) (c : CollectionWithMembership) : Adoption where
  next := a.next
  reused := a.reused
  summaries := a.summaries ++ [summaryOf c false]

end Adoption

/-- An `openSealed` under way, and what is left of the loop after it. -/
structure Opening (K : Type) where
  collection : CollectionWithMembership
  opened : Option K
  rest : List CollectionWithMembership

structure Reading (R T : Type) where
  row : R
  plaintext : Option T
  rest : List R

/-- What an `openSealed` that is over adds to the loop: a key in a buffer of its own, or nothing. -/
def Adoption.settle {K : Type} (a : Adoption) (opening : Opening K) (m : Memory K) : Adoption × Memory K :=
  match opening.opened with
  | some key => (a.add opening.collection m.heap.top, { m with heap := m.heap.alloc key })
  | none => (a.skip opening.collection, m)

theorem settle_session {K : Type} (a : Adoption) (opening : Opening K) (m : Memory K) :
    (a.settle opening m).2.session = m.session := by
  unfold Adoption.settle
  split <;> rfl

section
variable {K P : Type} (S : Sealing K) (C : Crypto K P) (zero : K)

/-- A key the session holds is taken as it is, without an `await`. -/
def adopt (m : Memory K) (privateKey : Ref) :
    Adoption → List CollectionWithMembership → Adoption × Option (Opening K)
  | a, [] => (a, none)
  | a, c :: rest =>
    match m.session.getCollectionKey c.id with
    | some r => adopt m privateKey (a.reuse c r) rest
    | none => (a, some ⟨c, S.openSealed c.sealedCollectionKey (m.read zero privateKey), rest⟩)

def itemRecord (item : Item) (plaintext : Option P) : ItemRecord P where
  id := item.id
  revision := item.revision
  collectionId := item.collectionID
  deletedAt := item.deletedAt
  plaintext

def folderRecord (folder : Folder) (name : Option String) : FolderRecord where
  id := folder.id
  revision := folder.revision
  deletedAt := folder.deletedAt
  name

/-- `none` when `getKeys` throws, which no `try` of the loop catches. -/
def decryptRecords (m : Memory K) :
    List (ItemRecord P) → List Item → Option (List (ItemRecord P) × Option (Reading Item P))
  | records, [] => some (records, none)
  | records, item :: rest =>
    if item.deletedAt.isSome then decryptRecords m (records ++ [itemRecord item none]) rest
    else
      match m.session.parentKeyFor item.collectionID with
      | none => none
      | some none => decryptRecords m (records ++ [itemRecord item none]) rest
      | some (some r) =>
        some (records, some ⟨item, decryptItem C ⟨item.ciphertext, item.wrappedItemKey⟩ (m.read zero r), rest⟩)

def decryptFolders (m : Memory K) (userKey : Ref) :
    List FolderRecord → List Folder → List FolderRecord × Option (Reading Folder String)
  | records, [] => (records, none)
  | records, folder :: rest =>
    if folder.deletedAt.isSome then decryptFolders m userKey (records ++ [folderRecord folder none]) rest
    else (records, some ⟨folder, C.decryptString folder.encryptedName (m.read zero userKey), rest⟩)

end

/-! ## The operations -/

/-- Which request is under way. `created` is a ghost: the collection the server has made of it. -/
inductive Task
  | call
  | fetchInto (since : Option Int)
  | createCollection (name : String) (collectionKey : Ref) (created : Option Id)
  deriving DecidableEq

structure Fetch where
  since : Option Int
  response : SyncResult

inductive Phase (K P : Type)
  | idle
  | requesting (task : Task) (retried : Bool)
  | refreshing (task : Task) (error : String)
  | failing (task : Task) (error : String)
  | adopting (fetch : Fetch) (privateKey : Ref) (adoption : Adoption) (opening : Opening K)
  | adopted (fetch : Fetch) (collections : List CollectionSummary)
  | decryptingItem (fetch : Fetch) (collections : List CollectionSummary) (records : List (ItemRecord P))
      (reading : Reading Item P)
  | decryptedItems (fetch : Fetch) (collections : List CollectionSummary) (records : List (ItemRecord P))
  | decryptingFolder (fetch : Fetch) (collections : List CollectionSummary) (records : List (ItemRecord P))
      (userKey : Ref) (folders : List FolderRecord) (reading : Reading Folder String)
  | decryptedFolders (fetch : Fetch) (collections : List CollectionSummary) (records : List (ItemRecord P))
      (folders : List FolderRecord)
  | done

/-- The last three fields are ghosts: the key of every collection, the keys the session was
last opened with, and what the last keyring installed was reported with. -/
structure World (K P : Type) where
  memory : Memory K
  store : VaultState P
  calls : Nat → Phase K P
  genuine : Id → Option K
  account : Option (UnlockedKeys K)
  reported : List CollectionSummary

/-- `lock` is that of the application: the store is cleared with it. -/
inductive Event (K : Type)
  | unlock (tokens : SessionTokens) (keys : UnlockedKeys K)
  | lock
  | load (i : Nat)
  | resync (i : Nat)
  | createCollection (i : Nat) (name : String) (collectionKey : K)
  | call (i : Nat)
  | unauthorised (i : Nat) (error : String)
  | refreshed (i : Nat) (tokens : SessionTokens)
  | refreshFailed (i : Nat)
  | refused (i : Nat) (error : String)
  | thrown (i : Nat)
  | answered (i : Nat)
  | synced (i : Nat) (response : SyncResult)
  | resumed (i : Nat)
  | commit (i : Nat) (id : Id)
  | created (i : Nat)

def lockedError : String := "The vault is locked"

/-- What the `set` at the end of `fetchInto` makes of the store. -/
def fetched {P : Type} (state : VaultState P) (fetch : Fetch) (collections : List CollectionSummary)
    (records : List (ItemRecord P)) (folders : List FolderRecord) : VaultState P where
  revision := fetch.response.revision
  items := merge ItemRecord.deletedAt (if fetch.since.isNone then ∅ else state.items) records
  folders := merge FolderRecord.deletedAt (if fetch.since.isNone then ∅ else state.folders) folders
  collections
  status := .ready
  error := none

namespace World

variable {K P : Type}

def start (genuine : Id → Option K) : World K P where
  memory := .empty
  store := .EMPTY
  calls _ := .idle
  genuine
  account := none
  reported := []

def moved (w : World K P) (i : Nat) (phase : Phase K P) : World K P :=
  { w with calls := fun j => if j = i then phase else w.calls j }

/-- `store.clear(); session.lock();` -/
def locked (w : World K P) : World K P :=
  { w with memory := w.memory.lock, store := .EMPTY, account := none, reported := [] }

section
variable (S : Sealing K) (C : Crypto K P) (zero : K)

def adoptFrom (w : World K P) (i : Nat) (fetch : Fetch) (privateKey : Ref) (a : Adoption)
    (wire : List CollectionWithMembership) : World K P :=
  match adopt S zero w.memory privateKey a wire with
  | (a, some opening) => w.moved i (.adopting fetch privateKey a opening)
  | (a, none) =>
    { w.moved i (.adopted fetch a.summaries) with
      memory := w.memory.setCollectionKeys a.next, reported := a.summaries }

def itemsFrom (w : World K P) (i : Nat) (fetch : Fetch) (collections : List CollectionSummary)
    (records : List (ItemRecord P)) (wire : List Item) : World K P :=
  match decryptRecords C zero w.memory records wire with
  | none => w.moved i (.failing (.fetchInto fetch.since) lockedError)
  | some (records, some reading) => w.moved i (.decryptingItem fetch collections records reading)
  | some (records, none) => w.moved i (.decryptedItems fetch collections records)

def foldersFrom (w : World K P) (i : Nat) (fetch : Fetch) (collections : List CollectionSummary)
    (records : List (ItemRecord P)) (userKey : Ref) (folders : List FolderRecord) (wire : List Folder) :
    World K P :=
  match decryptFolders C zero w.memory userKey folders wire with
  | (folders, some reading) => w.moved i (.decryptingFolder fetch collections records userKey folders reading)
  | (folders, none) => w.moved i (.decryptedFolders fetch collections records folders)

def resume (w : World K P) (i : Nat) : Phase K P → World K P
  | .adopting fetch privateKey a opening =>
    let (a, memory) := a.settle opening w.memory
    { w with memory }.adoptFrom S zero i fetch privateKey a opening.rest
  | .adopted fetch collections => w.itemsFrom C zero i fetch collections [] fetch.response.items
  | .decryptingItem fetch collections records reading =>
    w.itemsFrom C zero i fetch collections (records ++ [itemRecord reading.row reading.plaintext]) reading.rest
  | .decryptedItems fetch collections records =>
    match w.memory.session.getKeys with
    | none => w.moved i (.failing (.fetchInto fetch.since) lockedError)
    | some (userKey, _) => w.foldersFrom C zero i fetch collections records userKey [] fetch.response.folders
  | .decryptingFolder fetch collections records userKey folders reading =>
    w.foldersFrom C zero i fetch collections records userKey
      (folders ++ [folderRecord reading.row reading.plaintext]) reading.rest
  | .decryptedFolders fetch collections records folders =>
    { w.moved i .done with store := fetched w.store fetch collections records folders }
  | _ => w

def catches (w : World K P) (task : Task) (error : String) : World K P :=
  match task with
  | .call => w
  | .fetchInto _ => { w with store := { w.store with status := .error, error := some error } }
  | .createCollection _ r _ => { w with memory := { w.memory with heap := w.memory.heap.wipe [r] } }

def next (w : World K P) : Event K → World K P
  | .unlock tokens keys =>
    { w with memory := w.memory.openSession tokens keys, account := some keys, reported := [] }
  | .lock => w.locked
  | .load i =>
    { w.moved i (.requesting (.fetchInto none) false) with
      store := { w.store with status := .loading, error := none } }
  | .resync i => w.moved i (.requesting (.fetchInto (some w.store.revision)) false)
  | .createCollection i name collectionKey =>
    { w.moved i (.requesting (.createCollection name w.memory.heap.top none) false) with
      memory := { w.memory with heap := w.memory.heap.alloc collectionKey } }
  | .call i => w.moved i (.requesting .call false)
  | .unauthorised i error =>
    match w.calls i with
    | .requesting task false =>
      if w.memory.session.tokens.isSome then w.moved i (.refreshing task error) else w.moved i (.failing task error)
    | .requesting task true => w.moved i (.failing task error)
    | _ => w
  | .refreshed i tokens =>
    match w.calls i with
    | .refreshing task _ => { w.moved i (.requesting task true) with memory := w.memory.replaceTokens tokens }
    | _ => w
  | .refreshFailed i =>
    match w.calls i with
    | .refreshing task error => w.locked.moved i (.failing task error)
    | _ => w
  | .refused i error =>
    match w.calls i with
    | .requesting task _ => w.moved i (.failing task error)
    | _ => w
  | .thrown i =>
    match w.calls i with
    | .failing task error => (w.moved i .done).catches task error
    | _ => w
  | .answered i =>
    match w.calls i with
    | .requesting .call _ => w.moved i .done
    | _ => w
  | .synced i response =>
    match w.calls i with
    | .requesting (.fetchInto since) _ =>
      match w.memory.session.getKeys with
      | none => w.moved i (.failing (.fetchInto since) lockedError)
      | some (_, privateKey) => w.adoptFrom S zero i ⟨since, response⟩ privateKey .start response.collections
    | _ => w
  | .resumed i => w.resume S C zero i (w.calls i)
  | .commit i id =>
    match w.calls i with
    | .requesting (.createCollection name r _) retried =>
      { w.moved i (.requesting (.createCollection name r (some id)) retried) with
        genuine := fun id' => if id' = id then w.memory.heap.get r else w.genuine id' }
    | _ => w
  | .created i =>
    match w.calls i with
    | .requesting (.createCollection name r (some id)) _ =>
      { w.moved i .done with
        memory := w.memory.setCollectionKeys (w.memory.session.collectionKeys.upsert (id, r))
        reported := w.reported ++ [⟨id, name, .manager, true⟩] }
    | _ => w

def enabled (w : World K P) : Event K → Bool
  | .unlock .. | .lock => true
  | .load i | .resync i | .createCollection i _ _ | .call i => match w.calls i with | .idle => true | _ => false
  | .unauthorised i _ | .refused i _ => match w.calls i with | .requesting .. => true | _ => false
  | .refreshed i _ | .refreshFailed i => match w.calls i with | .refreshing .. => true | _ => false
  | .thrown i => match w.calls i with | .failing .. => true | _ => false
  | .answered i => match w.calls i with | .requesting .call _ => true | _ => false
  | .synced i _ => match w.calls i with | .requesting (.fetchInto _) _ => true | _ => false
  | .resumed i =>
    match w.calls i with
    | .idle | .requesting .. | .refreshing .. | .failing .. | .done => false
    | _ => true
  | .commit i _ => match w.calls i with | .requesting (.createCollection ..) _ => true | _ => false
  | .created i => match w.calls i with | .requesting (.createCollection _ _ (some _)) _ => true | _ => false

def step : World K P → Event K → World K P → Prop :=
  Lts.Stepwise (fun w e => w.enabled e = true) (next S C zero)

end

end World

/-! ## What a resumed operation does -/

section
variable {K P : Type} {S : Sealing K} {C : Crypto K P} {zero : K} {w w' : World K P} {i : Nat}

def Phase.reads : Phase K P → Bool
  | decryptingItem .. | decryptedItems .. | decryptingFolder .. | decryptedFolders .. => true
  | failing (.fetchInto _) _ => true
  | _ => false

inductive Adopts (S : Sealing K) (zero : K) (w : World K P) (i : Nat) (fetch : Fetch) (privateKey : Ref)
    (a : Adoption) (wire : List CollectionWithMembership) : World K P → Prop
  | opens {a' : Adoption} {opening : Opening K} (h : adopt S zero w.memory privateKey a wire = (a', some opening)) :
      Adopts S zero w i fetch privateKey a wire (w.moved i (.adopting fetch privateKey a' opening))
  | installs {a' : Adoption} (h : adopt S zero w.memory privateKey a wire = (a', none)) :
      Adopts S zero w i fetch privateKey a wire { w.moved i (.adopted fetch a'.summaries) with
        memory := w.memory.setCollectionKeys a'.next, reported := a'.summaries }

inductive Resumes (S : Sealing K) (zero : K) (w : World K P) (i : Nat) : Phase K P → World K P → Prop
  | adopts {fetch : Fetch} {privateKey : Ref} {a : Adoption} {opening : Opening K} {w' : World K P}
      (h : Adopts S zero { w with memory := (a.settle opening w.memory).2 } i fetch privateKey
        (a.settle opening w.memory).1 opening.rest w') :
      Resumes S zero w i (.adopting fetch privateKey a opening) w'
  | reads {p phase : Phase K P} (h : phase.reads = true) : Resumes S zero w i p (w.moved i phase)
  | publishes {fetch : Fetch} {collections : List CollectionSummary} {records : List (ItemRecord P)}
      {folders : List FolderRecord} :
      Resumes S zero w i (.decryptedFolders fetch collections records folders)
        { w.moved i .done with store := fetched w.store fetch collections records folders }

theorem adoptFrom_adopts (w : World K P) (i : Nat) (fetch : Fetch) (privateKey : Ref) (a : Adoption)
    (wire : List CollectionWithMembership) :
    Adopts S zero w i fetch privateKey a wire (w.adoptFrom S zero i fetch privateKey a wire) := by
  unfold World.adoptFrom
  split
  · rename_i h
    exact .opens h
  · rename_i h
    exact .installs h

theorem itemsFrom_reads (w : World K P) (i : Nat) (p : Phase K P) (fetch : Fetch)
    (collections : List CollectionSummary) (records : List (ItemRecord P)) (wire : List Item) :
    Resumes S zero w i p (w.itemsFrom C zero i fetch collections records wire) := by
  unfold World.itemsFrom
  split <;> exact .reads rfl

theorem foldersFrom_reads (w : World K P) (i : Nat) (p : Phase K P) (fetch : Fetch)
    (collections : List CollectionSummary) (records : List (ItemRecord P)) (userKey : Ref)
    (folders : List FolderRecord) (wire : List Folder) :
    Resumes S zero w i p (w.foldersFrom C zero i fetch collections records userKey folders wire) := by
  unfold World.foldersFrom
  split <;> exact .reads rfl

theorem resume_resumes (h : w.enabled (.resumed i) = true) :
    Resumes S zero w i (w.calls i) (w.next S C zero (.resumed i)) := by
  simp only [World.next]
  cases hc : w.calls i with
  | adopting fetch privateKey a opening => exact .adopts (adoptFrom_adopts ..)
  | adopted fetch collections => exact itemsFrom_reads ..
  | decryptingItem fetch collections records reading => exact itemsFrom_reads ..
  | decryptedItems fetch collections records =>
    simp only [World.resume]
    split
    · exact .reads rfl
    · exact foldersFrom_reads ..
  | decryptingFolder fetch collections records userKey folders reading => exact foldersFrom_reads ..
  | decryptedFolders fetch collections records folders => exact .publishes
  | _ => simp [World.enabled, hc] at h

/-- The operation whose request has not been answered yet, or not well. -/
def Phase.task : Phase K P → Option Task
  | requesting task _ | refreshing task _ | failing task _ => some task
  | _ => none

/-- What a step comes to, one constructor for each kind of write. -/
inductive Steps (S : Sealing K) (zero : K) (w : World K P) : Event K → World K P → Prop
  | unlock {tokens : SessionTokens} {keys : UnlockedKeys K} : Steps S zero w (.unlock tokens keys)
      { w with memory := w.memory.openSession tokens keys, account := some keys, reported := [] }
  | lock : Steps S zero w .lock w.locked
  | load {i : Nat} : Steps S zero w (.load i) { w.moved i (.requesting (.fetchInto none) false) with
      store := { w.store with status := .loading, error := none } }
  | resync {i : Nat} :
    Steps S zero w (.resync i) (w.moved i (.requesting (.fetchInto (some w.store.revision)) false))
  | createCollection {i : Nat} {name : String} {collectionKey : K} :
      Steps S zero w (.createCollection i name collectionKey)
        { w.moved i (.requesting (.createCollection name w.memory.heap.top none) false) with
          memory := { w.memory with heap := w.memory.heap.alloc collectionKey } }
  | call {i : Nat} : Steps S zero w (.call i) (w.moved i (.requesting .call false))
  | waits {e : Event K} {i : Nat} {task : Task} {phase : Phase K P} (h : (w.calls i).task = some task)
      (hp : phase.task = some task) : Steps S zero w e (w.moved i phase)
  | renews {i : Nat} {task : Task} {tokens : SessionTokens} (h : (w.calls i).task = some task) :
      Steps S zero w (.refreshed i tokens)
        { w.moved i (.requesting task true) with memory := w.memory.replaceTokens tokens }
  | locks {i : Nat} {task : Task} {error : String} (h : (w.calls i).task = some task) :
      Steps S zero w (.refreshFailed i) (w.locked.moved i (.failing task error))
  | throws {i : Nat} {task : Task} {error : String} (h : (w.calls i).task = some task) :
      Steps S zero w (.thrown i) ((w.moved i .done).catches task error)
  | answers {i : Nat} (h : (w.calls i).task = some .call) : Steps S zero w (.answered i) (w.moved i .done)
  | syncs {i : Nat} {since : Option Int} {response : SyncResult} {keys : Ref × Ref} {w' : World K P}
      (h : (w.calls i).task = some (.fetchInto since)) (hk : w.memory.session.getKeys = some keys)
      (ha : Adopts S zero w i ⟨since, response⟩ keys.2 .start response.collections w') :
      Steps S zero w (.synced i response) w'
  | resumes {i : Nat} {w' : World K P} (h : Resumes S zero w i (w.calls i) w') : Steps S zero w (.resumed i) w'
  | commits {i : Nat} {id : Id} {name : String} {r : Ref} {created : Option Id} {retried : Bool}
      (h : (w.calls i).task = some (.createCollection name r created)) :
      Steps S zero w (.commit i id) { w.moved i (.requesting (.createCollection name r (some id)) retried) with
        genuine := fun id' => if id' = id then w.memory.heap.get r else w.genuine id' }
  | creates {i : Nat} {id : Id} {name : String} {r : Ref}
      (h : (w.calls i).task = some (.createCollection name r (some id))) :
      Steps S zero w (.created i) { w.moved i .done with
        memory := w.memory.setCollectionKeys (w.memory.session.collectionKeys.upsert (id, r))
        reported := w.reported ++ [⟨id, name, .manager, true⟩] }

theorem step_steps {e : Event K} (h : World.step S C zero w e w') : Steps S zero w e w' := by
  obtain ⟨he, rfl⟩ := h
  cases e with
  | unlock tokens keys => exact .unlock
  | lock => exact .lock
  | load i => exact .load
  | resync i => exact .resync
  | createCollection i name collectionKey => exact .createCollection
  | call i => exact .call
  | resumed i => exact .resumes (resume_resumes he)
  | unauthorised i error =>
    cases hc : w.calls i with
    | requesting task retried =>
      have ht : (w.calls i).task = some task := by rw [hc]; rfl
      simp only [World.next, hc]
      cases retried with
      | true => exact .waits ht rfl
      | false =>
        simp only
        split
        · exact .waits ht rfl
        · exact .waits ht rfl
    | _ => simp [World.enabled, hc] at he
  | refreshed i tokens =>
    cases hc : w.calls i with
    | refreshing task error =>
      simp only [World.next, hc]
      exact .renews (by rw [hc]; rfl)
    | _ => simp [World.enabled, hc] at he
  | refreshFailed i =>
    cases hc : w.calls i with
    | refreshing task error =>
      simp only [World.next, hc]
      exact .locks (by rw [hc]; rfl)
    | _ => simp [World.enabled, hc] at he
  | refused i error =>
    cases hc : w.calls i with
    | requesting task retried =>
      simp only [World.next, hc]
      exact .waits (by rw [hc]; rfl) rfl
    | _ => simp [World.enabled, hc] at he
  | thrown i =>
    cases hc : w.calls i with
    | failing task error =>
      simp only [World.next, hc]
      exact .throws (by rw [hc]; rfl)
    | _ => simp [World.enabled, hc] at he
  | answered i =>
    cases hc : w.calls i with
    | requesting task retried =>
      cases task with
      | call =>
        simp only [World.next, hc]
        exact .answers (by rw [hc]; rfl)
      | _ => simp [World.enabled, hc] at he
    | _ => simp [World.enabled, hc] at he
  | synced i response =>
    cases hc : w.calls i with
    | requesting task retried =>
      cases task with
      | fetchInto since =>
        have ht : (w.calls i).task = some (.fetchInto since) := by rw [hc]; rfl
        simp only [World.next, hc]
        cases hk : w.memory.session.getKeys with
        | none => exact .waits ht rfl
        | some keys => exact .syncs ht hk (adoptFrom_adopts ..)
      | _ => simp [World.enabled, hc] at he
    | _ => simp [World.enabled, hc] at he
  | commit i id =>
    cases hc : w.calls i with
    | requesting task retried =>
      cases task with
      | createCollection name r created =>
        have ht : (w.calls i).task = some (.createCollection name r created) := by rw [hc]; rfl
        simp only [World.next, hc]
        exact .commits ht
      | _ => simp [World.enabled, hc] at he
    | _ => simp [World.enabled, hc] at he
  | created i =>
    cases hc : w.calls i with
    | requesting task retried =>
      cases task with
      | createCollection name r created =>
        cases created with
        | some id =>
          simp only [World.next, hc]
          exact .creates (by rw [hc]; rfl)
        | none => simp [World.enabled, hc] at he
      | _ => simp [World.enabled, hc] at he
    | _ => simp [World.enabled, hc] at he

end

/-! ## What a server may send -/

def sharedCollection (id : Id) (blob : String) : CollectionWithMembership where
  id
  name := id
  createdBy := "ann"
  createdAt := 0
  role := .member
  sealedCollectionKey := blob
  grantedAt := 0

def personalItem (ciphertext wrappedItemKey : String) : Item where
  id := "item-1"
  ownerUserID := "ann"
  collectionID := none
  ciphertext
  wrappedItemKey
  revision := 1
  createdAt := 0
  updatedAt := 0
  deletedAt := none

def annTokens : SessionTokens := ⟨"access-1", "refresh-1"⟩

def annKeys : UnlockedKeys (List Char) := ⟨['u'], ['p']⟩

end Keyhole.Client.Tab
