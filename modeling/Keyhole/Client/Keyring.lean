import Keyhole.Client.Tab

/-!
# The keys of an open session are whole

A buffer is wiped when the session that holds it drops it, though a loop of
`adoptCollections` may have taken it over before. The invariant says of every
buffer whose it is: the account's, the session's keyring's, or that of one
operation alone, which nobody else wipes.
-/

namespace Keyhole.Client.Tab
open Sql Store Vault

variable {K P : Type} {S : Sealing K} {C : Crypto K P} {zero : K}

/-! ## What is promised -/

/-- The keys are those the session was opened with and those of the collections, and what was
reported usable is what is held. -/
structure Sound (w : World K P) : Prop where
  userKey : ∃ r keys, w.memory.session.userKey = some r ∧ w.account = some keys ∧
    w.memory.heap.get r = some keys.userKey
  privateKey : ∃ r keys, w.memory.session.privateKey = some r ∧ w.account = some keys ∧
    w.memory.heap.get r = some keys.privateKey
  collectionKeys : ∀ e ∈ w.memory.session.collectionKeys,
    ∃ key, w.genuine e.1 = some key ∧ w.memory.heap.get e.2 = some key
  reported : ∀ id, (∃ summary ∈ w.reported, summary.id = id ∧ summary.usable = true) ↔
    ∃ e ∈ w.memory.session.collectionKeys, e.1 = id

/-- The server sends a collection's own key, and names a new collection as no other. -/
def World.honest [DecidableEq K] (S : Sealing K) (w : World K P) : Event K → Bool
  | .synced _ response => response.collections.all fun c =>
      (S.secret c.sealedCollectionKey).all fun key => w.genuine c.id = some key
  | .commit _ id => (w.genuine id).isNone
  | _ => true

/-- When a loop that ends installs its keyring in an open session, the session still holds
every key the loop has taken over from it. -/
def World.stillHeld (w : World K P) : Event K → Bool
  | .resumed i =>
    match w.calls i with
    | .adopting _ _ a opening =>
      !(w.memory.session.isUnlocked && opening.rest.all fun c => (w.memory.session.getCollectionKey c.id).isSome) ||
        a.next.rows.all fun e => !a.reused.contains e || e ∈ w.memory.session.collectionKeys.rows
    | _ => true
  | _ => true

/-! ## Whose a buffer is -/

inductive Label
  | account
  | shared (id : Id)
  | opened (i : Nat) (id : Id)
  | minted (i : Nat)
  deriving DecidableEq

def Label.owner : Label → Option Nat
  | account | shared _ => none
  | opened i _ | minted i => some i

abbrev Labels : Type := Ref → Option Label

def Labels.set (labels : Labels) (r : Ref) (label : Label) : Labels :=
  fun r' => if r' = r then some label else labels r'

def Labels.share (labels : Labels) (i : Nat) : Labels := fun r =>
  match labels r with
  | some (.opened j id) => if j = i then some (.shared id) else some (.opened j id)
  | label => label

def Reported (summaries : List CollectionSummary) (keyring : Keyring) : Prop :=
  ∀ id, (∃ summary ∈ summaries, summary.id = id ∧ summary.usable = true) ↔ ∃ e ∈ keyring, e.1 = id

/-- A key of `next` is the loop's own or was the session's. -/
structure AdoptionFits (labels : Labels) (i : Nat) (a : Adoption) : Prop where
  next : ∀ e ∈ a.next, (e ∈ a.reused ∧ labels e.2 = some (.shared e.1)) ∨ labels e.2 = some (.opened i e.1)
  reported : Reported a.summaries a.next

def Sealed (S : Sealing K) (genuine : Id → Option K) (c : CollectionWithMembership) : Prop :=
  ∀ key, S.secret c.sealedCollectionKey = some key → genuine c.id = some key

structure OpeningFits (S : Sealing K) (genuine : Id → Option K) (opening : Opening K) : Prop where
  opened : ∀ key, opening.opened = some key → genuine opening.collection.id = some key
  rest : ∀ c ∈ opening.rest, Sealed S genuine c

def TaskFits (w : World K P) (labels : Labels) (i : Nat) : Task → Prop
  | .createCollection _ r created => labels r = some (.minted i) ∧
      ∃ key, w.memory.heap.get r = some key ∧ ∀ id, created = some id → w.genuine id = some key
  | .call | .fetchInto _ => True

def Fits (S : Sealing K) (w : World K P) (labels : Labels) (i : Nat) : Phase K P → Prop
  | .adopting _ _ a opening => AdoptionFits labels i a ∧ OpeningFits S w.genuine opening
  | .requesting task _ | .refreshing task _ | .failing task _ => TaskFits w labels i task
  | _ => True

structure Inv (S : Sealing K) (w : World K P) (labels : Labels) : Prop where
  known : ∀ r label, labels r = some label → r < w.memory.heap.top
  ring : ∀ e ∈ w.memory.session.collectionKeys, labels e.2 = some (.shared e.1)
  opened : ∀ r i id, labels r = some (.opened i id) →
    ∃ key, w.genuine id = some key ∧ w.memory.heap.get r = some key
  fits : ∀ i, Fits S w labels i (w.calls i)
  account : ∀ r, w.memory.session.userKey = some r ∨ w.memory.session.privateKey = some r →
    labels r = some .account
  sound : w.memory.session.isUnlocked = true → Sound w

variable {w w' : World K P} {labels labels' : Labels} {i j : Nat}

/-! ## What one operation leaves to the others -/

/-- Nothing changes for the buffers that others own; `own` is the operation that moves, if one does. -/
structure Stable (own : Option Nat) (w : World K P) (labels : Labels) (w' : World K P) (labels' : Labels) :
    Prop where
  kept : ∀ r label, labels r = some label → label.owner = none ∨ label.owner ≠ own → labels' r = some label
  heap : ∀ r label j, labels r = some label → label.owner = some j → some j ≠ own →
    w'.memory.heap.get r = w.memory.heap.get r
  genuine : ∀ id key, w.genuine id = some key → w'.genuine id = some key

theorem TaskFits.stable {own : Option Nat} {task : Task} (h : TaskFits w labels j task)
    (hs : Stable own w labels w' labels') (hj : some j ≠ own) : TaskFits w' labels' j task := by
  cases task with
  | call => trivial
  | fetchInto since => trivial
  | createCollection name r created =>
    obtain ⟨hl, key, hg, hc⟩ := h
    refine ⟨hs.kept r _ hl (Or.inr hj), key, ?_, fun id hid => hs.genuine id key (hc id hid)⟩
    rw [hs.heap r _ j hl rfl hj, hg]

theorem Fits.stable {own : Option Nat} {p : Phase K P} (h : Fits S w labels j p)
    (hs : Stable own w labels w' labels') (hj : some j ≠ own) : Fits S w' labels' j p := by
  cases p with
  | requesting task retried => exact TaskFits.stable h hs hj
  | refreshing task error => exact TaskFits.stable h hs hj
  | failing task error => exact TaskFits.stable h hs hj
  | adopting fetch privateKey a opening =>
    obtain ⟨ha, ho⟩ := h
    refine ⟨⟨fun e he => ?_, ha.reported⟩, ⟨fun key hk => hs.genuine _ _ (ho.opened key hk), ?_⟩⟩
    · rcases ha.next e he with ⟨hr, hl⟩ | hl
      · exact Or.inl ⟨hr, hs.kept _ _ hl (Or.inl rfl)⟩
      · exact Or.inr (hs.kept _ _ hl (Or.inr hj))
    · intro c hc key hk
      exact hs.genuine _ _ (ho.rest c hc key hk)
  | _ => trivial

theorem fits_of_task {p : Phase K P} {task : Task} (hp : p.task = some task) :
    Fits S w labels i p ↔ TaskFits w labels i task := by
  cases p with
  | requesting | refreshing | failing =>
    cases hp
    exact Iff.rfl
  | _ => cases hp

/-! ## Steps of the invariant -/

def World.keys (w : World K P) :=
  (w.memory.heap, w.memory.session.userKey, w.memory.session.privateKey, w.memory.session.collectionKeys, w.genuine,
    w.account, w.reported)

theorem Sound.congr (h : Sound w) (hk : w'.keys = w.keys) : Sound w' := by
  simp only [World.keys, Prod.mk.injEq] at hk
  obtain ⟨hheap, hu, hp, hring, hg, ha, hr⟩ := hk
  refine ⟨?_, ?_, ?_, ?_⟩
  · rw [hheap, hu, ha]
    exact h.userKey
  · rw [hheap, hp, ha]
    exact h.privateKey
  · rw [hheap, hring, hg]
    exact h.collectionKeys
  · rw [hring, hr]
    exact h.reported

theorem Inv.move (h : Inv S w labels) (hk : w'.keys = w.keys) (hc : ∀ j, j ≠ i → w'.calls j = w.calls j)
    (hf : Fits S w labels i (w'.calls i)) : Inv S w' labels := by
  have hkeys := hk
  simp only [World.keys, Prod.mk.injEq] at hkeys
  obtain ⟨hheap, hu, hp, hring, hg, -, -⟩ := hkeys
  have hstable : Stable none w labels w' labels :=
    ⟨fun _ _ hl _ => hl, fun _ _ _ _ _ _ => by rw [hheap], fun _ _ hgen => by rw [hg, hgen]⟩
  refine ⟨?_, ?_, ?_, ?_, ?_, ?_⟩
  · rw [hheap]
    exact h.known
  · rw [hring]
    exact h.ring
  · rw [hheap, hg]
    exact h.opened
  · intro j
    by_cases hj : j = i
    · subst hj
      exact hf.stable hstable (by simp)
    · rw [hc j hj]
      exact (h.fits j).stable hstable (by simp)
  · rw [hu, hp]
    exact h.account
  · intro hl
    have hlw : w.memory.session.isUnlocked = true := by
      rw [← hl]
      simp [SessionBuffers.isUnlocked, hu, hp]
    exact (h.sound hlw).congr hk

theorem Inv.moved (h : Inv S w labels) {p : Phase K P} (hf : Fits S w labels i p) (store : VaultState P) :
    Inv S { w.moved i p with store } labels := by
  refine h.move (i := i) rfl (fun j hj => if_neg hj) ?_
  show Fits S w labels i (if i = i then p else w.calls i)
  rw [if_pos rfl]
  exact hf

theorem Inv.alloc (h : Inv S w labels) (key : K) (label : Label)
    (hl : ∀ i id, label = .opened i id → w.genuine id = some key) :
    Inv S { w with memory := { w.memory with heap := w.memory.heap.alloc key } }
      (labels.set w.memory.heap.top label) := by
  have hold : ∀ r l, labels r = some l → labels.set w.memory.heap.top label r = some l := by
    intro r l hr
    rw [Labels.set, if_neg (Nat.ne_of_lt (h.known r l hr))]
    exact hr
  have hstable : Stable none w labels { w with memory := { w.memory with heap := w.memory.heap.alloc key } }
      (labels.set w.memory.heap.top label) := by
    refine ⟨fun r l hr _ => hold r l hr, fun r l j hr _ _ => ?_, fun _ _ hg => hg⟩
    show (w.memory.heap.alloc key).get r = _
    rw [Heap.get_alloc, if_neg (Nat.ne_of_lt (h.known r l hr))]
  refine ⟨?_, fun e he => hold _ _ (h.ring e he), ?_, fun j => (h.fits j).stable hstable (by simp),
    fun r hr => hold _ _ (h.account r hr), fun hu => ?_⟩
  · intro r l hr
    show r < w.memory.heap.top + 1
    by_cases hrt : r = w.memory.heap.top
    · rw [hrt]
      exact Nat.lt_succ_self _
    · rw [Labels.set, if_neg hrt] at hr
      exact Nat.lt_succ_of_lt (h.known r l hr)
  · intro r i id hr
    show ∃ key', w.genuine id = some key' ∧ (w.memory.heap.alloc key).get r = some key'
    by_cases hrt : r = w.memory.heap.top
    · subst hrt
      rw [Labels.set, if_pos rfl] at hr
      exact ⟨key, hl i id (Option.some.inj hr), Heap.get_alloc_top _ _⟩
    · rw [Labels.set, if_neg hrt] at hr
      obtain ⟨key', hg, hget⟩ := h.opened r i id hr
      exact ⟨key', hg, Heap.get_alloc_of_get hget key⟩
  · have hsound := h.sound hu
    obtain ⟨r, keys, hur, ha, hg⟩ := hsound.userKey
    obtain ⟨r', keys', hpr, ha', hg'⟩ := hsound.privateKey
    refine ⟨⟨r, keys, hur, ha, Heap.get_alloc_of_get hg key⟩,
      ⟨r', keys', hpr, ha', Heap.get_alloc_of_get hg' key⟩,
      fun e he => ?_, hsound.reported⟩
    obtain ⟨key', hgen, hget⟩ := hsound.collectionKeys e he
    exact ⟨key', hgen, Heap.get_alloc_of_get hget key⟩

/-- A lock wipes what the account and the keyring hold, and nothing an operation owns. -/
theorem Inv.locked (h : Inv S w labels) : Inv S w.locked labels := by
  have hwiped : ∀ r ∈ w.memory.session.buffers, ∃ l, labels r = some l ∧ l.owner = none := by
    intro r hr
    simp only [SessionBuffers.buffers, List.mem_append, Option.mem_toList, List.mem_map] at hr
    rcases hr with (hr | hr) | ⟨e, he, rfl⟩
    · exact ⟨_, h.account r (Or.inl hr), rfl⟩
    · exact ⟨_, h.account r (Or.inr hr), rfl⟩
    · exact ⟨_, h.ring e he, rfl⟩
  have howned : ∀ r l j, labels r = some l → l.owner = some j →
    w.locked.memory.heap.get r = w.memory.heap.get r := by
    intro r l j hl hj
    apply Heap.get_wipe_of_not_mem
    intro hr
    obtain ⟨l', hl', hn⟩ := hwiped r hr
    rw [hl] at hl'
    cases hl'
    rw [hj] at hn
    cases hn
  have hstable : Stable none w labels w.locked labels :=
    ⟨fun _ _ hl _ => hl, fun r l j hl hj _ => howned r l j hl hj, fun _ _ hg => hg⟩
  refine ⟨h.known, fun e he => absurd he (Table.mem_empty _), ?_, fun j => (h.fits j).stable hstable (by simp),
    ?_, fun hl => by cases hl⟩
  · intro r i id hr
    obtain ⟨key, hg, hget⟩ := h.opened r i id hr
    exact ⟨key, hg, (howned r _ i hr rfl).trans hget⟩
  · intro r hr
    rcases hr with hr | hr <;> cases hr

theorem Inv.unlocked (h : Inv S w labels) (tokens : SessionTokens) (keys : UnlockedKeys K) :
    ∃ labels', Inv S { w with
      memory := w.memory.openSession tokens keys, account := some keys, reported := [] } labels' := by
  have h₁ := (h.locked.alloc keys.userKey .account (by simp)).alloc keys.privateKey .account (by simp)
  let heap := w.memory.heap.wipe w.memory.session.buffers
  let labels₁ := (labels.set heap.top .account).set (heap.top + 1) .account
  refine ⟨labels₁, ⟨h₁.known, fun e he => absurd he (Table.mem_empty _), h₁.opened, h₁.fits, ?_, ?_⟩⟩
  · intro r hr
    rcases hr with hr | hr
    · cases hr
      simp [labels₁, heap, Labels.set]
    · cases hr
      simp [labels₁, heap, Labels.set]
  · intro _
    refine ⟨⟨_, keys, rfl, rfl, ?_⟩, ⟨_, keys, rfl, rfl, ?_⟩, fun e he => absurd he (Table.mem_empty _), ?_⟩
    · simp [Memory.openSession, Heap.get_alloc]
    · simp [Memory.openSession, Heap.get_alloc]
    · intro id
      constructor
      · intro hsummary
        obtain ⟨summary, hm, -⟩ := hsummary
        cases hm
      · intro hkey
        obtain ⟨e, he, -⟩ := hkey
        exact absurd he (Table.mem_empty _)

theorem Inv.thrown (h : Inv S w labels) {r : Ref} (hr : labels r = some (.minted i)) :
    Inv S { w.moved i .done with memory := { w.memory with heap := w.memory.heap.wipe [r] } } labels := by
  have hother : ∀ r' l, labels r' = some l → l ≠ .minted i →
      (w.memory.heap.wipe [r]).get r' = w.memory.heap.get r' := by
    intro r' l hl hne
    apply Heap.get_wipe_of_not_mem
    intro hm
    rw [List.mem_singleton.mp hm, hr] at hl
    exact hne (Option.some.inj hl).symm
  have hstable : Stable (some i) w labels
      { w.moved i .done with memory := { w.memory with heap := w.memory.heap.wipe [r] } } labels := by
    refine ⟨fun _ _ hl _ => hl, fun r' l j hl hj hji => hother r' l hl ?_, fun _ _ hg => hg⟩
    intro hm
    rw [hm] at hj
    exact hji hj.symm
  refine ⟨h.known, h.ring, ?_, ?_, h.account, fun hu => ?_⟩
  · intro r' j id hl
    obtain ⟨key, hg, hget⟩ := h.opened r' j id hl
    exact ⟨key, hg, (hother r' _ hl (by simp)).trans hget⟩
  · intro j
    show Fits S _ labels j (if j = i then .done else w.calls j)
    by_cases hj : j = i
    · rw [if_pos hj]
      trivial
    · rw [if_neg hj]
      exact (h.fits j).stable hstable (by simpa using hj)
  · have hsound := h.sound hu
    obtain ⟨ru, keys, hru, ha, hg⟩ := hsound.userKey
    obtain ⟨rp, keys', hrp, ha', hg'⟩ := hsound.privateKey
    refine ⟨⟨ru, keys, hru, ha, ?_⟩, ⟨rp, keys', hrp, ha', ?_⟩, fun e he => ?_, hsound.reported⟩
    · exact (hother ru _ (h.account ru (Or.inl hru)) (by simp)).trans hg
    · exact (hother rp _ (h.account rp (Or.inr hrp)) (by simp)).trans hg'
    · obtain ⟨key, hgen, hget⟩ := hsound.collectionKeys e he
      exact ⟨key, hgen, (hother e.2 _ (h.ring e he) (by simp)).trans hget⟩

theorem share_eq {r : Ref} {l : Label} (hl : labels r = some l) (hi : l.owner = none ∨ l.owner ≠ some i) :
    labels.share i r = some l := by
  unfold Labels.share
  rw [hl]
  cases l with
  | opened j id =>
    have hj : j ≠ i := by simpa [Label.owner] using hi
    simp [hj]
  | _ => rfl

theorem share_opened {r : Ref} {id : Id} (hl : labels r = some (.opened i id)) :
    labels.share i r = some (.shared id) := by
  unfold Labels.share
  rw [hl]
  simp

theorem of_share {r : Ref} {l : Label} (hl : labels.share i r = some l) :
    labels r = some l ∨ ∃ id, labels r = some (.opened i id) ∧ l = .shared id := by
  unfold Labels.share at hl
  split at hl
  · rename_i j id hr
    split at hl
    · rename_i hj
      cases hl
      exact Or.inr ⟨id, hj ▸ hr, rfl⟩
    · exact Or.inl (hr.trans hl)
  · exact Or.inl hl

theorem Inv.install (h : Inv S w labels) {next : Keyring} {summaries : List CollectionSummary} {p : Phase K P}
    (hp : ∀ w' labels', Fits S w' labels' i p)
    (hnext : ∀ e ∈ next, labels e.2 = some (.shared e.1) ∨ labels e.2 = some (.opened i e.1))
    (hheld : w.memory.session.isUnlocked = true → ∀ e ∈ next, labels e.2 = some (.shared e.1) →
      e ∈ w.memory.session.collectionKeys)
    (hrep : w.memory.session.isUnlocked = true → Reported summaries next) :
    Inv S { w.moved i p with memory := w.memory.setCollectionKeys next, reported := summaries }
      (labels.share i) := by
  have hundropped : ∀ r l, labels r = some l → (∀ id, l ≠ .shared id) →
      (w.memory.setCollectionKeys next).heap.get r = w.memory.heap.get r := by
    intro r l hl hne
    refine Heap.get_wipe_of_not_mem (Memory.not_mem_dropped fun id hid => ?_)
    have hring := h.ring _ hid
    rw [hl] at hring
    exact absurd (Option.some.inj hring) (hne id)
  have hstable : Stable (some i) w labels
      { w.moved i p with memory := w.memory.setCollectionKeys next, reported := summaries } (labels.share i) := by
    refine ⟨fun r l hl hi => share_eq hl hi, fun r l j hl hj _ => hundropped r l hl ?_, fun _ _ hg => hg⟩
    intro id hs
    rw [hs] at hj
    cases hj
  refine ⟨?_, ?_, ?_, ?_, ?_, fun hu => ?_⟩
  · intro r l hl
    rcases of_share hl with hl | ⟨id, hl, -⟩
    · exact h.known r l hl
    · exact h.known r _ hl
  · intro e he
    rcases hnext e he with hl | hl
    · exact share_eq hl (Or.inl rfl)
    · exact share_opened hl
  · intro r j id hl
    rcases of_share hl with hl | ⟨_, -, hl⟩
    · obtain ⟨key, hg, hget⟩ := h.opened r j id hl
      exact ⟨key, hg, (hundropped r _ hl (by simp)).trans hget⟩
    · cases hl
  · intro j
    show Fits S _ _ j (if j = i then p else w.calls j)
    by_cases hj : j = i
    · subst hj
      rw [if_pos rfl]
      exact hp _ _
    · rw [if_neg hj]
      exact (h.fits j).stable hstable (by simpa using hj)
  · intro r hr
    exact share_eq (h.account r hr) (Or.inl rfl)
  · have hsound := h.sound hu
    obtain ⟨ru, keys, hru, ha, hg⟩ := hsound.userKey
    obtain ⟨rp, keys', hrp, ha', hg'⟩ := hsound.privateKey
    refine ⟨⟨ru, keys, hru, ha, ?_⟩, ⟨rp, keys', hrp, ha', ?_⟩, fun e he => ?_, hrep hu⟩
    · exact (hundropped ru _ (h.account ru (Or.inl hru)) (by simp)).trans hg
    · exact (hundropped rp _ (h.account rp (Or.inr hrp)) (by simp)).trans hg'
    · have hkept : (w.memory.setCollectionKeys next).heap.get e.2 = w.memory.heap.get e.2 := by
        refine Heap.get_wipe_of_not_mem (Memory.not_mem_dropped fun id hid => ?_)
        have hring := h.ring _ hid
        rcases hnext e he with hl | hl
        · rw [hl] at hring
          cases hring
          exact he
        · rw [hl] at hring
          cases hring
      show ∃ key, w.genuine e.1 = some key ∧ (w.memory.setCollectionKeys next).heap.get e.2 = some key
      rw [hkept]
      rcases hnext e he with hl | hl
      · exact hsound.collectionKeys e (hheld hu e he hl)
      · exact h.opened e.2 i e.1 hl

theorem Inv.commit (h : Inv S w labels) {name : String} {r : Ref} {created : Option Id} {retried : Bool} {id : Id}
    (hc : (w.calls i).task = some (.createCollection name r created)) (hid : w.genuine id = none) :
    Inv S { w.moved i (.requesting (.createCollection name r (some id)) retried) with
      genuine := fun id' => if id' = id then w.memory.heap.get r else w.genuine id' } labels := by
  have hold : ∀ id' key, w.genuine id' = some key →
      (if id' = id then w.memory.heap.get r else w.genuine id') = some key := by
    intro id' key hg
    by_cases hi : id' = id
    · rw [hi, hid] at hg
      cases hg
    · rw [if_neg hi, hg]
  have hstable : Stable none w labels { w.moved i (.requesting (.createCollection name r (some id)) retried) with
      genuine := fun id' => if id' = id then w.memory.heap.get r else w.genuine id' } labels :=
    ⟨fun _ _ hl _ => hl, fun _ _ _ _ _ _ => rfl, hold⟩
  refine ⟨h.known, h.ring, ?_, ?_, h.account, fun hu => ?_⟩
  · intro r' j id' hl
    obtain ⟨key, hg, hget⟩ := h.opened r' j id' hl
    exact ⟨key, hold id' key hg, hget⟩
  · intro j
    show Fits S _ labels j (if j = i then _ else w.calls j)
    by_cases hj : j = i
    · subst hj
      obtain ⟨hl, key, hget, -⟩ := (fits_of_task hc).mp (h.fits j)
      rw [if_pos rfl]
      refine ⟨hl, key, hget, fun id' hid' => ?_⟩
      cases hid'
      exact (if_pos rfl).trans hget
    · rw [if_neg hj]
      exact (h.fits j).stable hstable (by simp)
  · have hsound := h.sound hu
    refine ⟨hsound.userKey, hsound.privateKey, fun e he => ?_, hsound.reported⟩
    obtain ⟨key, hg, hget⟩ := hsound.collectionKeys e he
    exact ⟨key, hold e.1 key hg, hget⟩

theorem moved_moved (w : World K P) (i : Nat) (p q : Phase K P) : (w.moved i p).moved i q = w.moved i q := by
  unfold World.moved
  congr 1
  funext j
  by_cases hj : j = i <;> simp [hj]

theorem Inv.opens (h : Inv S w labels) {r : Ref} {id : Id} {key : K} (hr : labels r = some (.minted i))
    (hget : w.memory.heap.get r = some key) (hg : w.genuine id = some key) :
    Inv S (w.moved i .done) (labels.set r (.opened i id)) := by
  have hother : ∀ r' l, labels r' = some l → l ≠ .minted i → labels.set r (.opened i id) r' = some l := by
    intro r' l hl hne
    have hrr : r' ≠ r := by
      intro he
      rw [he, hr] at hl
      exact hne (Option.some.inj hl).symm
    rw [Labels.set, if_neg hrr, hl]
  have hstable : Stable (some i) w labels (w.moved i .done) (labels.set r (.opened i id)) := by
    refine ⟨fun r' l hl hi => hother r' l hl ?_, fun _ _ _ _ _ _ => rfl, fun _ _ hg => hg⟩
    intro hm
    rw [hm] at hi
    simp [Label.owner] at hi
  refine ⟨?_, fun e he => hother _ _ (h.ring e he) (by simp), ?_, ?_,
    fun r' hr' => hother _ _ (h.account r' hr') (by simp), fun hu => (h.sound hu).congr rfl⟩
  · intro r' l hl
    by_cases hrr : r' = r
    · rw [hrr]
      exact h.known r _ hr
    · rw [Labels.set, if_neg hrr] at hl
      exact h.known r' l hl
  · intro r' j id' hl
    by_cases hrr : r' = r
    · rw [Labels.set, if_pos hrr] at hl
      cases hl
      exact ⟨key, hg, hrr ▸ hget⟩
    · rw [Labels.set, if_neg hrr] at hl
      exact h.opened r' j id' hl
  · intro j
    show Fits S _ _ j (if j = i then .done else w.calls j)
    by_cases hj : j = i
    · rw [if_pos hj]
      trivial
    · rw [if_neg hj]
      exact (h.fits j).stable hstable (by simpa using hj)

/-! ## The keyring of a loop -/

theorem Reported.add {summaries : List CollectionSummary} {keyring : Keyring} (h : Reported summaries keyring)
    {summary : CollectionSummary} {e : Id × Ref} (hid : summary.id = e.1) (hu : summary.usable = true) :
    Reported (summaries ++ [summary]) (keyring.upsert e) := by
  intro id
  constructor
  · intro ⟨s, hs, hsid, hsu⟩
    rcases List.mem_append.mp hs with hs | hs
    · obtain ⟨e', he', hid'⟩ := (h id).mp ⟨s, hs, hsid, hsu⟩
      by_cases hee : e'.1 = e.1
      · exact ⟨e, Table.mem_upsert.mpr (Or.inr rfl), hee.symm.trans hid'⟩
      · exact ⟨e', Table.mem_upsert.mpr (Or.inl ⟨he', hee⟩), hid'⟩
    · rw [List.mem_singleton.mp hs] at hsid
      exact ⟨e, Table.mem_upsert.mpr (Or.inr rfl), hid.symm.trans hsid⟩
  · intro ⟨e', he', hid'⟩
    rcases Table.mem_upsert.mp he' with ⟨he', -⟩ | he'
    · obtain ⟨s, hs, hsid, hsu⟩ := (h id).mpr ⟨e', he', hid'⟩
      exact ⟨s, List.mem_append_left _ hs, hsid, hsu⟩
    · rw [he'] at hid'
      exact ⟨summary, List.mem_append_right _ (List.mem_singleton_self _), hid.trans hid', hu⟩

theorem Reported.skip {summaries : List CollectionSummary} {keyring : Keyring} (h : Reported summaries keyring)
    {summary : CollectionSummary} (hu : summary.usable = false) : Reported (summaries ++ [summary]) keyring := by
  intro id
  rw [← h id]
  constructor
  · intro ⟨s, hs, hsid, hsu⟩
    rcases List.mem_append.mp hs with hs | hs
    · exact ⟨s, hs, hsid, hsu⟩
    · rw [List.mem_singleton.mp hs, hu] at hsu
      cases hsu
  · intro ⟨s, hs, hsid, hsu⟩
    exact ⟨s, List.mem_append_left _ hs, hsid, hsu⟩

section
variable {m : Memory K} {privateKey : Ref} {a a' : Adoption} {wire : List CollectionWithMembership}
  {o : Option (Opening K)}

theorem getCollectionKey_mem {s : SessionBuffers} {id : Id} {r : Ref} (h : s.getCollectionKey id = some r) :
    (id, r) ∈ s.collectionKeys := by
  unfold SessionBuffers.getCollectionKey at h
  obtain ⟨e, he, hr⟩ := Option.map_eq_some_iff.mp h
  obtain ⟨hm, hid⟩ := Table.get?_eq_some.mp he
  rwa [← hid, ← hr]

theorem adopt_spec (h : adopt S zero m privateKey a wire = (a', o)) :
    (∀ e ∈ a'.next, e ∈ a.next ∨ (e ∈ m.session.collectionKeys ∧ e ∈ a'.reused)) ∧
      (∀ e ∈ a.reused, e ∈ a'.reused) ∧
    (Reported a.summaries a.next → Reported a'.summaries a'.next) := by
  induction wire generalizing a with
  | nil =>
    cases h
    exact ⟨fun e he => Or.inl he, fun e he => he, fun hr => hr⟩
  | cons c rest ih =>
    unfold adopt at h
    cases hk : m.session.getCollectionKey c.id with
    | none =>
      rw [hk] at h
      cases h
      exact ⟨fun e he => Or.inl he, fun e he => he, fun hr => hr⟩
    | some r =>
      rw [hk] at h
      obtain ⟨hnext, hreused, hrep⟩ := ih h
      refine ⟨fun e he => ?_, fun e he => hreused e (List.mem_append_left _ he), fun hr => hrep (hr.add rfl rfl)⟩
      rcases hnext e he with he | he
      · rcases Table.mem_upsert.mp he with ⟨he, -⟩ | rfl
        · exact Or.inl he
        · exact Or.inr ⟨getCollectionKey_mem hk, hreused _ (List.mem_append_right _ (List.mem_singleton_self _))⟩
      · exact Or.inr he

theorem adopt_opening {opening : Opening K} (h : adopt S zero m privateKey a wire = (a', some opening)) :
    opening.collection ∈ wire ∧ (∀ c ∈ opening.rest, c ∈ wire) ∧
    ∀ key, opening.opened = some key → S.secret opening.collection.sealedCollectionKey = some key := by
  induction wire generalizing a with
  | nil => cases h
  | cons c rest ih =>
    unfold adopt at h
    cases hk : m.session.getCollectionKey c.id with
    | none =>
      rw [hk] at h
      cases h
      exact ⟨List.mem_cons_self .., fun c hc => List.mem_cons_of_mem _ hc, fun key hkey => S.secret_of_open hkey⟩
    | some r =>
      rw [hk] at h
      obtain ⟨hc, hrest, hkey⟩ := ih h
      exact ⟨List.mem_cons_of_mem _ hc, fun c hc => List.mem_cons_of_mem _ (hrest c hc), hkey⟩

theorem adopt_finished (h : adopt S zero m privateKey a wire = (a', none)) :
    ∀ c ∈ wire, (m.session.getCollectionKey c.id).isSome = true := by
  induction wire generalizing a with
  | nil =>
    intro c hc
    cases hc
  | cons c rest ih =>
    unfold adopt at h
    cases hk : m.session.getCollectionKey c.id with
    | none => simp [hk] at h
    | some r =>
      rw [hk] at h
      intro c' hc'
      rcases List.mem_cons.mp hc' with rfl | hc'
      · rw [hk]
        rfl
      · exact ih h c' hc'

end

/-- Whether the loop ends or waits again, provided that it installs only what is still held. -/
theorem Inv.adopts (h : Inv S w labels) {fetch : Fetch} {privateKey : Ref} {a : Adoption}
    {wire : List CollectionWithMembership} (ha : AdoptionFits labels i a) (hwire : ∀ c ∈ wire, Sealed S w.genuine c)
    (hheld : (∀ c ∈ wire, (w.memory.session.getCollectionKey c.id).isSome = true) →
      w.memory.session.isUnlocked = true → ∀ e ∈ a.next, labels e.2 = some (.shared e.1) →
      e ∈ w.memory.session.collectionKeys)
    (hs : Adopts S zero w i fetch privateKey a wire w') : ∃ labels', Inv S w' labels' := by
  cases hs with
  | @opens a' opening hadopt =>
    obtain ⟨hnext, hreused, hrep⟩ := adopt_spec hadopt
    obtain ⟨hc, hrest, hkey⟩ := adopt_opening hadopt
    refine ⟨labels, h.move (i := i) rfl (fun j hj => if_neg hj) ?_⟩
    rw [show (w.moved i (.adopting fetch privateKey a' opening)).calls i =
      .adopting fetch privateKey a' opening from
      if_pos rfl]
    refine ⟨⟨fun e he => ?_, hrep ha.reported⟩,
      ⟨fun key hk => hwire _ hc key (hkey key hk), fun c hc => hwire c (hrest c hc)⟩⟩
    rcases hnext e he with he | ⟨he, hr⟩
    · rcases ha.next e he with ⟨hr, hl⟩ | hl
      · exact Or.inl ⟨hreused e hr, hl⟩
      · exact Or.inr hl
    · exact Or.inl ⟨hr, h.ring e he⟩
  | @installs a' hadopt =>
    obtain ⟨hnext, -, hrep⟩ := adopt_spec hadopt
    refine ⟨labels.share i, h.install (fun _ _ => trivial) ?_ ?_ fun _ => hrep ha.reported⟩
    · intro e he
      rcases hnext e he with he | ⟨he, -⟩
      · rcases ha.next e he with ⟨-, hl⟩ | hl
        · exact Or.inl hl
        · exact Or.inr hl
      · exact Or.inl (h.ring e he)
    · intro hu e he hl
      rcases hnext e he with he | ⟨he, -⟩
      · exact hheld (adopt_finished hadopt) hu e he hl
      · exact he

/-- The `openSealed` that is over gives the loop a key of its own, or nothing. -/
theorem Inv.settle (h : Inv S w labels) {fetch : Fetch} {privateKey : Ref} {a : Adoption} {opening : Opening K}
    (hc : w.calls i = .adopting fetch privateKey a opening) :
    ∃ labels', Inv S { w with memory := (a.settle opening w.memory).2 } labels' ∧
      AdoptionFits labels' i (a.settle opening w.memory).1 ∧
      ∀ e ∈ (a.settle opening w.memory).1.next, labels' e.2 = some (.shared e.1) → e ∈ a.next ∧
        e ∈ a.reused := by
  have hf := h.fits i
  rw [hc] at hf
  obtain ⟨ha, ho⟩ := hf
  have hreused : ∀ e ∈ a.next, labels e.2 = some (.shared e.1) → e ∈ a.reused := by
    intro e he hl
    rcases ha.next e he with ⟨hr, -⟩ | hl'
    · exact hr
    · rw [hl] at hl'
      cases hl'
  unfold Adoption.settle
  cases hopened : opening.opened with
  | none =>
    refine ⟨labels, h, ⟨fun e he => ?_, ha.reported.skip rfl⟩, fun e he hl => ⟨he, hreused e he hl⟩⟩
    exact ha.next e he
  | some key =>
    let r := w.memory.heap.top
    have hold : ∀ e ∈ a.next, labels.set r (.opened i opening.collection.id) e.2 = labels e.2 := by
      intro e he
      have hlt : e.2 < r := by
        rcases ha.next e he with ⟨-, hl⟩ | hl
        · exact h.known _ _ hl
        · exact h.known _ _ hl
      exact if_neg (Nat.ne_of_lt hlt)
    refine ⟨labels.set r (.opened i opening.collection.id), h.alloc key _ ?_,
      ⟨fun e he => ?_, ha.reported.add rfl rfl⟩, ?_⟩
    · intro i' id hl
      cases hl
      exact ho.opened key hopened
    · rcases Table.mem_upsert.mp he with ⟨he, -⟩ | rfl
      · rw [hold e he]
        exact ha.next e he
      · exact Or.inr (if_pos rfl)
    · intro e he hl
      rcases Table.mem_upsert.mp he with ⟨he, -⟩ | rfl
      · rw [hold e he] at hl
        exact ⟨he, hreused e he hl⟩
      · rw [show labels.set r (.opened i opening.collection.id) r = some (.opened i opening.collection.id) from
          if_pos rfl] at hl
        cases hl

theorem Inv.resumes (h : Inv S w labels) {p : Phase K P} (hr : Resumes S zero w i p w') (hp : w.calls i = p)
    (hheld : w.stillHeld (.resumed i) = true) : ∃ labels', Inv S w' labels' := by
  cases hr with
  | @reads _ phase hreads =>
    refine ⟨labels, h.moved ?_ w.store⟩
    cases phase with
    | failing task error => cases task <;> trivial
    | decryptingItem | decryptedItems | decryptingFolder | decryptedFolders => trivial
    | _ => cases hreads
  | publishes => exact ⟨labels, h.moved (by trivial) _⟩
  | @adopts fetch privateKey a opening _ ha =>
    obtain ⟨labels', h', hfits, hshared⟩ := h.settle hp
    have hf := h.fits i
    rw [hp] at hf
    have hsession := settle_session a opening w.memory
    refine h'.adopts hfits hf.2.rest ?_ ha
    intro hall hu e he hl
    obtain ⟨hnext, hreused⟩ := hshared e he hl
    have hends : (w.memory.session.isUnlocked && opening.rest.all fun c =>
        (w.memory.session.getCollectionKey c.id).isSome) = true := by
      rw [hsession] at hall hu
      rw [hu, Bool.true_and, List.all_eq_true]
      exact hall
    simp only [World.stillHeld, hp, hends, Bool.not_true, Bool.false_or, List.all_eq_true] at hheld
    have hmem := hheld e hnext
    simp only [List.contains_iff_mem.mpr hreused, Bool.not_true, Bool.false_or, decide_eq_true_eq] at hmem
    rw [hsession]
    exact hmem

theorem inv_start (genuine : Id → Option K) : Inv S (World.start (P := P) genuine) fun _ => none := by
  refine ⟨?_, fun e he => absurd he (Table.mem_empty _), ?_, fun i => trivial, ?_, ?_⟩
  · intro r label hl
    cases hl
  · intro r i id hl
    cases hl
  · intro r hr
    rcases hr with hr | hr <;> cases hr
  · intro hu
    cases hu

variable [DecidableEq K] {e : Event K}

theorem inv_step
    (h : Lts.Guarded (World.step S C zero) (fun w e => w.honest S e = true ∧ w.stillHeld e = true) w e w')
    (hi : Inv S w labels) : ∃ labels', Inv S w' labels' := by
  obtain ⟨h, hhonest, hheld⟩ := h
  cases step_steps h with
  | unlock => exact hi.unlocked _ _
  | lock => exact ⟨labels, hi.locked⟩
  | load => exact ⟨labels, hi.moved (by trivial) _⟩
  | resync => exact ⟨labels, hi.moved (by trivial) w.store⟩
  | @createCollection i name collectionKey =>
    have ha := hi.alloc collectionKey (.minted i) (by simp)
    refine ⟨_, ha.moved ?_ w.store⟩
    refine ⟨if_pos rfl, collectionKey, Heap.get_alloc_top _ _, ?_⟩
    intro id hid
    cases hid
  | call => exact ⟨labels, hi.moved (by trivial) w.store⟩
  | @waits _ i task phase ht hp =>
    exact ⟨labels, hi.moved ((fits_of_task hp).mpr ((fits_of_task ht).mp (hi.fits i))) w.store⟩
  | answers => exact ⟨labels, hi.moved (by trivial) w.store⟩
  | commits hc => exact ⟨labels, hi.commit hc (Option.isNone_iff_eq_none.mp hhonest)⟩
  | @renews i task tokens ht =>
    refine ⟨labels, hi.move (i := i) rfl (fun j hj => if_neg hj) ?_⟩
    show Fits S w labels i (if i = i then .requesting task true else w.calls i)
    rw [if_pos rfl]
    exact (fits_of_task ht).mp (hi.fits i)
  | @creates i id name r ht =>
    obtain ⟨hl, key, hget, hg⟩ := (fits_of_task ht).mp (hi.fits i)
    have ho := hi.opens hl hget (hg id rfl)
    have hnext : ∀ e ∈ w.memory.session.collectionKeys.upsert (id, r),
        labels.set r (.opened i id) e.2 = some (.shared e.1) ∨
          labels.set r (.opened i id) e.2 = some (.opened i e.1) := by
      intro e he
      rcases Table.mem_upsert.mp he with ⟨he, -⟩ | rfl
      · exact Or.inl (ho.ring e he)
      · exact Or.inr (if_pos rfl)
    have hkept : w.memory.session.isUnlocked = true → ∀ e ∈ w.memory.session.collectionKeys.upsert (id, r),
        labels.set r (.opened i id) e.2 = some (.shared e.1) → e ∈ w.memory.session.collectionKeys := by
      intro _ e he hl
      rcases Table.mem_upsert.mp he with ⟨he, -⟩ | rfl
      · exact he
      · rw [show labels.set r (.opened i id) r = some (.opened i id) from if_pos rfl] at hl
        cases hl
    have hrep : w.memory.session.isUnlocked = true → Reported (w.reported ++ [⟨id, name, .manager, true⟩])
        (w.memory.session.collectionKeys.upsert (id, r)) :=
      fun hu => Reported.add (hi.sound hu).reported rfl rfl
    have hinstall := ho.install (p := .done) (fun _ _ => trivial) hnext hkept hrep
    rw [moved_moved] at hinstall
    exact ⟨_, hinstall⟩
  | @locks i task error ht =>
    refine ⟨labels, hi.locked.moved ?_ .EMPTY⟩
    exact (fits_of_task ht).mp (hi.locked.fits i)
  | @throws i task error ht =>
    cases task with
    | call => exact ⟨labels, hi.moved (by trivial) w.store⟩
    | fetchInto since => exact ⟨labels, hi.moved (by trivial) _⟩
    | createCollection name r created => exact ⟨labels, hi.thrown ((fits_of_task ht).mp (hi.fits i)).1⟩
  | @syncs i since response keys _ ht hk ha =>
    have hstart : AdoptionFits labels i .start := by
      refine ⟨fun e he => absurd he (Table.mem_empty _), fun id => ⟨?_, ?_⟩⟩
      · intro ⟨s, hs, _⟩
        cases hs
      · intro ⟨e, he, _⟩
        exact absurd he (Table.mem_empty _)
    refine hi.adopts hstart ?_ (fun _ _ e he => absurd he (Table.mem_empty _)) ha
    intro c hc key hkey
    have hsealed := List.all_eq_true.mp hhonest c hc
    rw [hkey] at hsealed
    simpa using hsealed
  | resumes hr => exact hi.resumes hr rfl hheld

/-- From an honest server, and where a loop of `adoptCollections` that ends in an open session has
taken over only keys that the session still holds, every key of an open session is whole, whatever is under way. -/
theorem keys_whole {genuine : Id → Option K} {es : List (Event K)}
    (h : Lts.Run (Lts.Guarded (World.step S C zero) fun w e => w.honest S e = true ∧ w.stillHeld e = true)
      (World.start genuine) es w) :
    w.memory.session.isUnlocked = true → Sound w := by
  obtain ⟨labels, hi⟩ := h.inv (P := fun w => ∃ labels, Inv S w labels)
    (fun _ _ _ hs ⟨_, hi⟩ => inv_step hs hi) ⟨_, inv_start genuine⟩
  exact hi.sound

/-! Ann makes a collection while a sync is under way that has taken over her key of another. -/

def annGenuine (id : Id) : Option (List Char) :=
  if id = "team" then some ['t'] else if id = "club" then some ['c'] else none

def annOpens (events : List (Event (List Char))) : World (List Char) String :=
  events.foldl (World.next symbolicSealing symbolic ['0']) (World.start annGenuine)

def team : CollectionWithMembership := sharedCollection "team" (String.ofList (frame ['p'] ['t']))

def club : CollectionWithMembership := sharedCollection "club" (String.ofList (frame ['p'] ['c']))

def syncOverCreate : List (Event (List Char)) :=
  [.unlock annTokens annKeys, .load 0, .synced 0 ⟨1, [], [], [team]⟩, .resumed 0, .resync 1,
    .createCollection 2 "band" ['b'], .commit 2 "band", .synced 1 ⟨1, [], [], [team, club]⟩, .created 2, .resumed 1]

theorem keys_whole_created : Sound (annOpens syncOverCreate) :=
  keys_whole (S := symbolicSealing) (C := symbolic) (Lts.run_guarded_script (by decide +kernel)) (by decide +kernel)

/-- A sync has taken over the key of one collection and opens that of another; the tab is locked and
unlocked again, and then the sync installs both. -/
def syncOverLock : List (Event (List Char)) :=
  [.unlock annTokens annKeys, .load 0, .synced 0 ⟨1, [], [], [team]⟩, .resumed 0, .resync 1,
    .synced 1 ⟨1, [], [], [team, club]⟩, .lock, .unlock annTokens annKeys, .resumed 1]

theorem wiped_key_installed :
    ¬ ∀ (genuine : Id → Option (List Char)) (w : World (List Char) String) es,
      Lts.Run (Lts.Guarded (World.step symbolicSealing symbolic ['0']) fun w e => w.honest symbolicSealing e = true)
        (World.start genuine) es w →
      w.memory.session.isUnlocked = true → Sound w := by
  intro h
  have hsound := h annGenuine (annOpens syncOverLock) syncOverLock (Lts.run_guarded_script (by decide +kernel))
    (by decide +kernel)
  obtain ⟨key, -, hkey⟩ := hsound.collectionKeys ("team", 2) (by decide +kernel)
  have hwiped : (annOpens syncOverLock).memory.heap.get 2 = none := by decide +kernel
  cases hwiped.symm.trans hkey

end Keyhole.Client.Tab
