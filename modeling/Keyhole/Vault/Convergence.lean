import Keyhole.Store.Removal
import Keyhole.Vault.Store

/-!
# A client against the server

The world is the server, the store of one client of `u`, and its syncs in
flight. A sync reads its cursor when it begins, is answered by one read of
the server, and is merged some time after that; syncs may overlap.
-/

namespace Keyhole.Vault
open Sql Store

/-- `since` is `none` for a load. `begun` is a ghost: the commits when it began. -/
structure Flight where
  ticket : Nat
  since : Option Int
  begun : Nat
  answer : Option SyncResult
  deriving DecidableEq, Repr

/-- `commits` is a ghost: how often a command has changed the vault tables. -/
structure World (P : Type) where
  server : Server
  state : VaultState P
  flights : Table Flight.ticket
  nextTicket : Nat
  commits : Nat

inductive Event
  | server (c : Command)
  | load
  | resync
  | answer (ticket : Nat)
  | apply (ticket : Nat)
  | fail (ticket : Nat) (message : String)

section
variable {P : Type} (opens : Opens P) (u : Id)

def World.start : World P where
  server := Server.fresh
  state := VaultState.EMPTY
  flights := ∅
  nextTicket := 0
  commits := 0

def World.enabled (w : World P) : Event → Bool
  | .server c => Server.Draws w.server.issued c.draws
  | .load | .resync => true
  | .answer ticket => (w.flights.get? ticket).any (·.answer.isNone)
  | .apply ticket => (w.flights.get? ticket).any (·.answer.isSome)
  | .fail ticket _ => (w.flights.get? ticket).isSome

/-- `handleSync`: an absent cursor reads as 0. -/
def handleSync (since : Option Int) (v : Store.Vault) : SyncResult := v.syncSince u (since.getD 0)

def World.next (w : World P) : Event → World P
  | .server c =>
    { w with
      server := w.server.after c
      commits := if (w.server.after c).db.toVault = w.server.db.toVault then w.commits else w.commits + 1 }
  | .load =>
    { w with
      state := { w.state with status := .loading, error := none }
      flights := w.flights.upsert ⟨w.nextTicket, none, w.commits, none⟩
      nextTicket := w.nextTicket + 1 }
  | .resync =>
    { w with
      flights := w.flights.upsert ⟨w.nextTicket, some w.state.revision, w.commits, none⟩
      nextTicket := w.nextTicket + 1 }
  | .answer ticket =>
    { w with
      flights := w.flights.update (fun f => f.ticket = ticket) fun f =>
        { f with answer := some (handleSync u f.since w.server.db.toVault) } }
  | .apply ticket =>
    match (w.flights.get? ticket).bind fun f => f.answer.map fun a => (f.since, a) with
    | some (since, a) =>
      { w with
        state := w.state.fetched opens since a
        flights := w.flights.delete fun f => f.ticket = ticket }
    | none => w
  | .fail ticket message =>
    { w with
      state := { w.state with status := .error, error := some message }
      flights := w.flights.delete fun f => f.ticket = ticket }

def World.step :
    World P → Event → World P → Prop := Lts.Stepwise (fun w e => w.enabled e = true) (World.next opens u)

/-! ## The feeds of records -/

def recordFeed (v : Store.Vault) : Feed.View Id (ItemRecord P) := (v.itemFeed u).map (decryptRecord opens)

def folderRecordFeed (v : Store.Vault) : Feed.View Id FolderRecord := (v.folderFeed u).map (decryptFolder opens)

abbrev goneItem : ItemRecord P → Bool := isTombstone ItemRecord.deletedAt

abbrev goneFolder : FolderRecord → Bool := isTombstone FolderRecord.deletedAt

def itemAnswer (since : Option Int) (a : SyncResult) : Feed.Answer Id (ItemRecord P) :=
  answerOf ItemRecord.id since a.revision (decryptRecords opens a.items)

def folderAnswer (since : Option Int) (a : SyncResult) : Feed.Answer Id FolderRecord :=
  answerOf FolderRecord.id since a.revision (decryptFolders opens a.folders)

theorem getD_lt_iff {since : Option Int} {s : Int} (hs : 0 < s) :
    since.getD 0 < s ↔ since.all (· < s) = true := by
  cases since with
  | none => simpa using hs
  | some c => simp

theorem mem_handleSync_items {v : Store.Vault} (hb : v.Bounded) {since : Option Int} {item : Item} :
    item ∈ (handleSync u since v).items ↔
      ∃ s, (v.itemFeed u).entry item.id = some (s, item) ∧ since.all (· < s) = true := by
  unfold handleSync Vault.syncSince
  simp only [List.mem_insertionSort, Table.mem_filter, Bool.and_eq_true]
  constructor
  · rintro ⟨hi, hc, hv⟩
    rw [← stampFor_isSome, Option.isSome_iff_exists] at hv
    obtain ⟨s, hs⟩ := hv
    refine ⟨s, itemFeed_entry.mpr ⟨hi, rfl, hs⟩, ?_⟩
    have hle := stampFor_revision hs
    rw [← getD_lt_iff (lt_of_lt_of_le (hb.items item hi).1 hle)]
    rcases (changedSince_iff hs).mp hc with h | h
    · exact h
    · exact lt_of_lt_of_le h hle
  · rintro ⟨s, he, hlt⟩
    obtain ⟨hi, -, hs⟩ := itemFeed_entry.mp he
    refine ⟨hi, ?_, ?_⟩
    · rw [changedSince_iff hs]
      exact Or.inl ((getD_lt_iff (lt_of_lt_of_le (hb.items item hi).1 (stampFor_revision hs))).mpr hlt)
    · rw [← stampFor_isSome, hs]
      rfl

theorem mem_handleSync_folders {v : Store.Vault} (hb : v.Bounded) {since : Option Int} {folder : Folder} :
    folder ∈ (handleSync u since v).folders ↔
      ∃ s, (v.folderFeed u).entry folder.id = some (s, folder) ∧ since.all (· < s) = true := by
  unfold handleSync
  rw [mem_syncFolders]
  constructor
  · rintro ⟨hf, hu, hlt⟩
    exact ⟨_, folderFeed_entry.mpr ⟨hf, rfl, hu, rfl⟩, (getD_lt_iff (hb.folders folder hf).1).mp hlt⟩
  · rintro ⟨s, he, hlt⟩
    obtain ⟨hf, -, hu, rfl⟩ := folderFeed_entry.mp he
    exact ⟨hf, hu, (getD_lt_iff (hb.folders folder hf).1).mpr hlt⟩

theorem itemAnswer_handleSync {v : Store.Vault} (hb : v.Bounded) (since : Option Int) :
    itemAnswer opens since (handleSync u since v) = (recordFeed opens u v).answer since :=
  answerOf_map (A := v.itemFeed u) (fun _ => rfl) (nodup_syncItems v u _) (fun _ _ _ h => (itemFeed_entry.mp h).2.1)
    fun _ => mem_handleSync_items u hb

theorem folderAnswer_handleSync {v : Store.Vault} (hb : v.Bounded) (since : Option Int) :
    folderAnswer opens since (handleSync u since v) = (folderRecordFeed opens u v).answer since :=
  answerOf_map (A := v.folderFeed u) (fun _ => rfl) (nodup_syncFolders v u _)
    (fun _ _ _ h => (folderFeed_entry.mp h).2.1)
    fun _ => mem_handleSync_folders u hb

theorem recordFeed_isSome {v : Store.Vault} {id : Id} : ((recordFeed opens u v).entry id).isSome = true ↔
    ∃ item ∈ v.items, item.id = id ∧ v.visibleItemsClause u item = true := by
  unfold recordFeed Feed.View.map
  rw [Option.isSome_map, Option.isSome_iff_exists]
  constructor
  · rintro ⟨⟨s, item⟩, he⟩
    obtain ⟨hi, hid, hs⟩ := itemFeed_entry.mp he
    exact ⟨item, hi, hid, by rw [← stampFor_isSome, hs]; rfl⟩
  · rintro ⟨item, hi, hid, hv⟩
    rw [← stampFor_isSome, Option.isSome_iff_exists] at hv
    obtain ⟨s, hs⟩ := hv
    exact ⟨(s, item), itemFeed_entry.mpr ⟨hi, hid, hs⟩⟩

theorem folderRecordFeed_isSome {v : Store.Vault} {id : Id} :
    ((folderRecordFeed opens u v).entry id).isSome = true ↔
    ∃ folder ∈ v.folders, folder.id = id ∧ folder.userID = u := by
  unfold folderRecordFeed Feed.View.map
  rw [Option.isSome_map, Option.isSome_iff_exists]
  constructor
  · rintro ⟨⟨s, folder⟩, he⟩
    obtain ⟨hf, hid, hu, -⟩ := folderFeed_entry.mp he
    exact ⟨folder, hf, hid, hu⟩
  · rintro ⟨folder, hf, hid, hu⟩
    exact ⟨(folder.revision, folder), folderFeed_entry.mpr ⟨hf, hid, hu, rfl⟩⟩

/-! ## What the client counts on -/

/-- The client holds the item, or an answer on its way brings it. -/
def World.watches (w : World P) (id : Id) : Bool :=
  (w.state.items.get? id).isSome || w.flights.any fun f =>
    f.answer.any fun a => a.items.any fun item => item.id = id && item.deletedAt.isNone

def World.watchesFolder (w : World P) (id : Id) : Bool :=
  (w.state.folders.get? id).isSome || w.flights.any fun f =>
    f.answer.any fun a => a.folders.any fun folder => folder.id = id && folder.deletedAt.isNone

/-- A command takes out of sight nothing that is watched, and a resync is not
merged over an older state than it was asked from. -/
def Steady (w : World P) : Event → Prop
  | .server c =>
    (∀ item ∈ w.server.db.items, w.server.db.visibleItemsClause u item = true → w.watches item.id = true →
      c.withdraws w.server.db u item = false) ∧
    ∀ folder ∈ w.server.db.folders, folder.userID = u → w.watchesFolder folder.id = true →
      c.takesFolder w.server.db folder = false
  | .apply ticket => (w.flights.get? ticket).all (fun f => f.since.all (· ≤ w.state.revision)) = true
  | .load | .resync | .answer _ | .fail _ _ => True

instance decSteady (w : World P) : (e : Event) → Decidable (Steady u w e)
  | .server _ => inferInstanceAs (Decidable (_ ∧ _))
  | .apply _ => inferInstanceAs (Decidable (_ = true))
  | .load | .resync | .answer _ | .fail _ _ => inferInstanceAs (Decidable True)

structure Outstanding (v : Store.Vault) (commits : Nat) (f : Flight) (a : SyncResult) : Prop where
  read : ∃ v₀, a = handleSync u f.since v₀
  items : Feed.Sound goneItem (recordFeed opens u v) (itemAnswer opens f.since a)
  folders : Feed.Sound goneFolder (folderRecordFeed opens u v) (folderAnswer opens f.since a)
  current : f.begun = commits → a = handleSync u f.since v

structure Tracking (w : World P) : Prop where
  evolved : Evolves Db.fresh.toVault w.server.db.toVault
  items : Feed.Tracks goneItem (recordFeed opens u w.server.db.toVault) (reader w.state.revision w.state.items)
  folders :
    Feed.Tracks goneFolder (folderRecordFeed opens u w.server.db.toVault) (reader w.state.revision w.state.folders)
  begun : ∀ f ∈ w.flights, f.begun ≤ w.commits
  answers : ∀ f ∈ w.flights, ∀ a, f.answer = some a → Outstanding opens u w.server.db.toVault w.commits f a

/-! ## One step -/

section
variable {opens u}

theorem retains_items {db : Db} {c : Command} {v' : Store.Vault} (h : Effect db c v') {Q : Id → Prop}
    (hs : ∀ item ∈ db.items, db.visibleItemsClause u item = true → Q item.id → c.withdraws db u item = false) :
    Feed.Retains (recordFeed opens u db.toVault) (recordFeed opens u v') Q := by
  intro i hq hi
  rw [recordFeed_isSome] at hi ⊢
  obtain ⟨item, hi, rfl, hv⟩ := hi
  exact visible_kept_of_withdraws h hi hv (hs item hi hv hq)

theorem retains_folders {db : Db} {c : Command} {v' : Store.Vault} (h : Effect db c v') {Q : Id → Prop}
    (hs : ∀ folder ∈ db.folders, folder.userID = u → Q folder.id → c.takesFolder db folder = false) :
    Feed.Retains (folderRecordFeed opens u db.toVault) (folderRecordFeed opens u v') Q := by
  intro i hq hi
  rw [folderRecordFeed_isSome] at hi ⊢
  obtain ⟨folder, hf, rfl, hu⟩ := hi
  obtain ⟨row, hr, hid, ho⟩ := folder_kept h hf (hs folder hf hu hq)
  exact ⟨row, hr, hid, ho.trans hu⟩

theorem Outstanding.nodup_items {v : Store.Vault} {commits : Nat} {f : Flight} {a : SyncResult}
    (h : Outstanding opens u v commits f a) : ((decryptRecords opens a.items).map ItemRecord.id).Nodup := by
  obtain ⟨v₀, rfl⟩ := h.read
  have := nodup_syncItems v₀ u (f.since.getD 0)
  rwa [decryptRecords, List.map_map]

theorem Outstanding.nodup_folders {v : Store.Vault} {commits : Nat} {f : Flight} {a : SyncResult}
    (h : Outstanding opens u v commits f a) : ((decryptFolders opens a.folders).map FolderRecord.id).Nodup := by
  obtain ⟨v₀, rfl⟩ := h.read
  have := nodup_syncFolders v₀ u (f.since.getD 0)
  rwa [decryptFolders, List.map_map]

theorem watches_of_row {w : World P} {f : Flight} {a : SyncResult} (hf : f ∈ w.flights) (ha : f.answer = some a)
    (ho : Outstanding opens u w.server.db.toVault w.commits f a) {i : Id}
    (hr : ∃ r, (itemAnswer opens f.since a).rows i = some r ∧ goneItem r = false) : w.watches i = true := by
  obtain ⟨r, hr, hg⟩ := hr
  obtain ⟨hmem, hid⟩ := (answerOf_rows ho.nodup_items).mp hr
  obtain ⟨item, hi, rfl⟩ := List.mem_map.mp hmem
  have hd : item.deletedAt.isNone = true := by simpa [isTombstone, decryptRecord] using hg
  unfold World.watches
  simp only [Bool.or_eq_true, Table.any_eq_true, Option.any_eq_true, List.any_eq_true, Bool.and_eq_true,
    decide_eq_true_eq]
  exact Or.inr ⟨f, hf, a, ha, item, hi, hid, hd⟩

theorem watchesFolder_of_row {w : World P} {f : Flight} {a : SyncResult} (hf : f ∈ w.flights)
    (ha : f.answer = some a) (ho : Outstanding opens u w.server.db.toVault w.commits f a) {i : Id}
    (hr : ∃ r, (folderAnswer opens f.since a).rows i = some r ∧ goneFolder r = false) :
    w.watchesFolder i = true := by
  obtain ⟨r, hr, hg⟩ := hr
  obtain ⟨hmem, hid⟩ := (answerOf_rows ho.nodup_folders).mp hr
  obtain ⟨folder, hi, rfl⟩ := List.mem_map.mp hmem
  have hd : folder.deletedAt.isNone = true := by simpa [isTombstone, decryptFolder] using hg
  unfold World.watchesFolder
  simp only [Bool.or_eq_true, Table.any_eq_true, Option.any_eq_true, List.any_eq_true, Bool.and_eq_true,
    decide_eq_true_eq]
  exact Or.inr ⟨f, hf, a, ha, folder, hi, hid, hd⟩

theorem tracking_start : Tracking opens u (World.start (P := P)) where
  evolved := Evolves.refl _
  items := ⟨le_refl _, fun _ => Or.inr rfl⟩
  folders := ⟨le_refl _, fun _ => Or.inr rfl⟩
  begun _ hf := absurd hf (Table.mem_empty _)
  answers _ hf := absurd hf (Table.mem_empty _)

theorem tracking_server {w : World P} {c : Command} (ht : Tracking opens u w)
    (hd : Server.Draws w.server.issued c.draws) (hs : Steady u w (.server c)) :
    Tracking opens u (w.next opens u (.server c)) := by
  have heff : Effect w.server.db c (w.server.after c).db.toVault := command_effect c w.server.db
  have hev : Evolves w.server.db.toVault (w.server.after c).db.toVault := step_evolves ⟨hd, rfl⟩
  have hitems := (itemFeed_later hev u).map (decryptRecord opens)
  have hfolders := (folderFeed_later hev u).map (decryptFolder opens)
  refine ⟨ht.evolved.trans hev, ?_, ?_, ?_, ?_⟩
  · refine Feed.tracks_later hitems ht.items (retains_items heff fun item hi hv hq => ?_)
    exact hs.1 item hi hv (Bool.or_eq_true_iff.mpr (Or.inl hq))
  · exact Feed.tracks_later hfolders ht.folders
      (retains_folders heff fun folder hf hu hq => hs.2 folder hf hu (Bool.or_eq_true_iff.mpr (Or.inl hq)))
  · intro f hf
    have hle : f.begun ≤ w.commits := ht.begun f hf
    change f.begun ≤ if _ then w.commits else w.commits + 1
    split
    · exact hle
    · exact Nat.le_succ_of_le hle
  · intro f (hf : f ∈ w.flights) a ha
    have ho := ht.answers f hf a ha
    refine ⟨ho.read, ?_, ?_, ?_⟩
    · exact Feed.sound_later hitems ho.items
        (retains_items heff fun item hi hv hq => hs.1 item hi hv (watches_of_row hf ha ho hq))
    · exact Feed.sound_later hfolders ho.folders
        (retains_folders heff fun folder hf' hu hq => hs.2 folder hf' hu (watchesFolder_of_row hf ha ho hq))
    · intro hb
      have hle := ht.begun f hf
      change f.begun = (if _ then w.commits else w.commits + 1) at hb
      split at hb
      · rename_i hv
        exact (ho.current hb).trans (congrArg _ hv.symm)
      · exact absurd (hb ▸ hle) (Nat.not_succ_le_self _)

theorem mem_begin {w : World P} {ticket : Nat} {since : Option Int} {f : Flight}
    (hf : f ∈ w.flights.upsert ⟨ticket, since, w.commits, none⟩) :
    f ∈ w.flights ∨ f.begun = w.commits ∧ f.answer = none := by
  rcases Table.mem_upsert.mp hf with ⟨hf, -⟩ | rfl
  · exact Or.inl hf
  · exact Or.inr ⟨rfl, rfl⟩

theorem tracking_begin {w : World P} (ht : Tracking opens u w) (ticket : Nat) (since : Option Int) :
    (∀ f ∈ w.flights.upsert ⟨ticket, since, w.commits, none⟩, f.begun ≤ w.commits) ∧
    ∀ f ∈ w.flights.upsert ⟨ticket, since, w.commits, none⟩, ∀ a, f.answer = some a →
      Outstanding opens u w.server.db.toVault w.commits f a := by
  refine ⟨fun f hf => ?_, fun f hf a ha => ?_⟩
  · rcases mem_begin hf with hf | ⟨hb, -⟩
    · exact ht.begun f hf
    · exact le_of_eq hb
  · rcases mem_begin hf with hf | ⟨-, hn⟩
    · exact ht.answers f hf a ha
    · rw [hn] at ha
      cases ha

theorem outstanding_answer {v : Store.Vault} (hb : v.Bounded) (commits : Nat) (f : Flight) :
    Outstanding opens u v commits f (handleSync u f.since v) where
  read := ⟨v, rfl⟩
  items := itemAnswer_handleSync opens u hb f.since ▸ Feed.sound_answer _ _
  folders := folderAnswer_handleSync opens u hb f.since ▸ Feed.sound_answer _ _
  current _ := rfl

theorem Tracking.bounded {w : World P} (ht : Tracking opens u w) : w.server.db.toVault.Bounded :=
  bounded_of_fresh ht.evolved

theorem tracking_fetched {w : World P} {f : Flight} {a : SyncResult} (ht : Tracking opens u w)
    (ho : Outstanding opens u w.server.db.toVault w.commits f a)
    (hc : ∀ c, f.since = some c → c ≤ w.state.revision) :
    Feed.Tracks goneItem (recordFeed opens u w.server.db.toVault)
      (reader a.revision (w.state.fetched opens f.since a).items) ∧
    Feed.Tracks goneFolder (folderRecordFeed opens u w.server.db.toVault)
      (reader a.revision (w.state.fetched opens f.since a).folders) := by
  have hitems := Feed.tracks_apply ht.items ho.items hc
  have hfolders := Feed.tracks_apply ht.folders ho.folders hc
  unfold itemAnswer goneItem at hitems
  unfold folderAnswer goneFolder at hfolders
  rw [← reader_merge ho.nodup_items] at hitems
  rw [← reader_merge ho.nodup_folders] at hfolders
  exact ⟨hitems, hfolders⟩

theorem tracking_step {w w' : World P} {e : Event} (h : World.step opens u w e w') (hs : Steady u w e)
    (ht : Tracking opens u w) : Tracking opens u w' := by
  obtain ⟨he, rfl⟩ := h
  cases e with
  | server c => exact tracking_server ht (of_decide_eq_true he) hs
  | load =>
    obtain ⟨hb, ha⟩ := tracking_begin ht w.nextTicket none
    exact ⟨ht.evolved, ht.items, ht.folders, hb, ha⟩
  | resync =>
    obtain ⟨hb, ha⟩ := tracking_begin ht w.nextTicket (some w.state.revision)
    exact ⟨ht.evolved, ht.items, ht.folders, hb, ha⟩
  | answer ticket =>
    refine ⟨ht.evolved, ht.items, ht.folders, fun f hf => ?_, fun f hf a ha => ?_⟩
    · simp only [World.next, Table.mem_update] at hf
      rcases hf with ⟨hf, -⟩ | ⟨f₀, hf₀, -, rfl⟩
      · exact ht.begun f hf
      · exact ht.begun f₀ hf₀
    · simp only [World.next, Table.mem_update] at hf
      rcases hf with ⟨hf, -⟩ | ⟨f₀, -, -, rfl⟩
      · exact ht.answers f hf a ha
      · cases ha
        exact outstanding_answer ht.bounded w.commits { f₀ with answer := _ }
  | apply ticket =>
    simp only [World.enabled, Option.any_eq_true] at he
    obtain ⟨f, hf, ha⟩ := he
    obtain ⟨a, ha⟩ := Option.isSome_iff_exists.mp ha
    have hc : ∀ c, f.since = some c → c ≤ w.state.revision := by simpa [Steady, hf, Option.all_eq_true] using hs
    obtain ⟨hitems, hfolders⟩ := tracking_fetched ht (ht.answers f (Table.get?_eq_some.mp hf).1 a ha) hc
    simp only [World.next, hf, ha, Option.bind_some, Option.map_some]
    exact ⟨ht.evolved, hitems, hfolders, fun g hg => ht.begun g (Table.mem_delete.mp hg).1,
      fun g hg => ht.answers g (Table.mem_delete.mp hg).1⟩
  | fail ticket message =>
    exact ⟨ht.evolved, ht.items, ht.folders, fun g hg => ht.begun g (Table.mem_delete.mp hg).1,
      fun g hg => ht.answers g (Table.mem_delete.mp hg).1⟩

end

/-! ## Convergence -/

/-- The store holds exactly the live rows the user sees, as its keys open them. -/
structure Converged (state : VaultState P) (v : Store.Vault) : Prop where
  items : ∀ r, r ∈ state.items ↔
    ∃ item ∈ v.items, v.visibleItemsClause u item = true ∧ item.deletedAt = none ∧ r = decryptRecord opens item
  folders : ∀ r, r ∈ state.folders ↔
    ∃ folder ∈ v.folders, folder.userID = u ∧ folder.deletedAt = none ∧ r = decryptFolder opens folder

variable {opens u}

theorem live_record {v : Store.Vault} {k : Id} {r : ItemRecord P} :
    (recordFeed opens u v).live goneItem k = some r ↔ ∃ item ∈ v.items, item.id = k ∧
      v.visibleItemsClause u item = true ∧ item.deletedAt = none ∧ r = decryptRecord opens item := by
  rw [Feed.live_eq_some]
  unfold recordFeed
  simp only [Feed.map_entry]
  constructor
  · rintro ⟨s, ⟨item, he, rfl⟩, hg⟩
    obtain ⟨hi, hid, hs⟩ := itemFeed_entry.mp he
    refine ⟨item, hi, hid, ?_, ?_, rfl⟩
    · rw [← stampFor_isSome, hs]
      rfl
    · simpa [isTombstone, decryptRecord] using hg
  · rintro ⟨item, hi, hid, hv, hd, rfl⟩
    rw [← stampFor_isSome, Option.isSome_iff_exists] at hv
    obtain ⟨s, hs⟩ := hv
    exact ⟨s, ⟨item, itemFeed_entry.mpr ⟨hi, hid, hs⟩, rfl⟩, by simp [isTombstone, decryptRecord, hd]⟩

theorem live_folderRecord {v : Store.Vault} {k : Id} {r : FolderRecord} :
    (folderRecordFeed opens u v).live goneFolder k = some r ↔ ∃ folder ∈ v.folders, folder.id = k ∧
      folder.userID = u ∧ folder.deletedAt = none ∧ r = decryptFolder opens folder := by
  rw [Feed.live_eq_some]
  unfold folderRecordFeed
  simp only [Feed.map_entry]
  constructor
  · rintro ⟨s, ⟨folder, he, rfl⟩, hg⟩
    obtain ⟨hf, hid, hu, -⟩ := folderFeed_entry.mp he
    exact ⟨folder, hf, hid, hu, by simpa [isTombstone, decryptFolder] using hg, rfl⟩
  · rintro ⟨folder, hf, hid, hu, hd, rfl⟩
    exact ⟨_, ⟨folder, folderFeed_entry.mpr ⟨hf, hid, hu, rfl⟩, rfl⟩, by simp [isTombstone,
      decryptFolder, hd]⟩

theorem converged_of_tracking {w : World P} (ht : Tracking opens u w)
    (hc : w.state.revision = w.server.db.revisionSequence) : Converged opens u w.state w.server.db.toVault where
  items r := by
    have h := Feed.converged (A := recordFeed opens u _) ((itemFeed_bounded ht.bounded u).map (decryptRecord opens))
      ht.items hc r.id
    have hmem : r ∈ w.state.items ↔ w.state.items.get? r.id = some r :=
      (Table.get?_eq_some.trans (and_iff_left rfl)).symm
    rw [hmem, show w.state.items.get? r.id = _ from h, live_record]
    refine exists_congr fun item => and_congr_right fun _ => ?_
    constructor
    · exact fun h => h.2
    · rintro ⟨hv, hd, rfl⟩
      exact ⟨rfl, hv, hd, rfl⟩
  folders r := by
    have h := Feed.converged (A := folderRecordFeed opens u _)
      ((folderFeed_bounded ht.bounded u).map (decryptFolder opens)) ht.folders hc r.id
    have hmem : r ∈ w.state.folders ↔ w.state.folders.get? r.id = some r :=
      (Table.get?_eq_some.trans (and_iff_left rfl)).symm
    rw [hmem, show w.state.folders.get? r.id = _ from h, live_folderRecord]
    refine exists_congr fun folder => and_congr_right fun _ => ?_
    constructor
    · exact fun h => h.2
    · rintro ⟨hu, hd, rfl⟩
      exact ⟨rfl, hu, hd, rfl⟩

def World.undisturbed (w : World P) (ticket : Nat) : Bool :=
  (w.flights.get? ticket).any fun f => f.answer.isSome && f.begun = w.commits

/-- **A resync converges.** In every run whose commands take nothing watched out
of the client's sight, and in which no resync is merged over an older state than
it was asked from, a sync that completes with no write beside it leaves the
client with exactly the live rows the user sees. -/
theorem sync_converges {es : List Event} {w w' : World P} {ticket : Nat}
    (hr : Lts.Run (Lts.Guarded (World.step opens u) (Steady u)) World.start es w) (hu : w.undisturbed ticket = true)
    (he : Lts.Guarded (World.step opens u) (Steady u) w (.apply ticket) w') :
    Converged opens u w'.state w'.server.db.toVault := by
  have ht : Tracking opens u w :=
    hr.inv (P := Tracking opens u) (fun _ _ _ h => tracking_step h.1 h.2) tracking_start
  have ht' := tracking_step he.1 he.2 ht
  apply converged_of_tracking ht'
  simp only [World.undisturbed, Option.any_eq_true, Bool.and_eq_true, decide_eq_true_eq] at hu
  obtain ⟨f, hf, ha, hb⟩ := hu
  obtain ⟨a, ha⟩ := Option.isSome_iff_exists.mp ha
  rw [he.1.2]
  have hcur := (ht.answers f (Table.get?_eq_some.mp hf).1 a ha).current hb
  simp only [World.next, hf, ha, Option.bind_some, Option.map_some]
  exact congrArg SyncResult.revision hcur

end

/-! Bob's client holds an item of the collection ann takes him out of. -/

def opensAll : Opens String where
  item item := some item.ciphertext
  folder folder := some folder.encryptedName
  collection _ := true

def World.script (w : World String) (es : List Event) : World String := es.foldl (World.next opensAll "bob") w

def bobSynced : List Event := householdShared.map .server ++ [.load, .answer 0, .apply 0]

def bobRemoved : List Event :=
  bobSynced ++ [.server (.removeMember 0 "audit-4" "family" "bob" "ann"), .resync, .answer 1]

def bobsWifi : ItemRecord String := ⟨"wifi", 4, some "family", none, some "ciphertext"⟩

theorem removed_member_keeps_item :
    ¬ ∀ (P : Type) (opens : Opens P) (u : Id) (es : List Event) (w w' : World P) (ticket : Nat),
      (∀ item, (opens.item item).isSome = true) → (∀ folder, (opens.folder folder).isSome = true) →
      Lts.Run (World.step opens u) World.start es w → w.undisturbed ticket = true →
      (w.flights.get? ticket).all (·.since.isSome) = true → World.step opens u w (.apply ticket) w' →
      Converged opens u w'.state w'.server.db.toVault := by
  intro h
  have hr : Lts.Run (World.step opensAll "bob") World.start bobRemoved (World.start.script bobRemoved) :=
    Lts.run_script (by decide)
  have hc := h String opensAll "bob" bobRemoved _ _ 1 (fun _ => rfl) (fun _ => rfl) hr (by decide) (by decide)
    ⟨by decide, rfl⟩
  obtain ⟨item, hi, hv, -⟩ := (hc.items bobsWifi).mp (by decide)
  have hnone : ∀ item ∈ (World.start.script (bobRemoved ++ [.apply 1])).server.db.items,
      (World.start.script (bobRemoved ++ [.apply 1])).server.db.visibleItemsClause "bob" item = false := by decide
  exact Bool.false_ne_true ((hnone item hi).symm.trans hv)

def bobEdited : List Event :=
  bobSynced ++ [.server (.updateItem 0 "wifi" 4 ⟨none, "ciphertext-2", "wrapped-key-2"⟩), .resync, .answer 1]

theorem sync_converges_edited :
    Converged opensAll "bob" (World.start.script (bobEdited ++ [.apply 1])).state
      (World.start.script (bobEdited ++ [.apply 1])).server.db.toVault :=
  have hr : Lts.Run (Lts.Guarded (World.step opensAll "bob") (Steady "bob")) World.start bobEdited _ :=
    Lts.run_guarded_script (by decide)
  have he : Lts.Guarded (World.step opensAll "bob") (Steady "bob") (World.start.script bobEdited) (.apply 1) _ :=
    ⟨⟨by decide, rfl⟩, by decide⟩
  sync_converges hr (by decide) he

end Keyhole.Vault
