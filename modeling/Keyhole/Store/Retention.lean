import Keyhole.Store.Conflict
import Keyhole.Store.Removal
import Keyhole.Store.Shared
import Mathlib.Algebra.Order.Archimedean.Real.Basic

/-!
# Tombstones outlast a regular device

A row is purged by `deleted_at` and delivered by `revision`. A tombstone that
is written after a sync is past the cursor of that sync, and no purge within
the retention of the sync selects it. What can still take it is the end of
the account it belongs to.
-/

namespace Keyhole.Store
open Sql

namespace Command

/-- What a delete writes into `deleted_at`, before it is rounded. -/
def deletesAt : Command → Option Time
  | deleteItem now _ | deleteFolder now _ => some now
  | _ => none

/-- A delete is stamped at its commit. The purge names the retention, and has read the clock by its commit. -/
def keepsTime (clock : Time) : Command → Bool
  | deleteItem now _ | deleteFolder now _ => now = clock
  | purgeTombstones now _ olderThan => now ≤ clock && olderThan = tombstoneRetention
  | _ => true

/-- The account of `owner` ends here: a deletion that commits takes every row of
theirs, a reset that commits the personal ones. -/
def closes (db : Db) (owner : Id) (personal : Bool) : Command → Bool
  | resetUser now inviteID auditID token userID actorID =>
    personal && userID = owner && (Store.resetUser now inviteID auditID token userID actorID db).1.isOk
  | deleteUser now auditID userID actorID =>
    userID = owner && (Store.deleteUser now auditID userID actorID db).1.isOk
  | _ => false

end Command

/-! ## Rounding -/

theorem stamp_mono {a b : Time} (h : a ≤ b) : stamp a ≤ stamp b := Nat.mul_le_mul_right _ (Nat.div_le_div_right h)

theorem not_expired {n now deleted olderThan : Time} (hn : now ≤ n + olderThan) (hd : n ≤ deleted) :
    expiredTombstone (stamp (now - olderThan)) (some (stamp deleted)) = false := by
  have hle : now - olderThan ≤ deleted := (Nat.sub_le_iff_le_add.mpr hn).trans hd
  rw [expiredTombstone, Option.any_some, decide_eq_false_iff_not]
  exact not_lt.mpr (stamp_mono hle)

/-! ## The two kinds of tombstone -/

/-- What items and folders have in common as tombstones, with the laws of the
commands on them. -/
structure TombstoneKind where
  Row : Type
  id : Row → Id
  revision : Row → Int
  deletedAt : Row → Option Time
  owner : Row → Id
  personal : Row → Bool
  rows : Vault → Table id
  sees : Vault → Id → Row → Bool
  answered : SyncResult → List Row
  known {s : Server} : s.Known → ∀ r ∈ rows s.db.toVault, id r ∈ s.issued
  origin {db : Db} {c : Command} {v' : Vault} :
    Effect db c v' → ∀ r ∈ rows v', Origin id deletedAt c.draws (rows db.toVault) r
  wrote {v v' : Vault} : Evolves v v' → Wrote revision v.revisionSequence v'.revisionSequence (rows v) (rows v')
  stamped {db : Db} {c : Command} {v' : Vault} : Effect db c v' → ∀ r ∈ rows v', ∀ t, deletedAt r = some t →
    r ∈ rows db.toVault ∨ ∃ now, c.deletesAt = some now ∧ t = stamp now
  kept {db : Db} {c : Command} {u : Id} {row : Row} : (∀ d, (c.run db).isMember u d = db.isMember u d) →
    row ∈ rows db.toVault → sees db.toVault u row = true → deletedAt row ≠ none →
    c.closes db (owner row) (personal row) = false → c.purges (deletedAt row) = false →
    ∃ r ∈ rows (c.run db).toVault, id r = id row ∧ sees (c.run db).toVault u r = true
  closed {db : Db} {c : Command} {row : Row} : c.closes db (owner row) (personal row) = true →
    row ∉ rows (c.run db).toVault
  answers {v : Vault} {u : Id} {since : Int} {row : Row} : row ∈ rows v → sees v u row = true →
    since < revision row → row ∈ answered (v.syncSince u since)
  answered_mem {v : Vault} {u : Id} {since : Int} {row : Row} : row ∈ answered (v.syncSince u since) →
    row ∈ rows v

theorem resetUser_outcome {now : Time} {inviteID auditID : Id} {token : String} {userID actorID : Id} {db : Db}
    {r : Except StoreError String × Db} (h : resetUser now inviteID auditID token userID actorID db = r) :
    r.1.isOk = false ∧ r.2 = db ∨
    r.1.isOk = true ∧ (∀ item ∈ r.2.items, ¬ (item.ownerUserID = userID ∧ item.collectionID = none)) ∧
      ∀ folder ∈ r.2.folders, folder.userID ≠ userID := by
  subst h
  unfold resetUser
  rcases Prog.transact_cases (resetUserTx now inviteID auditID token userID actorID) db with
    ⟨t, db', hx, ht⟩ | ⟨e, ht⟩
  · obtain ⟨-, u, invites, auditLog, -, -, -, -, rfl⟩ := resetUserTx_ok hx
    rw [ht]
    refine Or.inr ⟨rfl, fun item hi => ?_, fun folder hf => ?_⟩
    · simpa using (Table.mem_delete.mp hi).2
    · simpa using (Table.mem_delete.mp hf).2
  · rw [ht]
    exact Or.inl ⟨rfl, rfl⟩

theorem deleteUser_outcome {now : Time} {auditID userID actorID : Id} {db : Db} {r : Except StoreError Unit × Db}
    (h : deleteUser now auditID userID actorID db = r) :
    r.1.isOk = false ∧ r.2 = db ∨
    r.1.isOk = true ∧ (∀ item ∈ r.2.items, item.ownerUserID ≠ userID) ∧
      ∀ folder ∈ r.2.folders, folder.userID ≠ userID := by
  subst h
  unfold deleteUser
  rcases Prog.transact_cases (deleteUserTx now auditID userID actorID) db with ⟨r, db', hx, ht⟩ | ⟨e, ht⟩
  · obtain ⟨auditLog, -, rfl⟩ := deleteUserTx_ok hx
    rw [ht]
    refine Or.inr ⟨rfl, fun item hi => ?_, fun folder hf => ?_⟩
    · simpa using (Table.mem_delete.mp hi).2
    · simpa using (Table.mem_delete.mp hf).2
  · rw [ht]
    exact Or.inl ⟨rfl, rfl⟩

section
variable {db : Db} {c : Command} {v' : Vault} {u : Id}

theorem item_stamped (h : Effect db c v') {item : Item} (hi : item ∈ v'.items) {t : Time}
    (ht : item.deletedAt = some t) : item ∈ db.items ∨ ∃ now, c.deletesAt = some now ∧ t = stamp now := by
  cases h with
  | still | folderCreated | folderUpdated | folderDeleted | collectionCreated | memberAdded | memberRemoved =>
    exact Or.inl hi
  | created new hv hm hn =>
    refine Or.inl (((hm item).mp hi).resolve_right fun hnew => ?_)
    rw [(hn item hnew).2.2.1] at ht
    cases ht
  | itemUpdated hv current hg hd =>
    rcases Table.mem_upsert.mp hi with ⟨h, -⟩ | rfl
    · exact Or.inl h
    · -- an update writes live rows only
      change current.deletedAt = some t at ht
      rw [hd] at ht
      cases ht
  | itemDeleted current =>
    rcases Table.mem_upsert.mp hi with ⟨h, -⟩ | rfl
    · exact Or.inl h
    · cases ht
      exact Or.inr ⟨_, rfl, rfl⟩
  | collectionDeleted | reset | userDeleted | purged => exact Or.inl (Table.mem_delete.mp hi).1

theorem folder_stamped (h : Effect db c v') {folder : Folder} (hf : folder ∈ v'.folders) {t : Time}
    (ht : folder.deletedAt = some t) : folder ∈ db.folders ∨ ∃ now, c.deletesAt = some now ∧ t = stamp now := by
  cases h with
  | still | itemUpdated | itemDeleted | collectionCreated | collectionDeleted | memberAdded | memberRemoved =>
    exact Or.inl hf
  | created new hv => rw [hv] at hf; exact Or.inl hf
  | folderCreated row hi hid hr hd =>
    refine Or.inl (((Table.mem_insert? hi).mp hf).resolve_right ?_)
    rintro rfl
    rw [hd] at ht
    cases ht
  | folderUpdated current hg hd =>
    rcases Table.mem_upsert.mp hf with ⟨h, -⟩ | rfl
    · exact Or.inl h
    · change current.deletedAt = some t at ht
      rw [hd] at ht
      cases ht
  | folderDeleted current =>
    rcases Table.mem_upsert.mp hf with ⟨h, -⟩ | rfl
    · exact Or.inl h
    · cases ht
      exact Or.inr ⟨_, rfl, rfl⟩
  | reset | userDeleted | purged => exact Or.inl (Table.mem_delete.mp hf).1

theorem reset_unclosed {now : Time} {inviteID auditID : Id} {token : String} {v actor : Id}
    (h : (Command.resetUser now inviteID auditID token v actor).closes db v true = false) :
    (Command.resetUser now inviteID auditID token v actor).run db = db := by
  rcases @resetUser_outcome now inviteID auditID token v actor db _ rfl with ⟨-, hsame⟩ | ⟨hok, -⟩
  · exact hsame
  · simp [Command.closes, hok] at h

theorem delete_unclosed {now : Time} {auditID v actor : Id} {personal : Bool}
    (h : (Command.deleteUser now auditID v actor).closes db v personal = false) :
    (Command.deleteUser now auditID v actor).run db = db := by
  rcases @deleteUser_outcome now auditID v actor db _ rfl with ⟨-, hsame⟩ | ⟨hok, -⟩
  · exact hsame
  · simp [Command.closes, hok] at h

theorem item_tombstone_kept (hm : ∀ d, (c.run db).isMember u d = db.isMember u d) {item : Item}
    (hi : item ∈ db.items) (hv : db.visibleItemsClause u item = true) (hd : item.deletedAt ≠ none)
    (hc : c.closes db item.ownerUserID (item.collectionID = none) = false) (hp : c.purges item.deletedAt = false) :
    ∃ row ∈ (c.run db).items, row.id = item.id ∧ (c.run db).visibleItemsClause u row = true := by
  by_cases hu : c.uproots db u item = false
  · exact visible_kept (command_effect c db) hm hi hv hu hp
  · -- an update passes tombstones by; what does not close the account did not commit
    have hsame : c.run db = db := by
      rw [Bool.not_eq_false] at hu
      unfold Command.uproots at hu
      split at hu
      · simp [hd] at hu
      · simp only [Bool.and_eq_true, decide_eq_true_eq] at hu
        obtain ⟨⟨-, rfl⟩, hn⟩ := hu
        simp only [hn, decide_true] at hc
        exact reset_unclosed hc
      · simp only [Bool.and_eq_true, decide_eq_true_eq] at hu
        obtain ⟨-, rfl⟩ := hu
        exact delete_unclosed hc
      · cases hu
    rw [hsame]
    exact ⟨item, hi, rfl, hv⟩

theorem folder_tombstone_kept {folder : Folder} (hf : folder ∈ db.folders)
    (hc : c.closes db folder.userID true = false) (hp : c.purges folder.deletedAt = false) :
    ∃ row ∈ (c.run db).folders, row.id = folder.id ∧ row.userID = folder.userID := by
  by_cases ht : c.takesFolder db folder = false
  · exact folder_kept (command_effect c db) hf ht
  · have hsame : c.run db = db := by
      rw [Bool.not_eq_false] at ht
      unfold Command.takesFolder at ht
      split at ht
      · simp only [Bool.and_eq_true, decide_eq_true_eq] at ht
        obtain ⟨-, rfl⟩ := ht
        exact reset_unclosed hc
      · simp only [Bool.and_eq_true, decide_eq_true_eq] at ht
        obtain ⟨-, rfl⟩ := ht
        exact delete_unclosed hc
      · rw [hp] at ht
        cases ht
    rw [hsame]
    exact ⟨folder, hf, rfl, rfl⟩

theorem closed_rows {owner : Id} {personal : Bool} (hc : c.closes db owner personal = true) :
    (∀ item ∈ (c.run db).items, item.ownerUserID = owner → personal = true ∧ item.collectionID ≠ none) ∧
    ∀ folder ∈ (c.run db).folders, folder.userID ≠ owner := by
  unfold Command.closes at hc
  split at hc
  · rename_i now inviteID auditID token v actor
    simp only [Bool.and_eq_true, decide_eq_true_eq] at hc
    obtain ⟨⟨hpersonal, rfl⟩, hok⟩ := hc
    rcases @resetUser_outcome now inviteID auditID token v actor db _ rfl with ⟨herr, -⟩ | ⟨-, hitems, hfolders⟩
    · rw [herr] at hok
      cases hok
    · exact ⟨fun item hi ho => ⟨hpersonal, fun hn => hitems item hi ⟨ho, hn⟩⟩, hfolders⟩
  · rename_i now auditID v actor
    simp only [Bool.and_eq_true, decide_eq_true_eq] at hc
    obtain ⟨rfl, hok⟩ := hc
    rcases @deleteUser_outcome now auditID v actor db _ rfl with ⟨herr, -⟩ | ⟨-, hitems, hfolders⟩
    · rw [herr] at hok
      cases hok
    · exact ⟨fun item hi ho => absurd ho (hitems item hi), hfolders⟩
  · cases hc

end

def itemTombstones : TombstoneKind where
  Row := Item
  id := Item.id
  revision := Item.revision
  deletedAt := Item.deletedAt
  owner := Item.ownerUserID
  personal item := item.collectionID = none
  rows v := v.items
  sees := Vault.visibleItemsClause
  answered r := r.items
  known h := h.items
  origin h _ := item_origin h
  wrote h := h.items
  stamped h _ hi _ ht := item_stamped h hi ht
  kept hm hi hv hd hc hp := item_tombstone_kept hm hi hv hd hc hp
  closed hc hi := by
    obtain ⟨hpersonal, hn⟩ := (closed_rows hc).1 _ hi rfl
    exact hn (of_decide_eq_true hpersonal)
  answers hi hv hs := mem_syncItems.mpr ⟨hi, hv, Or.inl hs⟩
  answered_mem h := (mem_syncItems.mp h).1

def folderTombstones : TombstoneKind where
  Row := Folder
  id := Folder.id
  revision := Folder.revision
  deletedAt := Folder.deletedAt
  owner := Folder.userID
  personal _ := true
  rows v := v.folders
  sees _ userID folder := folder.userID = userID
  answered r := r.folders
  known h := h.folders
  origin h _ := folder_origin h
  wrote h := h.folders
  stamped h _ hf _ ht := folder_stamped h hf ht
  kept _ hf hv _ hc hp := by
    obtain ⟨row, hr, hid, hu⟩ := folder_tombstone_kept hf hc hp
    exact ⟨row, hr, hid, by rw [hu]; exact hv⟩
  closed hc hf := (closed_rows hc).2 _ hf rfl
  answers hf hv hs := mem_syncFolders.mpr ⟨hf, of_decide_eq_true hv, hs⟩
  answered_mem h := (mem_syncFolders.mp h).1

/-! ## Time -/

structure Timeline where
  server : Server
  clock : ℝ

namespace Timeline

abbrev db (w : Timeline) : Db := w.server.db

inductive Event
  | command (time : ℝ) (c : Command)
  | sync (time : ℝ) (userID : Id) (since : Int) (answer : SyncResult)

/-- The clock is a real, in nanoseconds, that does not go back. The store reads it in whole ones. -/
inductive Step : Timeline → Event → Timeline → Prop
  | command {w : Timeline} {time : ℝ} {c : Command} {s' : Server} (ht : w.clock ≤ time)
      (hk : c.keepsTime ⌊time⌋₊ = true) (hs : Server.step w.server c s') : Step w (.command time c) ⟨s', time⟩
  | sync {w : Timeline} {time : ℝ} (ht : w.clock ≤ time) (userID : Id) (since : Int) :
      Step w (.sync time userID since (w.db.syncSince userID since)) ⟨w.server, time⟩

def init (w : Timeline) : Prop := w.server = Server.fresh

def KeepsMemberships (userID : Id) (w : Timeline) : Event → Prop
  | .command _ c => ∀ d, (c.run w.db).isMember userID d = w.db.isMember userID d
  | .sync .. => True

def Spares (owner : Id) (personal : Bool) (w : Timeline) : Event → Prop
  | .command _ c => c.closes w.db owner personal = false
  | .sync .. => True

theorem step_det {w w' w'' : Timeline} {e : Event} (h : Step w e w') (h' : Step w e w'') : w' = w'' := by
  cases h with
  | command ht hk hs =>
    cases h' with
    | command ht' hk' hs' => rw [hs.2, hs'.2]
  | sync => cases h'; rfl

theorem step_clock {w w' : Timeline} {e : Event} (h : Step w e w') : w.clock ≤ w'.clock := by
  cases h with
  | command ht => exact ht
  | sync ht => exact ht

theorem run_clock {w w' : Timeline} {es : List Event} (h : Lts.Run Step w es w') : w.clock ≤ w'.clock :=
  Lts.Run.rel (R := fun w w' : Timeline => w.clock ≤ w'.clock) (fun _ => le_refl _) (fun _ _ _ => le_trans)
    (fun _ _ _ => step_clock) h

theorem step_server {P : Server → Prop} (hP : ∀ s c s', Server.step s c s' → P s → P s') {w w' : Timeline}
    {e : Event} (h : Step w e w') (hp : P w.server) : P w'.server := by
  cases h with
  | command ht hk hs => exact hP _ _ _ hs hp
  | sync => exact hp

theorem reachable_known {w : Timeline} (h : Lts.Reachable init Step w) : w.server.Known := by
  refine Lts.Reachable.inv (P := fun w : Timeline => w.server.Known) ?_ ?_ h
  · rintro w hw
    rw [show w.server = Server.fresh from hw]
    exact Keyhole.Store.reachable_known ⟨Server.fresh, [], rfl, .nil _⟩
  · exact fun w e w' => step_server (P := Server.Known) fun _ _ _ => step_known

theorem run_evolves {w w' : Timeline} {es : List Event} (h : Lts.Run Step w es w') :
    Evolves w.db.toVault w'.db.toVault := by
  refine Lts.Run.rel (R := fun w w' : Timeline => Evolves w.db.toVault w'.db.toVault)
    (fun w => Evolves.refl w.db.toVault) (fun _ _ _ => Evolves.trans) ?_ h
  intro w e w' h
  cases h with
  | command ht hk hs => exact step_evolves hs
  | sync => exact Evolves.refl w.db.toVault

end Timeline

namespace TombstoneKind
open Timeline

variable (K : TombstoneKind) {u : Id} {row : K.Row}

/-! ## A tombstone that is in sight stays there -/

def Held (u : Id) (row : K.Row) (s : Server) : Prop :=
  row ∈ K.rows s.db.toVault ∧ K.sees s.db.toVault u row = true ∧ K.id row ∈ s.issued

theorem held_step {s s' : Server} {c : Command} (h : Server.step s c s')
    (hm : ∀ d, (c.run s.db).isMember u d = s.db.isMember u d) (hd : K.deletedAt row ≠ none)
    (hc : c.closes s.db (K.owner row) (K.personal row) = false) (hp : c.purges (K.deletedAt row) = false)
    (hh : K.Held u row s) : K.Held u row s' := by
  obtain ⟨hr, hv, hk⟩ := hh
  obtain ⟨r, hmem, hid, hsees⟩ := K.kept hm hr hv hd hc hp
  obtain ⟨hdraw, rfl⟩ := h
  have hsame : r = row := buried_step hdraw (K.origin (command_effect c s.db)) hk hd
    (fun x hx hxid => Table.eq_of_key hx hr hxid) r hmem hid
  subst hsame
  exact ⟨hmem, hsees, List.mem_append_right _ hk⟩

theorem held_run (hd : K.deletedAt row ≠ none) {p q : Timeline} {es : List Event}
    (hr : Lts.Run
      (Lts.Guarded Step fun w e => KeepsMemberships u w e ∧ Spares (K.owner row) (K.personal row) w e) p es q)
    (hp : ∀ time c, .command time c ∈ es → c.purges (K.deletedAt row) = false) (hh : K.Held u row p.server) :
    K.Held u row q.server := by
  induction hr with
  | nil => exact hh
  | @cons p p' q e es he _ ih =>
    refine ih (fun time c hc => hp time c (List.mem_cons_of_mem _ hc)) ?_
    obtain ⟨hstep, hm, hc⟩ := he
    cases hstep with
    | command ht hk hs => exact K.held_step hs hm hd hc (hp _ _ List.mem_cons_self) hh
    | sync => exact hh

/-! ## A row that is taken is gone for good -/

def Buried (row : K.Row) (s : Server) : Prop :=
  K.id row ∈ s.issued ∧ ∀ r ∈ K.rows s.db.toVault, K.id r = K.id row → r = row

def Gone (row : K.Row) (s : Server) : Prop :=
  K.id row ∈ s.issued ∧ ∀ r ∈ K.rows s.db.toVault, K.id r ≠ K.id row

theorem buried_kept (hd : K.deletedAt row ≠ none) {s s' : Server} {c : Command} (h : Server.step s c s')
    (hb : K.Buried row s) : K.Buried row s' := by
  obtain ⟨hdraw, rfl⟩ := h
  refine ⟨List.mem_append_right _ hb.1, ?_⟩
  exact buried_step hdraw (K.origin (command_effect c s.db)) hb.1 hd hb.2

theorem gone_kept {s s' : Server} {c : Command} (h : Server.step s c s') (hg : K.Gone row s) : K.Gone row s' := by
  obtain ⟨hdraw, rfl⟩ := h
  refine ⟨List.mem_append_right _ hg.1, fun r hr hid => ?_⟩
  rcases K.origin (command_effect c s.db) r hr with h | h | ⟨x, hx, hxid, -⟩
  · exact hg.2 r h hid
  · exact (hdraw.2 _ h).2 (hid ▸ hg.1)
  · exact hg.2 x hx (hxid.trans hid)

theorem closed_gone (hd : K.deletedAt row ≠ none) {s s' : Server} {c : Command} (h : Server.step s c s')
    (hb : K.Buried row s) (hc : c.closes s.db (K.owner row) (K.personal row) = true) : K.Gone row s' := by
  have hb' := K.buried_kept hd h hb
  obtain ⟨-, rfl⟩ := h
  refine ⟨hb'.1, fun r hr hid => ?_⟩
  have hsame := hb'.2 r hr hid
  subst hsame
  exact K.closed hc hr

theorem spared_of_present (hd : K.deletedAt row ≠ none) {p q : Timeline} {es : List Event}
    (hr : Lts.Run Step p es q) (hb : K.Buried row p.server) (hq : row ∈ K.rows q.db.toVault) :
    Lts.Run (Lts.Guarded Step (Spares (K.owner row) (K.personal row))) p es q := by
  induction hr with
  | nil p => exact .nil p
  | @cons p p' q e es he hrest ih =>
    have hb' := step_server (P := K.Buried row) (fun _ _ _ => K.buried_kept hd) he hb
    refine .cons ⟨he, ?_⟩ (ih hb' hq)
    cases he with
    | sync => trivial
    | @command time c s' ht hk hs =>
      -- had the account ended here, the row would be missing from every later state
      by_contra hc
      have hg := K.closed_gone hd hs hb (eq_true_of_ne_false hc)
      have hgone : K.Gone row q.server :=
        hrest.inv (P := fun w => K.Gone row w.server) (fun _ _ _ => step_server fun _ _ _ => K.gone_kept) hg
      exact hgone.2 row hq rfl

/-! ## Age -/

/-- Each tombstone that was not there in `w` was deleted at `n` or later. -/
def Young (w : Timeline) (n : Time) (x : Timeline) : Prop :=
  n ≤ ⌊x.clock⌋₊ ∧ ∀ r ∈ K.rows x.db.toVault, ∀ t, K.deletedAt r = some t →
    r ∈ K.rows w.db.toVault ∨ ∃ deleted, n ≤ deleted ∧ t = stamp deleted

theorem young_step {w x x' : Timeline} {n : Time} {e : Event} (h : Step x e x') (hy : K.Young w n x) :
    K.Young w n x' := by
  refine ⟨hy.1.trans (Nat.floor_mono (step_clock h)), fun r hr t ht => ?_⟩
  cases h with
  | sync => exact hy.2 r hr t ht
  | @command time c s' hle hk hs =>
    obtain ⟨-, rfl⟩ := hs
    rcases K.stamped (command_effect c x.db) r hr t ht with hold | ⟨now, hc, rfl⟩
    · exact hy.2 r hold t ht
    · refine Or.inr ⟨now, ?_, rfl⟩
      have hnow : now = ⌊time⌋₊ := by
        unfold Command.deletesAt at hc
        split at hc
        · cases hc
          simpa [Command.keepsTime] using hk
        · cases hc
          simpa [Command.keepsTime] using hk
        · cases hc
      rw [hnow]
      exact hy.1.trans (Nat.floor_mono hle)

theorem young_run {w x : Timeline} {es : List Event} (h : Lts.Run Step w es x) : K.Young w ⌊w.clock⌋₊ x := by
  refine h.inv (P := K.Young w ⌊w.clock⌋₊) (fun _ _ _ => K.young_step) ?_
  exact ⟨le_refl _, fun r hr _ _ => Or.inl hr⟩

end TombstoneKind

namespace Timeline

/-- No purge of a run that ends within the retention of `n` selects what was deleted at `n` or later. -/
theorem unpurged {p q : Timeline} {es : List Event} (hr : Lts.Run Step p es q) {n deleted : Time}
    (hq : ⌊q.clock⌋₊ ≤ n + tombstoneRetention) (hd : n ≤ deleted) {time : ℝ} {c : Command}
    (hc : .command time c ∈ es) : c.purges (some (stamp deleted)) = false := by
  induction hr with
  | nil => cases hc
  | @cons p p' q e es he hrest ih =>
    rcases List.mem_cons.mp hc with rfl | hc
    · cases he with
      | command ht hk hs =>
        unfold Command.purges
        split
        · rename_i now auditID olderThan
          simp only [Command.keepsTime, Bool.and_eq_true, decide_eq_true_eq] at hk
          obtain ⟨hnow, rfl⟩ := hk
          have hlast : ⌊time⌋₊ ≤ ⌊q.clock⌋₊ := Nat.floor_mono (run_clock hrest)
          exact not_expired ((hnow.trans hlast).trans hq) hd
        · rfl
    · exact ih hq hc

theorem floor_gap {a b : ℝ} (h : b < a + tombstoneRetention) : ⌊b⌋₊ ≤ ⌊a⌋₊ + tombstoneRetention := by
  have hlt : b < ((⌊a⌋₊ + 1 + tombstoneRetention : ℕ) : ℝ) := by
    push_cast
    exact h.trans (add_lt_add_left (Nat.lt_floor_add_one a) _)
  have := (Nat.floor_lt' (by omega)).mpr hlt
  omega

section
variable {u : Id} {since : Int} {first next : ℝ} {w w₁ p q w₂ : Timeline} {r₁ r₂ : SyncResult}
  {es₁ es₂ : List Event}

theorem kind_returned_iff (K : TombstoneKind) (hw : Lts.Reachable init Step w)
    (hs₁ : Step w (.sync first u since r₁) w₁) (hr₁ : Lts.Run Step w₁ es₁ p)
    (hr₂ : Lts.Run (Lts.Guarded Step (KeepsMemberships u)) p es₂ q)
    (hs₂ : Step q (.sync next u r₁.revision r₂) w₂) (hgap : next < first + tombstoneRetention) {row : K.Row}
    (hp : row ∈ K.rows p.db.toVault) (hnew : row ∉ K.rows w.db.toVault) (hd : K.deletedAt row ≠ none)
    (hv : K.sees p.db.toVault u row = true) :
    (row ∈ K.answered r₂ ↔ Lts.Run (Lts.Guarded Step (Spares (K.owner row) (K.personal row))) p es₂ q) ∧
      ∀ time c, .command time c ∈ es₂ → c.purges (K.deletedAt row) = false := by
  cases hs₁ with
  | sync hfirst =>
  cases hs₂ with
  | sync hnext =>
  have hrun : Lts.Run Step p es₂ q := hr₂.mono fun _ _ _ h => h.1
  -- a purge by the next sync is too early for the tombstone
  obtain ⟨t, ht⟩ := Option.ne_none_iff_exists'.mp hd
  have hyoung : K.Young ⟨w.server, first⟩ ⌊first⌋₊ p := K.young_run hr₁
  obtain ⟨deleted, hdel, rfl⟩ := (hyoung.2 row hp t ht).resolve_left hnew
  have hpurge : ∀ time c, Event.command time c ∈ es₂ → c.purges (K.deletedAt row) = false := by
    intro time c hc
    rw [ht]
    exact unpurged hrun ((Nat.floor_mono hnext).trans (floor_gap hgap)) hdel hc
  refine ⟨?_, hpurge⟩
  have hknown := K.known (reachable_known (hw.run (.cons (.sync hfirst u since) hr₁))) row hp
  constructor
  · intro hans
    have hb : K.Buried row p.server := ⟨hknown, fun r hr hid => Table.eq_of_key hr hp hid⟩
    exact K.spared_of_present hd hrun hb (K.answered_mem hans)
  · intro hspared
    have hrev : w.db.revisionSequence < K.revision row :=
      (((K.wrote (run_evolves hr₁)) row hp).resolve_left hnew).1
    have hdet : ∀ w e w' w'', Step w e w' → Step w e w'' → w' = w'' := fun _ _ _ _ => step_det
    have hboth := hr₂.both hdet hspared
    obtain ⟨hmem, hsees, -⟩ := K.held_run hd hboth hpurge ⟨hp, hv, hknown⟩
    exact K.answers hmem hsees hrev

/-- **Retention outlasts a regular device.** Let two syncs of a device answer
less than the retention apart, let the user's memberships stay as they are, and
let a tombstone in their sight be written between the two. No purge before the
second sync selects it, and the second sync returns it if and only if the
account it belongs to is not ended before. No purge removes a live row. -/
theorem tombstone_returned_iff (hw : Lts.Reachable init Step w) (hs₁ : Step w (.sync first u since r₁) w₁)
    (hr₁ : Lts.Run (Lts.Guarded Step (KeepsMemberships u)) w₁ es₁ p)
    (hr₂ : Lts.Run (Lts.Guarded Step (KeepsMemberships u)) p es₂ q)
    (hs₂ : Step q (.sync next u r₁.revision r₂) w₂) (hgap : next < first + tombstoneRetention) :
    (∀ item ∈ p.db.items, item ∉ w.db.items → item.deletedAt ≠ none →
      p.db.visibleItemsClause u item = true →
      (item ∈ r₂.items ↔
        Lts.Run (Lts.Guarded Step (Spares item.ownerUserID (item.collectionID = none))) p es₂ q) ∧
      ∀ time c, .command time c ∈ es₂ → c.purges item.deletedAt = false) ∧
    (∀ folder ∈ p.db.folders, folder ∉ w.db.folders → folder.deletedAt ≠ none → folder.userID = u →
      (folder ∈ r₂.folders ↔ Lts.Run (Lts.Guarded Step (Spares folder.userID true)) p es₂ q) ∧
      ∀ time c, .command time c ∈ es₂ → c.purges folder.deletedAt = false) ∧
    ∀ now auditID olderThan db,
      (∀ item ∈ db.items, item.deletedAt = none → item ∈ (purgeTombstones now auditID olderThan db).2.items) ∧
      ∀ folder ∈ db.folders, folder.deletedAt = none →
        folder ∈ (purgeTombstones now auditID olderThan db).2.folders := by
  have hrun : Lts.Run Step w₁ es₁ p := hr₁.mono fun _ _ _ h => h.1
  refine ⟨?_, ?_, ?_⟩
  · intro item hi hnew hd hv
    exact kind_returned_iff itemTombstones hw hs₁ hrun hr₂ hs₂ hgap hi hnew hd hv
  · intro folder hf hnew hd hu
    exact kind_returned_iff folderTombstones hw hs₁ hrun hr₂ hs₂ hgap hf hnew hd (decide_eq_true hu)
  · intro now auditID olderThan db
    obtain ⟨auditLog, h⟩ := purgeTombstones_vault now auditID olderThan db
    rw [h]
    exact ⟨fun item hi hd => Table.mem_delete.mpr ⟨hi, by rw [hd]; rfl⟩,
      fun folder hf hd => Table.mem_delete.mpr ⟨hf, by rw [hd]; rfl⟩⟩

end

theorem run_script {cs : List Command} {s : Server} {n : Time} (h : s.Playable cs)
    (hk : ∀ c ∈ cs, c.keepsTime n = true) :
    Lts.Run Step ⟨s, n⟩ (cs.map (.command n)) ⟨s.script cs, n⟩ := by
  induction cs generalizing s with
  | nil => exact .nil _
  | cons c cs ih =>
    refine .cons (.command (le_refl _) ?_ ⟨h.1, rfl⟩) (ih h.2 fun c hc => hk c (List.mem_cons_of_mem _ hc))
    rw [Nat.floor_natCast]
    exact hk c List.mem_cons_self

theorem memberships_kept {u : Id} {w : Timeline} {time : ℝ} {c : Command}
    (h : ((c.run w.db).memberships.rows.filter fun m => m.userID = u) =
      w.db.memberships.rows.filter fun m => m.userID = u) :
    KeepsMemberships u w (.command time c) := by
  have hmem : ∀ m, m.userID = u → (m ∈ (c.run w.db).memberships ↔ m ∈ w.db.memberships) := by
    intro m hm
    have hf := congrArg (m ∈ ·) h
    change m ∈ (c.run w.db).memberships.rows ↔ m ∈ w.db.memberships.rows
    simpa [List.mem_filter, hm] using hf
  intro d
  rw [Bool.eq_iff_iff, isMember_iff, isMember_iff]
  exact exists_congr fun m => ⟨fun ⟨h, hc, hu⟩ => ⟨(hmem m hu).mp h, hc, hu⟩,
    fun ⟨h, hc, hu⟩ => ⟨(hmem m hu).mpr h, hc, hu⟩⟩

theorem command_at {w : Timeline} {n : Time} {c : Command} (ht : w.clock ≤ n) (hk : c.keepsTime n = true)
    (hs : w.server.enabled c) : Step w (.command n c) ⟨w.server.after c, n⟩ :=
  .command ht (by rw [Nat.floor_natCast]; exact hk) ⟨hs, rfl⟩

/-! Bob deletes the item he created in ann's collection, and is deleted
himself before ann's device syncs again. -/

def contributed : Server := Server.fresh.script bobContributes

theorem contributed_reachable : Lts.Reachable init Step ⟨contributed, (0 : ℕ)⟩ :=
  ⟨⟨Server.fresh, (0 : ℕ)⟩, _, rfl, run_script (by decide) (by decide)⟩

def deletesWifi : Command := .deleteItem 0 "wifi"

def deletesBob : Command := .deleteUser 0 "audit-3" "bob" "ann"

theorem tombstone_lost_with_account :
    ¬ ∀ (u : Id) (since : Int) (first next : ℝ) (w w₁ p q w₂ : Timeline) (r₁ r₂ : SyncResult)
      (es₁ es₂ : List Event),
      Lts.Reachable init Step w → Step w (.sync first u since r₁) w₁ →
      Lts.Run (Lts.Guarded Step (KeepsMemberships u)) w₁ es₁ p →
      Lts.Run (Lts.Guarded Step (KeepsMemberships u)) p es₂ q → Step q (.sync next u r₁.revision r₂) w₂ →
      next < first + tombstoneRetention →
      ∀ item ∈ p.db.items, item ∉ w.db.items → item.deletedAt ≠ none →
        p.db.visibleItemsClause u item = true →
        item ∈ r₂.items := by
  intro h
  have hdeleted : Lts.Run (Lts.Guarded Step (KeepsMemberships "ann")) ⟨contributed, (0 : ℕ)⟩
      [.command (0 : ℕ) deletesWifi] ⟨contributed.after deletesWifi, (0 : ℕ)⟩ :=
    .cons ⟨command_at (le_refl _) (by decide) (by decide), memberships_kept (by decide)⟩ (.nil _)
  have hended : Lts.Run (Lts.Guarded Step (KeepsMemberships "ann")) ⟨contributed.after deletesWifi, (0 : ℕ)⟩
      [.command (0 : ℕ) deletesBob] ⟨(contributed.after deletesWifi).after deletesBob, (0 : ℕ)⟩ :=
    .cons ⟨command_at (le_refl _) (by decide) (by decide), memberships_kept (by decide)⟩ (.nil _)
  have hmem := h "ann" 0 (0 : ℕ) (0 : ℕ) _ _ _ _ _ _ _ _ _ contributed_reachable (.sync (le_refl _) _ _)
    hdeleted hended
    (.sync (le_refl _) _ _) (by norm_num [tombstoneRetention, second])
    ((Item.created 0 "bob" 3 "wifi" ⟨some "family", "ciphertext", "wrapped-key"⟩).deleted 0 4)
    (by decide) (by decide) (by decide) (by decide)
  have hnone : (((contributed.after deletesWifi).after deletesBob).db.syncSince "ann"
      (contributed.db.syncSince "ann" 0).revision).items = [] := by decide
  rw [hnone] at hmem
  cases hmem

/-! Bob stays. The clock reads 1.25 s at the first sync, 1.5 s at the delete
and the retention and 1.2 s at a purge and the second sync: the tombstone and
the cutoff of the purge are both stamped with the first second. -/

def deletesLate : Command := .deleteItem 1500000000 "wifi"

def purgesLater : Command := .purgeTombstones (tombstoneRetention + 1200000000) "audit-3" tombstoneRetention

def lateTombstone : Item :=
  (Item.created 0 "bob" 3 "wifi" ⟨some "family", "ciphertext", "wrapped-key"⟩).deleted 1500000000 4

theorem tombstone_returned_iff_boundary :
    lateTombstone ∈ (((contributed.after deletesLate).after purgesLater).db.syncSince "ann"
      (contributed.db.syncSince "ann" 0).revision).items := by
  have hdeleted : Lts.Run (Lts.Guarded Step (KeepsMemberships "ann")) ⟨contributed, (1250000000 : ℕ)⟩
      [.command (1500000000 : ℕ) deletesLate] ⟨contributed.after deletesLate, (1500000000 : ℕ)⟩ :=
    .cons ⟨command_at (by norm_num) (by decide) (by decide), memberships_kept (by decide)⟩ (.nil _)
  have hpurged : Step ⟨contributed.after deletesLate, (1500000000 : ℕ)⟩
      (.command (tombstoneRetention + 1200000000 : ℕ) purgesLater)
      ⟨(contributed.after deletesLate).after purgesLater, (tombstoneRetention + 1200000000 : ℕ)⟩ :=
    command_at (by norm_num [tombstoneRetention, second]) (by decide) (by decide)
  have hreturned := (tombstone_returned_iff contributed_reachable
    (.sync (by norm_num) "ann" 0) hdeleted (.cons ⟨hpurged, memberships_kept (by decide)⟩ (.nil _))
    (.sync (le_refl _) "ann" _) (by norm_num [tombstoneRetention, second])).1 lateTombstone (by decide) (by decide)
    (by decide) (by decide)
  exact hreturned.1.mpr (.cons ⟨hpurged, rfl⟩ (.nil _))

end Timeline

end Keyhole.Store
