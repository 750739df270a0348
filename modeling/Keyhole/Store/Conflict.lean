import Keyhole.Store.Evolves

/-!
# Compare-and-set on one row

Items and folders are updated and deleted by two implementations of one
protocol. `RowKind` is what the two have in common, `NoLostUpdate` is what
the protocol promises of a kind, and each kind keeps it.
-/

namespace Keyhole.Store
open Sql

structure RowKind where
  Row : Type
  Input : Type
  valid : Input → Prop
  find : Db → Id → Option Row
  revision : Row → Int
  deletedAt : Row → Option Time
  conflict : Row → StoreError
  update : Time → Id → Int → Input → Db → Except StoreError Row × Db
  delete : Time → Id → Db → Except StoreError Row × Db
  updateCommand : Time → Id → Int → Input → Command

def itemKind : RowKind where
  Row := Item
  Input := ItemInput
  valid inp := inp.validate = .ok ()
  find db id := db.items.get? id
  revision := Item.revision
  deletedAt := Item.deletedAt
  conflict := .itemConflict
  update := updateItem
  delete := deleteItem
  updateCommand := .updateItem

def folderKind : RowKind where
  Row := Folder
  Input := String
  valid encryptedName := encryptedName ≠ ""
  find db id := db.folders.get? id
  revision := Folder.revision
  deletedAt := Folder.deletedAt
  conflict := .folderConflict
  update := updateFolder
  delete := deleteFolder
  updateCommand := .updateFolder

/-- The promises to transactions that start in `s`: an update that commits
named the revision its row had, and none commits on that revision again; the
loser is told what the row holds; a tombstone counts as missing, and stays. -/
structure NoLostUpdate (K : RowKind) (s : Server) : Prop where
  compared : ∀ now id expected inp row db', K.update now id expected inp s.db = (.ok row, db') →
    ∃ current, K.find s.db id = some current ∧ K.deletedAt current = none ∧ K.revision current = expected ∧
      K.find db' id = some row
  once : ∀ now id expected inp row, (K.update now id expected inp s.db).1 = .ok row →
    ∀ cs t, Lts.Run Server.step (s.after (K.updateCommand now id expected inp)) cs t →
      ∀ now' inp' row', (K.update now' id expected inp' t.db).1 ≠ .ok row'
  loses : ∀ now id expected inp current, K.valid inp → K.find s.db id = some current →
    K.deletedAt current = none →
    K.revision current ≠ expected → K.update now id expected inp s.db = (.error (K.conflict current), s.db)
  absent : ∀ id, (∀ current, K.find s.db id = some current → K.deletedAt current ≠ none) →
    (∀ now expected inp, K.valid inp → K.update now id expected inp s.db = (.error .notFound, s.db)) ∧
      ∀ now, K.delete now id s.db = (.error .notFound, s.db)
  unchanged : (∀ now id expected inp e db', K.update now id expected inp s.db = (.error e, db') → db' = s.db) ∧
    ∀ now id e db', K.delete now id s.db = (.error e, db') → db' = s.db
  buried : ∀ id tomb, K.find s.db id = some tomb → K.deletedAt tomb ≠ none →
    ∀ cs t, Lts.Run Server.step s cs t → ∀ row, K.find t.db id = some row → row = tomb

/-! ## Where a row comes from -/

/-- A row after a command was there before, has an id the command drew, or
replaces a live row of the same id. -/
def Origin {ρ : Type} (id : ρ → Id) (deletedAt : ρ → Option Time) (draws : List String) (t : Table id) (r : ρ) :
    Prop :=
  r ∈ t ∨ id r ∈ draws ∨ ∃ current ∈ t, id current = id r ∧ deletedAt current = none

section
variable {ρ : Type} {id : ρ → Id} {deletedAt : ρ → Option Time} {draws : List String} {t : Table id}

theorem origin_upsert {current row : ρ} {k : Id} (hg : t.get? k = some current) (hd : deletedAt current = none)
    (hid : id row = id current) {r : ρ} (hr : r ∈ t.upsert row) : Origin id deletedAt draws t r := by
  rcases Table.mem_upsert.mp hr with ⟨h, -⟩ | rfl
  · exact Or.inl h
  · exact Or.inr (Or.inr ⟨current, (Table.get?_eq_some.mp hg).1, hid.symm, hd⟩)

theorem origin_delete {p : ρ → Bool} {r : ρ} (hr : r ∈ t.delete p) : Origin id deletedAt draws t r :=
  Or.inl (Table.mem_delete.mp hr).1

end

theorem item_origin {db : Db} {c : Command} {v' : Vault} (h : Effect db c v') {item : Item} (hi : item ∈ v'.items) :
    Origin Item.id Item.deletedAt c.draws db.items item := by
  cases h with
  | still | folderCreated | folderUpdated | folderDeleted | collectionCreated | memberAdded | memberRemoved =>
    exact Or.inl hi
  | created new hv hm hn hs =>
    rcases (hm item).mp hi with h | h
    · exact Or.inl h
    · exact Or.inr (Or.inl (hn item h).2.1)
  | itemUpdated hv current hg hd => exact origin_upsert hg hd (by rfl) hi
  | itemDeleted current hg hd => exact origin_upsert hg hd (by rfl) hi
  | collectionDeleted => exact origin_delete hi
  | reset => exact origin_delete hi
  | userDeleted => exact origin_delete hi
  | purged => exact origin_delete hi

theorem folder_origin {db : Db} {c : Command} {v' : Vault} (h : Effect db c v') {folder : Folder}
    (hf : folder ∈ v'.folders) : Origin Folder.id Folder.deletedAt c.draws db.folders folder := by
  cases h with
  | still | itemUpdated | itemDeleted | collectionCreated | collectionDeleted | memberAdded | memberRemoved =>
    exact Or.inl hf
  | created new hv => rw [hv] at hf; exact Or.inl hf
  | folderCreated row hi hid =>
    rcases (Table.mem_insert? hi).mp hf with h | rfl
    · exact Or.inl h
    · exact Or.inr (Or.inl (by simp [Command.draws, hid]))
  | folderUpdated current hg hd => exact origin_upsert hg hd (by rfl) hf
  | folderDeleted current hg hd => exact origin_upsert hg hd (by rfl) hf
  | reset => exact origin_delete hf
  | userDeleted => exact origin_delete hf
  | purged => exact origin_delete hf

/-! ## Ids are never used twice -/

structure Server.Known (s : Server) : Prop where
  items : ∀ item ∈ s.db.items, item.id ∈ s.issued
  folders : ∀ folder ∈ s.db.folders, folder.id ∈ s.issued

theorem known_of_origin {ρ : Type} {id : ρ → Id} {deletedAt : ρ → Option Time} {draws issued : List String}
    {t : Table id} {r : ρ} (h : Origin id deletedAt draws t r) (hk : ∀ x ∈ t, id x ∈ issued) :
    id r ∈ draws ++ issued := by
  rw [List.mem_append]
  rcases h with h | h | ⟨x, hx, hid, -⟩
  · exact Or.inr (hk r h)
  · exact Or.inl h
  · exact Or.inr (hid ▸ hk x hx)

theorem step_known {s s' : Server} {c : Command} (h : Server.step s c s') (hk : s.Known) : s'.Known := by
  rw [h.2]
  exact ⟨fun item hi => known_of_origin (item_origin (command_effect c s.db) hi) hk.items,
    fun folder hf => known_of_origin (folder_origin (command_effect c s.db) hf) hk.folders⟩

theorem reachable_known {s : Server} (h : Lts.Reachable Server.init Server.step s) : s.Known := by
  refine Lts.Reachable.inv (P := Server.Known) ?_ (fun _ _ _ => step_known) h
  rintro s rfl
  exact ⟨fun item hi => absurd hi (Table.mem_empty item), fun folder hf => absurd hf (Table.mem_empty folder)⟩

theorem buried_step {ρ : Type} {id : ρ → Id} {deletedAt : ρ → Option Time} {draws issued : List String}
    {t t' : Table id} {tomb : ρ} (hd : Server.Draws issued draws) (ho : ∀ r ∈ t', Origin id deletedAt draws t r)
    (hk : id tomb ∈ issued) (ht : deletedAt tomb ≠ none) (h : ∀ r ∈ t, id r = id tomb → r = tomb) :
    ∀ r ∈ t', id r = id tomb → r = tomb := by
  intro r hr hid
  rcases ho r hr with hr | hr | ⟨x, hx, hxid, hlive⟩
  · exact h r hr hid
  · exact absurd hk (hid ▸ (hd.2 _ hr).2)
  · have := h x hx (hxid.trans hid)
    subst this
    exact absurd hlive ht

theorem item_buried {s t : Server} {cs : List Command} (hr : Lts.Run Server.step s cs t) {tomb : Item}
    (hk : tomb.id ∈ s.issued) (ht : tomb.deletedAt ≠ none) (h : ∀ r ∈ s.db.items, r.id = tomb.id → r = tomb) :
    ∀ r ∈ t.db.items, r.id = tomb.id → r = tomb := by
  refine (hr.inv (P := fun s => tomb.id ∈ s.issued ∧ ∀ r ∈ s.db.items, r.id = tomb.id → r = tomb)
    ?_ ⟨hk, h⟩).2
  rintro s c s' ⟨hd, rfl⟩ ⟨hk, h⟩
  refine ⟨List.mem_append_right _ hk, ?_⟩
  exact buried_step hd (fun r hr => item_origin (command_effect c s.db) hr) hk ht h

theorem folder_buried {s t : Server} {cs : List Command} (hr : Lts.Run Server.step s cs t) {tomb : Folder}
    (hk : tomb.id ∈ s.issued) (ht : tomb.deletedAt ≠ none)
    (h : ∀ r ∈ s.db.folders, r.id = tomb.id → r = tomb) :
    ∀ r ∈ t.db.folders, r.id = tomb.id → r = tomb := by
  refine (hr.inv (P := fun s => tomb.id ∈ s.issued ∧ ∀ r ∈ s.db.folders, r.id = tomb.id → r = tomb)
    ?_ ⟨hk, h⟩).2
  rintro s c s' ⟨hd, rfl⟩ ⟨hk, h⟩
  refine ⟨List.mem_append_right _ hk, ?_⟩
  exact buried_step hd (fun r hr => folder_origin (command_effect c s.db) hr) hk ht h

/-! ## A row that was written stays past the revision it replaced -/

theorem revision_past {ρ : Type} {id : ρ → Id} {rev : ρ → Int} {n n' : Int} {t t' : Table id} {row r : ρ}
    {k : Id} (hw : Wrote rev n n' t t') (hrow : t.get? k = some row) (hrev : rev row = n)
    (hr : t'.get? k = some r) :
    n ≤ rev r := by
  obtain ⟨hmem, hk⟩ := Table.get?_eq_some.mp hr
  rcases hw r hmem with h | ⟨hlt, -⟩
  · have he := Table.get?_eq_some.mpr ⟨h, hk⟩
    rw [hrow, Option.some.injEq] at he
    exact le_of_eq (he ▸ hrev.symm)
  · exact hlt.le

theorem item_compared {now : Time} {id : Id} {expected : Int} {inp : ItemInput} {db db' : Db} {item : Item}
    (h : updateItem now id expected inp db = (.ok item, db')) :
    ∃ current, db.items.get? id = some current ∧ current.deletedAt = none ∧ current.revision = expected ∧
      db'.items.get? id = some item ∧ item.revision = db'.revisionSequence ∧
      db.revisionSequence < db'.revisionSequence := by
  obtain ⟨current, hg, hd, hr, -, rfl, rfl⟩ := updateItemTx_ok (updateItem_ok h).2
  refine ⟨current, hg, hd, hr, ?_, rfl, Int.lt_succ _⟩
  rw [Table.get?_upsert, if_pos]
  exact (Table.get?_eq_some.mp hg).2

theorem folder_compared {now : Time} {id : Id} {expected : Int} {name : String} {db db' : Db} {folder : Folder}
    (h : updateFolder now id expected name db = (.ok folder, db')) :
    ∃ current, db.folders.get? id = some current ∧ current.deletedAt = none ∧ current.revision = expected ∧
      db'.folders.get? id = some folder ∧ folder.revision = db'.revisionSequence ∧
      db.revisionSequence < db'.revisionSequence := by
  obtain ⟨current, hg, hd, hr, rfl, rfl⟩ := updateFolderTx_ok (updateFolder_ok h)
  refine ⟨current, hg, hd, hr, ?_, rfl, Int.lt_succ _⟩
  rw [Table.get?_upsert, if_pos]
  exact (Table.get?_eq_some.mp hg).2

section
variable {s : Server} (hs : Lts.Reachable Server.init Server.step s)
include hs

theorem item_once {now now' : Time} {id : Id} {expected : Int} {inp inp' : ItemInput} {row row' : Item}
    {db' db'' : Db} {cs : List Command} {t : Server} (h : updateItem now id expected inp s.db = (.ok row, db'))
    (hrun : Lts.Run Server.step (s.after (.updateItem now id expected inp)) cs t)
    (h' : updateItem now' id expected inp' t.db = (.ok row', db'')) : False := by
  obtain ⟨current, hg, -, hrev, hrow, hseq, hlt⟩ := item_compared h
  obtain ⟨current', hg', -, hrev', -, -, -⟩ := item_compared h'
  have hafter : (s.after (.updateItem now id expected inp)).db = db' := congrArg Prod.snd h
  have hw := (run_evolves hrun).items
  rw [hafter] at hw
  have hpast := revision_past hw hrow hseq hg'
  have hle := ((reachable_bounded hs).items current (Table.get?_eq_some.mp hg).1).2
  omega

theorem folder_once {now now' : Time} {id : Id} {expected : Int} {name name' : String} {row row' : Folder}
    {db' db'' : Db} {cs : List Command} {t : Server} (h : updateFolder now id expected name s.db = (.ok row, db'))
    (hrun : Lts.Run Server.step (s.after (.updateFolder now id expected name)) cs t)
    (h' : updateFolder now' id expected name' t.db = (.ok row', db'')) : False := by
  obtain ⟨current, hg, -, hrev, hrow, hseq, hlt⟩ := folder_compared h
  obtain ⟨current', hg', -, hrev', -, -, -⟩ := folder_compared h'
  have hafter : (s.after (.updateFolder now id expected name)).db = db' := congrArg Prod.snd h
  have hw := (run_evolves hrun).folders
  rw [hafter] at hw
  have hpast := revision_past hw hrow hseq hg'
  have hle := ((reachable_bounded hs).folders current (Table.get?_eq_some.mp hg).1).2
  omega

theorem items_noLostUpdate : NoLostUpdate itemKind s where
  compared now id expected inp row db' h := by
    obtain ⟨current, hg, hd, hr, hrow, -, -⟩ := item_compared h
    exact ⟨current, hg, hd, hr, hrow⟩
  once now id expected inp row h cs t hrun now' inp' row' h' :=
    item_once hs (Prod.ext h rfl) hrun (Prod.ext h' rfl)
  loses now id expected inp current hv hg hd hr := updateItem_conflict hv hg hd hr
  absent id h := ⟨fun now expected inp hv => updateItem_notFound hv h, fun now => deleteItem_notFound h⟩
  unchanged := ⟨fun _ _ _ _ _ _ h => updateItem_error h, fun _ _ _ _ h => deleteItem_error h⟩
  buried id tomb hg ht cs t hrun row hrow := by
    obtain ⟨hmem, rfl⟩ := Table.get?_eq_some.mp hg
    obtain ⟨hmem', hid⟩ := Table.get?_eq_some.mp hrow
    exact item_buried hrun ((reachable_known hs).items tomb hmem) ht (fun r hr => Table.eq_of_key hr hmem)
      row hmem' hid

theorem folders_noLostUpdate : NoLostUpdate folderKind s where
  compared now id expected inp row db' h := by
    obtain ⟨current, hg, hd, hr, hrow, -, -⟩ := folder_compared h
    exact ⟨current, hg, hd, hr, hrow⟩
  once now id expected inp row h cs t hrun now' inp' row' h' :=
    folder_once hs (Prod.ext h rfl) hrun (Prod.ext h' rfl)
  loses now id expected inp current hv hg hd hr := updateFolder_conflict hv hg hd hr
  absent id h := ⟨fun now expected inp hv => updateFolder_notFound hv h, fun now => deleteFolder_notFound h⟩
  unchanged := ⟨fun _ _ _ _ _ _ h => updateFolder_error h, fun _ _ _ _ h => deleteFolder_error h⟩
  buried id tomb hg ht cs t hrun row hrow := by
    obtain ⟨hmem, rfl⟩ := Table.get?_eq_some.mp hg
    obtain ⟨hmem', hid⟩ := Table.get?_eq_some.mp hrow
    exact folder_buried hrun ((reachable_known hs).folders tomb hmem) ht (fun r hr => Table.eq_of_key hr hmem) row
      hmem' hid

end

/-- **No lost update.** In every reachable state, for items and for folders. -/
theorem no_lost_update {s : Server} (hs : Lts.Reachable Server.init Server.step s) :
    NoLostUpdate itemKind s ∧ NoLostUpdate folderKind s :=
  ⟨items_noLostUpdate hs, folders_noLostUpdate hs⟩

def oneItem : List Command := enrolls "ann" "user" ++ [
  .createItem 0 "bank" "ann" ⟨none, "ciphertext", "wrapped-key"⟩,
  .createFolder 0 "money" "ann" "encrypted-name"]

theorem no_lost_update_oneItem :
    NoLostUpdate itemKind (Server.fresh.script oneItem) ∧ NoLostUpdate folderKind (Server.fresh.script oneItem) :=
  no_lost_update (Server.reachable_script (by decide))

end Keyhole.Store
