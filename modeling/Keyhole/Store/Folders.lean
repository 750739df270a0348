import Keyhole.Store.Items

/-!
# Folders

A folder belongs to one user and draws from the same revision sequence as
items. Its update and delete make the same checks in the same order.
-/

namespace Keyhole.Store
open Sql

def folderByID (id : Id) (db : Db) : Except StoreError Folder :=
  match db.folders.get? id with
  | some folder => .ok folder
  | none => .error .notFound

def insertFolder (row : Folder) (db : Db) : Except SqlError (Unit × Db) :=
  match db.folders.insert? row with
  | none => .error .primaryKey
  | some folders => if db.hasUser row.userID then .ok ((), { db with folders }) else .error .foreignKey

def createFolderTx (now : Time) (id : Id) (userID : Id) (encryptedName : String) : Txn Folder := do
  let revision ← nextRevision
  let folder : Folder := {
    id, userID, encryptedName, revision
    createdAt := stamp now, updatedAt := stamp now, deletedAt := none }
  sql (wrap "insert folder") (insertFolder folder)
  return folder

def createFolder (now : Time) (id : Id) (userID : Id) (encryptedName : String) (db : Db) :
    Except StoreError Folder × Db :=
  if encryptedName = "" then (.error (.validation "encryptedName" ""), db)
  else (createFolderTx now id userID encryptedName).transact db

def Folder.renamed (folder : Folder) (now : Time) (revision : Int) (encryptedName : String) : Folder :=
  { folder with encryptedName, revision, updatedAt := stamp now }

/-- `UPDATE folders SET … WHERE id = ? AND revision = ? AND deleted_at IS NULL`. -/
def updateFolderRow (now : Time) (revision : Int) (id : Id) (expectedRevision : Int) (encryptedName : String)
    (db : Db) : Nat × Db :=
  let p : Folder → Bool := fun folder =>
    folder.id = id && folder.revision = expectedRevision && folder.deletedAt.isNone
  (db.folders.count p,
    { db with folders := db.folders.update p fun folder => folder.renamed now revision encryptedName })

def updateFolderTx (now : Time) (id : Id) (expectedRevision : Int) (encryptedName : String) : Txn Folder := do
  let revision ← nextRevision
  let found ← Prog.query (·.folders.get? id)
  match found with
  | none => .fail .notFound
  | some current =>
    require current.deletedAt.isNone .notFound
    require (current.revision = expectedRevision) (.folderConflict current)
    let affected ← write (updateFolderRow now revision id expectedRevision encryptedName)
    requireOneRow affected "update folder"
    return current.renamed now revision encryptedName

def updateFolder (now : Time) (id : Id) (expectedRevision : Int) (encryptedName : String) (db : Db) :
    Except StoreError Folder × Db :=
  if encryptedName = "" then (.error (.validation "encryptedName" ""), db)
  else (updateFolderTx now id expectedRevision encryptedName).transact db

def Folder.deleted (folder : Folder) (now : Time) (revision : Int) : Folder :=
  { folder with encryptedName := "", revision, updatedAt := stamp now, deletedAt := some (stamp now) }

def deleteFolderRow (now : Time) (revision : Int) (id : Id) (db : Db) : Nat × Db :=
  let p : Folder → Bool := fun folder => folder.id = id && folder.deletedAt.isNone
  (db.folders.count p, { db with folders := db.folders.update p fun folder => folder.deleted now revision })

def deleteFolderTx (now : Time) (id : Id) : Txn Folder := do
  let revision ← nextRevision
  let found ← Prog.query (·.folders.get? id)
  match found with
  | none => .fail .notFound
  | some current =>
    require current.deletedAt.isNone .notFound
    let affected ← write (deleteFolderRow now revision id)
    requireOneRow affected "delete folder"
    return current.deleted now revision

def deleteFolder (now : Time) (id : Id) (db : Db) : Except StoreError Folder × Db :=
  (deleteFolderTx now id).transact db

/-! ## What a create does -/

theorem insertFolder_ok {row : Folder} {db db' : Db} {u : Unit} (h : insertFolder row db = .ok (u, db')) :
    ∃ folders, db.folders.insert? row = some folders ∧ db.hasUser row.userID = true ∧
      db' = { db with folders } := by
  unfold insertFolder at h
  split at h
  · cases h
  · rename_i t ht
    split at h
    · rename_i hu; cases h; exact ⟨t, ht, hu, rfl⟩
    · cases h

theorem createFolder_ok {now : Time} {id userID : Id} {name : String} {db db' : Db} {folder : Folder}
    (h : createFolder now id userID name db = (.ok folder, db')) :
    ∃ folders, db.folders.insert? folder = some folders ∧ folder.id = id ∧ folder.userID = userID ∧
      folder.encryptedName = name ∧ folder.revision = db.revisionSequence + 1 ∧ folder.deletedAt = none ∧
      db.hasUser userID = true ∧
      db' = { db with folders, revisionSequence := db.revisionSequence + 1 } := by
  unfold createFolder at h
  split at h
  · cases h
  · have ht := Prog.transact_ok (congrArg Prod.fst h)
    rw [h] at ht
    simp only [createFolderTx, Prog.exec_bind_ok, exec_nextRevision, exec_sql_ok] at ht
    obtain ⟨n, db₁, h₁, u, db₂, h₂, h₃⟩ := ht
    cases h₁
    cases h₃
    obtain ⟨t, ht, hu, rfl⟩ := insertFolder_ok h₂
    exact ⟨t, ht, rfl, rfl, rfl, rfl, rfl, hu, rfl⟩

theorem createFolder_error {now : Time} {id userID : Id} {name : String} {db db' : Db} {e : StoreError}
    (h : createFolder now id userID name db = (.error e, db')) : db' = db := by
  unfold createFolder at h
  split at h
  · cases h; rfl
  · have ht := Prog.transact_error (congrArg Prod.fst h)
    rwa [h] at ht

/-! ## What an update does -/

theorem updateFolderTx_ok {now : Time} {id : Id} {expected : Int} {name : String} {db db' : Db} {folder : Folder}
    (h : (updateFolderTx now id expected name).exec db = .ok (folder, db')) :
    ∃ current, db.folders.get? id = some current ∧ current.deletedAt = none ∧ current.revision = expected ∧
      folder = current.renamed now (db.revisionSequence + 1) name ∧
      db' = { db with revisionSequence := db.revisionSequence + 1, folders := db.folders.upsert folder } := by
  simp only [updateFolderTx, Prog.exec_bind, exec_nextRevision, Prog.exec_query] at h
  cases hg : db.folders.get? id with
  | none => simp [hg] at h
  | some current =>
    simp only [hg, Prog.exec_bind_ok, exec_require_ok, exec_write, requireOneRow] at h
    obtain ⟨_, _, ⟨hd, rfl⟩, _, _, ⟨hrev, rfl⟩, n, db₁, hrow, _, _, ⟨hn, rfl⟩, hret⟩ := h
    cases hret
    cases hrow
    simp only [Option.isNone_iff_eq_none] at hd
    simp only [decide_eq_true_eq] at hrev hn
    have hn : db.folders.count _ ≠ 0 := ne_of_eq_of_ne hn Nat.one_ne_zero
    obtain ⟨r, hr, -, hup⟩ := Table.update_one (k := id) (by simp +contextual) hn
    rw [hg, Option.some.injEq] at hr
    subst hr
    refine ⟨current, rfl, hd, hrev, rfl, ?_⟩
    exact congrArg (fun folders => { db with revisionSequence := db.revisionSequence + 1, folders }) hup

theorem updateFolder_ok {now : Time} {id : Id} {expected : Int} {name : String} {db db' : Db} {folder : Folder}
    (h : updateFolder now id expected name db = (.ok folder, db')) :
    (updateFolderTx now id expected name).exec db = .ok (folder, db') := by
  unfold updateFolder at h
  split at h
  · cases h
  · have ht := Prog.transact_ok (congrArg Prod.fst h)
    rwa [h] at ht

theorem updateFolder_error {now : Time} {id : Id} {expected : Int} {name : String} {db db' : Db} {e : StoreError}
    (h : updateFolder now id expected name db = (.error e, db')) : db' = db := by
  unfold updateFolder at h
  split at h
  · cases h; rfl
  · have ht := Prog.transact_error (congrArg Prod.fst h)
    rwa [h] at ht

theorem updateFolder_notFound {now : Time} {id : Id} {expected : Int} {name : String} {db : Db} (hn : name ≠ "")
    (hg : ∀ current, db.folders.get? id = some current → current.deletedAt ≠ none) :
    updateFolder now id expected name db = (.error .notFound, db) := by
  unfold updateFolder
  rw [if_neg hn]
  apply Prog.transact_of_error
  simp only [updateFolderTx, Prog.exec_bind, exec_nextRevision, Prog.exec_query]
  cases h : db.folders.get? id with
  | none => rfl
  | some current => simp [Prog.exec_bind, hg current h]

theorem updateFolder_conflict {now : Time} {id : Id} {expected : Int} {name : String} {db : Db} {current : Folder}
    (hn : name ≠ "") (hg : db.folders.get? id = some current) (hd : current.deletedAt = none)
    (hr : current.revision ≠ expected) :
    updateFolder now id expected name db = (.error (.folderConflict current), db) := by
  unfold updateFolder
  rw [if_neg hn]
  apply Prog.transact_of_error
  simp [updateFolderTx, Prog.exec_bind, hg, hd, hr]

/-! ## What a delete does -/

theorem deleteFolderTx_ok {now : Time} {id : Id} {db db' : Db} {folder : Folder}
    (h : (deleteFolderTx now id).exec db = .ok (folder, db')) :
    ∃ current, db.folders.get? id = some current ∧ current.deletedAt = none ∧
      folder = current.deleted now (db.revisionSequence + 1) ∧
      db' = { db with revisionSequence := db.revisionSequence + 1, folders := db.folders.upsert folder } := by
  simp only [deleteFolderTx, Prog.exec_bind, exec_nextRevision, Prog.exec_query] at h
  cases hg : db.folders.get? id with
  | none => simp [hg] at h
  | some current =>
    simp only [hg, Prog.exec_bind_ok, exec_require_ok, exec_write, requireOneRow] at h
    obtain ⟨_, _, ⟨hd, rfl⟩, n, db₁, hrow, _, _, ⟨hn, rfl⟩, hret⟩ := h
    cases hret
    cases hrow
    simp only [Option.isNone_iff_eq_none] at hd
    simp only [decide_eq_true_eq] at hn
    have hn : db.folders.count _ ≠ 0 := ne_of_eq_of_ne hn Nat.one_ne_zero
    obtain ⟨r, hr, -, hup⟩ := Table.update_one (k := id) (by simp +contextual) hn
    rw [hg, Option.some.injEq] at hr
    subst hr
    refine ⟨current, rfl, hd, rfl, ?_⟩
    exact congrArg (fun folders => { db with revisionSequence := db.revisionSequence + 1, folders }) hup

theorem deleteFolder_ok {now : Time} {id : Id} {db db' : Db} {folder : Folder}
    (h : deleteFolder now id db = (.ok folder, db')) : (deleteFolderTx now id).exec db = .ok (folder, db') := by
  have ht := Prog.transact_ok (congrArg Prod.fst h)
  rwa [show ((deleteFolderTx now id).transact db) = _ from h] at ht

theorem deleteFolder_error {now : Time} {id : Id} {db db' : Db} {e : StoreError}
    (h : deleteFolder now id db = (.error e, db')) : db' = db := by
  have ht := Prog.transact_error (congrArg Prod.fst h)
  rwa [show ((deleteFolderTx now id).transact db) = _ from h] at ht

theorem deleteFolder_notFound {now : Time} {id : Id} {db : Db}
    (hg : ∀ current, db.folders.get? id = some current → current.deletedAt ≠ none) :
    deleteFolder now id db = (.error .notFound, db) := by
  apply Prog.transact_of_error
  simp only [deleteFolderTx, Prog.exec_bind, exec_nextRevision, Prog.exec_query]
  cases h : db.folders.get? id with
  | none => rfl
  | some current => simp [Prog.exec_bind, hg current h]

end Keyhole.Store
