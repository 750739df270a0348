import Keyhole.Store.Schema

/-!
# Items

`nextRevision`, the four item writes, and what each of them can do.
-/

namespace Keyhole.Store
open Sql

def nextRevision : Txn Int := do
  write fun db => ((), { db with revisionSequence := db.revisionSequence + 1 })
  Prog.query (·.revisionSequence)

@[simp] theorem exec_nextRevision (db : Db) : nextRevision.exec db =
    .ok (db.revisionSequence + 1, { db with revisionSequence := db.revisionSequence + 1 }) := rfl

/-- `collectionID` is `none` for "no opinion": personal on create, no change on update. -/
structure ItemInput where
  collectionID : Option Id
  ciphertext : String
  wrappedItemKey : String
  deriving DecidableEq, Repr

def ItemInput.validate (inp : ItemInput) : Except StoreError Unit :=
  if inp.ciphertext = "" then .error (.validation "ciphertext" "")
  else if inp.wrappedItemKey = "" then .error (.validation "wrappedItemKey" "")
  else if inp.collectionID = some "" then
    .error (.validation "collectionId" "must name a collection; omit it entirely to leave the item personal")
  else .ok ()

def itemByID (id : Id) (db : Db) : Except StoreError Item :=
  match db.items.get? id with
  | some item => .ok item
  | none => .error .notFound

def insertItem (row : Item) (db : Db) : Except SqlError (Unit × Db) :=
  match db.items.insert? row with
  | none => .error .primaryKey
  | some items =>
    if db.hasUser row.ownerUserID && row.collectionID.all db.hasCollection then .ok ((), { db with items })
    else .error .foreignKey

def classifyItemInsertError : SqlError → StoreError
  | .foreignKey => .validation "collectionId" "does not name a collection that exists"
  | _ => .internal "insert item"

def Item.created (now : Time) (ownerUserID : Id) (revision : Int) (id : Id) (inp : ItemInput) : Item := {
  id, ownerUserID, revision
  collectionID := inp.collectionID, ciphertext := inp.ciphertext, wrappedItemKey := inp.wrappedItemKey
  createdAt := stamp now, updatedAt := stamp now, deletedAt := none }

def insertItems (now : Time) (ownerUserID : Id) : List Id → List ItemInput → Txn (List Item)
  | _, [] => pure []
  | [], _ :: _ => .fail (.internal "generate id")
  | id :: ids, inp :: ins => do
    let revision ← nextRevision
    let item := Item.created now ownerUserID revision id inp
    sql classifyItemInsertError (insertItem item)
    let items ← insertItems now ownerUserID ids ins
    return item :: items

def validateAll : List ItemInput → Except StoreError Unit
  | [] => .ok ()
  | inp :: ins =>
    match inp.validate with
    | .ok () => validateAll ins
    | .error e => .error e

def createItemsBulk (now : Time) (ids : List Id) (ownerUserID : Id) (ins : List ItemInput) (db : Db) :
    Except StoreError (List Item) × Db :=
  if ins = [] then (.error (.validation "items" ""), db)
  else match validateAll ins with
    | .error e => (.error e, db)
    | .ok () => (insertItems now ownerUserID ids ins).transact db

def createItem (now : Time) (id : Id) (ownerUserID : Id) (inp : ItemInput) (db : Db) :
    Except StoreError Item × Db :=
  match createItemsBulk now [id] ownerUserID [inp] db with
  | (.ok (item :: _), db') => (.ok item, db')
  | (.ok [], db') => (.error (.internal "create item"), db')
  | (.error e, db') => (.error e, db')

/-- The row an update leaves; a `none` collection keeps the stored one. -/
def Item.updated (item : Item) (now : Time) (revision : Int) (inp : ItemInput) : Item :=
  { item with
    collectionID := inp.collectionID.orElse fun _ => item.collectionID
    ciphertext := inp.ciphertext, wrappedItemKey := inp.wrappedItemKey
    revision, updatedAt := stamp now }

/-- `UPDATE items SET … WHERE id = ? AND revision = ? AND deleted_at IS NULL`. -/
def updateItemRow (now : Time) (revision : Int) (id : Id) (expectedRevision : Int) (inp : ItemInput) (db : Db) :
    Except SqlError (Nat × Db) :=
  let p : Item → Bool := fun item => item.id = id && item.revision = expectedRevision && item.deletedAt.isNone
  if inp.collectionID.all db.hasCollection || db.items.count p = 0 then
    .ok (db.items.count p, { db with items := db.items.update p fun item => item.updated now revision inp })
  else .error .foreignKey

def updateItemTx (now : Time) (id : Id) (expectedRevision : Int) (inp : ItemInput) : Txn Item := do
  let revision ← nextRevision
  let found ← Prog.query (·.items.get? id)
  match found with
  | none => .fail .notFound
  | some current =>
    require current.deletedAt.isNone .notFound
    require (current.revision = expectedRevision) (.itemConflict current)
    let affected ← sql (wrap "update item") (updateItemRow now revision id expectedRevision inp)
    requireOneRow affected "update item"
    return current.updated now revision inp

def updateItem (now : Time) (id : Id) (expectedRevision : Int) (inp : ItemInput) (db : Db) :
    Except StoreError Item × Db :=
  match inp.validate with
  | .error e => (.error e, db)
  | .ok () => (updateItemTx now id expectedRevision inp).transact db

def Item.deleted (item : Item) (now : Time) (revision : Int) : Item :=
  { item with
    ciphertext := "", wrappedItemKey := "", revision, updatedAt := stamp now, deletedAt := some (stamp now) }

def deleteItemRow (now : Time) (revision : Int) (id : Id) (db : Db) : Nat × Db :=
  let p : Item → Bool := fun item => item.id = id && item.deletedAt.isNone
  (db.items.count p, { db with items := db.items.update p fun item => item.deleted now revision })

def deleteItemTx (now : Time) (id : Id) : Txn Item := do
  let revision ← nextRevision
  let found ← Prog.query (·.items.get? id)
  match found with
  | none => .fail .notFound
  | some current =>
    require current.deletedAt.isNone .notFound
    let affected ← write (deleteItemRow now revision id)
    requireOneRow affected "delete item"
    return current.deleted now revision

def deleteItem (now : Time) (id : Id) (db : Db) : Except StoreError Item × Db :=
  (deleteItemTx now id).transact db

/-! ## What a create does -/

theorem insertItem_ok {row : Item} {db db' : Db} {u : Unit} (h : insertItem row db = .ok (u, db')) :
    ∃ items, db.items.insert? row = some items ∧ db.hasUser row.ownerUserID = true ∧
      row.collectionID.all db.hasCollection = true ∧ db' = { db with items } := by
  unfold insertItem at h
  split at h
  · cases h
  · rename_i t ht
    split at h
    · rename_i hc
      rw [Bool.and_eq_true] at hc
      cases h
      exact ⟨t, ht, hc.1, hc.2, rfl⟩
    · cases h

def createdItems (now : Time) (ownerUserID : Id) (n : Int) : List Id → List ItemInput → List Item
  | id :: ids, inp :: ins =>
    Item.created now ownerUserID (n + 1) id inp :: createdItems now ownerUserID (n + 1) ids ins
  | _, _ => []

theorem mem_createdItems {now : Time} {owner : Id} {n : Int} {ids : List Id} {ins : List ItemInput} {item : Item}
    (h : item ∈ createdItems now owner n ids ins) : ∃ id ∈ ids, ∃ inp ∈ ins, ∃ r : Int,
      n < r ∧ r ≤ n + ins.length ∧ item = Item.created now owner r id inp := by
  induction ids generalizing n ins with
  | nil => simp [createdItems] at h
  | cons id ids ih =>
    cases ins with
    | nil => simp [createdItems] at h
    | cons inp ins =>
      simp only [createdItems, List.mem_cons] at h
      rcases h with rfl | h
      · exact ⟨id, by simp, inp, by simp, n + 1, by omega, by simp only [List.length_cons]; omega, rfl⟩
      · obtain ⟨id', hid, inp', hinp, r, hr, hr', he⟩ := ih h
        refine ⟨id', by simp [hid], inp', by simp [hinp], r, by omega, ?_, he⟩
        simp only [List.length_cons]
        omega

theorem insertItems_ok {now : Time} {owner : Id} {ids : List Id} {ins : List ItemInput} {db db' : Db}
    {items : List Item} (h : (insertItems now owner ids ins).exec db = .ok (items, db')) :
    ∃ t, items = createdItems now owner db.revisionSequence ids ins ∧ ins.length ≤ ids.length ∧
      db' = { db with items := t, revisionSequence := db.revisionSequence + ins.length } ∧
      (∀ x, x ∈ t ↔ x ∈ db.items ∨ x ∈ items) ∧
      ∀ x ∈ items, db.items.get? x.id = none ∧ db.hasUser owner = true ∧
        x.collectionID.all db.hasCollection = true := by
  induction ins generalizing ids db items with
  | nil =>
    have h' : items = [] ∧ db' = db := by cases ids <;> (cases h; exact ⟨rfl, rfl⟩)
    obtain ⟨rfl, rfl⟩ := h'
    exact ⟨db'.items, by cases ids <;> rfl, by simp, by simp, by simp, by simp⟩
  | cons inp ins ih =>
    cases ids with
    | nil => cases h
    | cons id ids =>
      simp only [insertItems, Prog.exec_bind_ok, exec_nextRevision, exec_sql_ok] at h
      obtain ⟨n, db₁, h₁, u, db₂, h₂, rest, db₃, h₃, h₄⟩ := h
      cases h₁
      cases h₄
      obtain ⟨t₁, ht₁, hu, hc, rfl⟩ := insertItem_ok h₂
      obtain ⟨t, rfl, hl, rfl, hm, hx⟩ := ih h₃
      refine ⟨t, rfl, by simpa using hl, ?_, ?_, ?_⟩
      · have hn : db.revisionSequence + 1 + ins.length = db.revisionSequence + (inp :: ins).length := by
          simp only [List.length_cons]
          omega
        simp only [hn]
      · intro x
        rw [hm, Table.mem_insert? ht₁, List.mem_cons]
        tauto
      · intro x hx'
        rcases List.mem_cons.mp hx' with rfl | hx'
        · exact ⟨Table.insert?_fresh ht₁, hu, hc⟩
        · obtain ⟨hn, hu', hc'⟩ := hx x hx'
          refine ⟨Table.get?_eq_none.mpr ?_, hu', hc'⟩
          intro y hy
          exact Table.get?_eq_none.mp hn y ((Table.mem_insert? ht₁).mpr (Or.inl hy))

theorem createItemsBulk_ok {now : Time} {ids : List Id} {owner : Id} {ins : List ItemInput} {db db' : Db}
    {items : List Item} (h : createItemsBulk now ids owner ins db = (.ok items, db')) :
    validateAll ins = .ok () ∧ (insertItems now owner ids ins).exec db = .ok (items, db') := by
  unfold createItemsBulk at h
  split at h
  · cases h
  · split at h
    · cases h
    · rename_i hv
      have ht := Prog.transact_ok (congrArg Prod.fst h)
      rw [h] at ht
      exact ⟨hv, ht⟩

theorem createItemsBulk_error {now : Time} {ids : List Id} {owner : Id} {ins : List ItemInput} {db db' : Db}
    {e : StoreError} (h : createItemsBulk now ids owner ins db = (.error e, db')) : db' = db := by
  unfold createItemsBulk at h
  split at h
  · cases h; rfl
  · split at h
    · cases h; rfl
    · have ht := Prog.transact_error (congrArg Prod.fst h)
      rw [h] at ht
      exact ht

theorem createItem_eq {now : Time} {id owner : Id} {inp : ItemInput} {db : Db} :
    (∃ item db', createItem now id owner inp db = (.ok item, db') ∧
      createItemsBulk now [id] owner [inp] db = (.ok [item], db')) ∨
    ∃ e, createItem now id owner inp db = (.error e, db) := by
  unfold createItem
  cases h : createItemsBulk now [id] owner [inp] db with
  | mk r db' =>
    cases r with
    | error e =>
      cases createItemsBulk_error h
      exact Or.inr ⟨e, rfl⟩
    | ok items =>
      obtain ⟨t, rfl, -⟩ := insertItems_ok (createItemsBulk_ok h).2
      exact Or.inl ⟨_, db', rfl, rfl⟩

/-! ## What an update does -/

theorem updateItemTx_ok {now : Time} {id : Id} {expected : Int} {inp : ItemInput} {db db' : Db} {item : Item}
    (h : (updateItemTx now id expected inp).exec db = .ok (item, db')) :
    ∃ current, db.items.get? id = some current ∧ current.deletedAt = none ∧ current.revision = expected ∧
      inp.collectionID.all db.hasCollection = true ∧
      item = current.updated now (db.revisionSequence + 1) inp ∧
      db' = { db with revisionSequence := db.revisionSequence + 1, items := db.items.upsert item } := by
  simp only [updateItemTx, Prog.exec_bind, exec_nextRevision, Prog.exec_query] at h
  cases hg : db.items.get? id with
  | none => simp [hg] at h
  | some current =>
    simp only [hg, Prog.exec_bind_ok, exec_require_ok, exec_sql_ok, requireOneRow] at h
    obtain ⟨_, _, ⟨hd, rfl⟩, _, _, ⟨hrev, rfl⟩, n, db₁, hrow, _, _, ⟨hn, rfl⟩, hret⟩ := h
    cases hret
    simp only [Option.isNone_iff_eq_none] at hd
    simp only [decide_eq_true_eq] at hrev hn
    subst hn
    unfold updateItemRow at hrow
    simp only at hrow
    split at hrow
    · rename_i hcol
      simp only [Except.ok.injEq, Prod.mk.injEq] at hrow
      obtain ⟨hcount, rfl⟩ := hrow
      have hn : db.items.count _ ≠ 0 := ne_of_eq_of_ne hcount Nat.one_ne_zero
      have hcol' : inp.collectionID.all db.hasCollection = true := by
        rw [Bool.or_eq_true, decide_eq_true_eq] at hcol
        exact hcol.resolve_right hn
      obtain ⟨r, hr, -, hup⟩ := Table.update_one (k := id) (by simp +contextual) hn
      rw [hg, Option.some.injEq] at hr
      subst hr
      refine ⟨current, rfl, hd, hrev, hcol', rfl, ?_⟩
      exact congrArg (fun items => { db with revisionSequence := db.revisionSequence + 1, items }) hup
    · cases hrow

theorem updateItem_ok {now : Time} {id : Id} {expected : Int} {inp : ItemInput} {db db' : Db} {item : Item}
    (h : updateItem now id expected inp db = (.ok item, db')) :
    inp.validate = .ok () ∧ (updateItemTx now id expected inp).exec db = .ok (item, db') := by
  unfold updateItem at h
  split at h
  · cases h
  · rename_i hv
    have ht := Prog.transact_ok (congrArg Prod.fst h)
    rw [h] at ht
    exact ⟨hv, ht⟩

theorem updateItem_error {now : Time} {id : Id} {expected : Int} {inp : ItemInput} {db db' : Db} {e : StoreError}
    (h : updateItem now id expected inp db = (.error e, db')) : db' = db := by
  unfold updateItem at h
  split at h
  · cases h; rfl
  · have ht := Prog.transact_error (congrArg Prod.fst h)
    rw [h] at ht
    exact ht

theorem updateItem_notFound {now : Time} {id : Id} {expected : Int} {inp : ItemInput} {db : Db}
    (hv : inp.validate = .ok ()) (hg : ∀ current, db.items.get? id = some current → current.deletedAt ≠ none) :
    updateItem now id expected inp db = (.error .notFound, db) := by
  unfold updateItem
  rw [hv]
  apply Prog.transact_of_error
  simp only [updateItemTx, Prog.exec_bind, exec_nextRevision, Prog.exec_query]
  cases h : db.items.get? id with
  | none => rfl
  | some current => simp [Prog.exec_bind, hg current h]

theorem updateItem_conflict {now : Time} {id : Id} {expected : Int} {inp : ItemInput} {db : Db} {current : Item}
    (hv : inp.validate = .ok ()) (hg : db.items.get? id = some current) (hd : current.deletedAt = none)
    (hr : current.revision ≠ expected) :
    updateItem now id expected inp db = (.error (.itemConflict current), db) := by
  unfold updateItem
  rw [hv]
  apply Prog.transact_of_error
  simp [updateItemTx, Prog.exec_bind, hg, hd, hr]

/-! ## What a delete does -/

theorem deleteItemTx_ok {now : Time} {id : Id} {db db' : Db} {item : Item}
    (h : (deleteItemTx now id).exec db = .ok (item, db')) :
    ∃ current, db.items.get? id = some current ∧ current.deletedAt = none ∧
      item = current.deleted now (db.revisionSequence + 1) ∧
      db' = { db with revisionSequence := db.revisionSequence + 1, items := db.items.upsert item } := by
  simp only [deleteItemTx, Prog.exec_bind, exec_nextRevision, Prog.exec_query] at h
  cases hg : db.items.get? id with
  | none => simp [hg] at h
  | some current =>
    simp only [hg, Prog.exec_bind_ok, exec_require_ok, exec_write, requireOneRow] at h
    obtain ⟨_, _, ⟨hd, rfl⟩, n, db₁, hrow, _, _, ⟨hn, rfl⟩, hret⟩ := h
    cases hret
    cases hrow
    simp only [Option.isNone_iff_eq_none] at hd
    simp only [decide_eq_true_eq] at hn
    have hn : db.items.count _ ≠ 0 := ne_of_eq_of_ne hn Nat.one_ne_zero
    obtain ⟨r, hr, -, hup⟩ := Table.update_one (k := id) (by simp +contextual) hn
    rw [hg, Option.some.injEq] at hr
    subst hr
    refine ⟨current, rfl, hd, rfl, ?_⟩
    exact congrArg (fun items => { db with revisionSequence := db.revisionSequence + 1, items }) hup

theorem deleteItem_ok {now : Time} {id : Id} {db db' : Db} {item : Item}
    (h : deleteItem now id db = (.ok item, db')) : (deleteItemTx now id).exec db = .ok (item, db') := by
  have ht := Prog.transact_ok (congrArg Prod.fst h)
  rwa [show ((deleteItemTx now id).transact db) = _ from h] at ht

theorem deleteItem_error {now : Time} {id : Id} {db db' : Db} {e : StoreError}
    (h : deleteItem now id db = (.error e, db')) : db' = db := by
  have ht := Prog.transact_error (congrArg Prod.fst h)
  rwa [show ((deleteItemTx now id).transact db) = _ from h] at ht

theorem deleteItem_notFound {now : Time} {id : Id} {db : Db}
    (hg : ∀ current, db.items.get? id = some current → current.deletedAt ≠ none) :
    deleteItem now id db = (.error .notFound, db) := by
  apply Prog.transact_of_error
  simp only [deleteItemTx, Prog.exec_bind, exec_nextRevision, Prog.exec_query]
  cases h : db.items.get? id with
  | none => rfl
  | some current => simp [Prog.exec_bind, hg current h]

end Keyhole.Store
