import Keyhole.Store.Collections
import Keyhole.Store.Folders

/-!
# Sync

What a user may see, what changed since a cursor, and the delta a client is
sent. The cursor is read in the same transaction as the rows.
-/

namespace Keyhole.Store
open Sql

def Vault.visibleItemsClause (v : Vault) (userID : Id) (item : Item) : Bool :=
  (item.ownerUserID = userID && item.collectionID = none) || item.collectionID.any (v.isMember userID)

def Vault.changedSinceClause (v : Vault) (userID : Id) (since : Int) (item : Item) : Bool :=
  since < item.revision || v.memberships.any fun m =>
    item.collectionID = some m.collectionID && m.userID = userID && since < m.grantedRevision

structure SyncResult where
  revision : Int
  items : List Item
  folders : List Folder
  collections : List CollectionWithMembership
  deriving DecidableEq, Repr

def Vault.syncSince (v : Vault) (userID : Id) (since : Int) : SyncResult where
  revision := v.revisionSequence
  items := (v.items.filter fun item =>
    v.changedSinceClause userID since item && v.visibleItemsClause userID item).insertionSort
      (·.revision ≤ ·.revision)
  folders := (v.folders.filter fun folder =>
    since < folder.revision && folder.userID = userID).insertionSort (·.revision ≤ ·.revision)
  collections := v.collectionsForUser userID

def Vault.canAccessItem (v : Vault) (userID : Id) (item : Item) : Bool :=
  match item.collectionID with
  | none => item.ownerUserID = userID
  | some c => v.memberships.count (fun m => m.collectionID = c && m.userID = userID) > 0

def canAccessFolder (userID : Id) (folder : Folder) : Bool := folder.userID = userID

/-! ## Visibility -/

theorem isMember_iff {v : Vault} {u c : Id} :
    v.isMember u c = true ↔ ∃ m ∈ v.memberships, m.collectionID = c ∧ m.userID = u := by
  unfold Vault.isMember
  simp only [Table.any_eq_true, Bool.and_eq_true, decide_eq_true_eq]

theorem visible_iff {v : Vault} {u : Id} {item : Item} :
    v.visibleItemsClause u item = true ↔
      (item.ownerUserID = u ∧ item.collectionID = none) ∨ ∃ c, item.collectionID = some c ∧
        v.isMember u c = true := by
  unfold Vault.visibleItemsClause
  simp only [Bool.or_eq_true, Bool.and_eq_true, decide_eq_true_eq, Option.any_eq_true]

/-- The single-item check and the sync query agree on every row. -/
theorem canAccessItem_eq (v : Vault) (u : Id) (item : Item) :
    v.canAccessItem u item = v.visibleItemsClause u item := by
  unfold Vault.canAccessItem Vault.visibleItemsClause Vault.isMember
  cases item.collectionID with
  | none => simp
  | some c =>
    rw [Bool.eq_iff_iff]
    simp only [gt_iff_lt, decide_eq_true_eq, reduceCtorEq, decide_false, Bool.and_false, Bool.false_or,
      Option.any_some]
    rw [Nat.pos_iff_ne_zero, Ne, Table.count_eq_zero, Table.any_eq_true]
    simp

theorem mem_syncItems {v : Vault} {u : Id} {since : Int} {item : Item} :
    item ∈ (v.syncSince u since).items ↔
      item ∈ v.items ∧ v.visibleItemsClause u item = true ∧
        (since < item.revision ∨ ∃ m ∈ v.memberships,
          item.collectionID = some m.collectionID ∧ m.userID = u ∧ since < m.grantedRevision) := by
  unfold Vault.syncSince Vault.changedSinceClause
  simp only [List.mem_insertionSort, Table.mem_filter, Bool.and_eq_true, Bool.or_eq_true, decide_eq_true_eq,
    Table.any_eq_true, and_assoc]
  tauto

theorem mem_syncFolders {v : Vault} {u : Id} {since : Int} {folder : Folder} :
    folder ∈ (v.syncSince u since).folders ↔
      folder ∈ v.folders ∧ folder.userID = u ∧ since < folder.revision := by
  unfold Vault.syncSince
  simp only [List.mem_insertionSort, Table.mem_filter, Bool.and_eq_true, decide_eq_true_eq]
  tauto

theorem nodup_selected {κ ρ : Type} {key : ρ → κ} (t : Table key) (p : ρ → Bool) (r : ρ → ρ → Prop)
    [DecidableRel r] :
    (((t.filter p).insertionSort r).map key).Nodup := by
  rw [((List.perm_insertionSort r (t.filter p)).map key).nodup_iff]
  exact t.nodup.sublist (List.filter_sublist.map key)

theorem nodup_syncItems (v : Vault) (u : Id) (since : Int) : ((v.syncSince u since).items.map Item.id).Nodup :=
  nodup_selected v.items _ _

theorem nodup_syncFolders (v : Vault) (u : Id) (since : Int) :
    ((v.syncSince u since).folders.map Folder.id).Nodup := nodup_selected v.folders _ _

end Keyhole.Store
