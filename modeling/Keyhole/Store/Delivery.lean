import Keyhole.Store.Evolves

/-!
# Nothing that comes into sight is missed

A change comes into sight with a stamp past every cursor issued before it,
so the next sync of any such cursor carries it.
-/

namespace Keyhole.Store
open Sql

def Vault.seesItem (v : Vault) (userID id : Id) (revision : Int) : Bool :=
  v.items.any fun item => item.id = id && item.revision = revision && v.visibleItemsClause userID item

def Vault.seesFolder (v : Vault) (userID id : Id) (revision : Int) : Bool :=
  v.folders.any fun folder => folder.id = id && folder.revision = revision && folder.userID = userID

section
variable {v v' : Vault} (h : Evolves v v') {u : Id}
include h

theorem item_due {item : Item} (hi : item ∈ v'.items) (hv : v'.visibleItemsClause u item = true)
    (hn : v.seesItem u item.id item.revision = false) {c : Int} (hc : c ≤ v.revisionSequence) :
    v'.changedSinceClause u c item = true := by
  rw [← stampFor_isSome, Option.isSome_iff_exists] at hv
  obtain ⟨s, hs⟩ := hv
  rw [changedSince_iff hs]
  have hnew : v.revisionSequence < s := by
    apply (itemFeed_later h u).new (itemFeed_entry.mpr ⟨hi, rfl, hs⟩)
    intro he
    obtain ⟨hold, -, hst⟩ := itemFeed_entry.mp he
    rw [Vault.seesItem, ← Bool.not_eq_true, Table.any_eq_true] at hn
    exact hn ⟨item, hold, by simp [← stampFor_isSome, hst]⟩
  exact Or.inl (lt_of_le_of_lt hc hnew)

theorem folder_due {folder : Folder} (hf : folder ∈ v'.folders) (hu : folder.userID = u)
    (hn : v.seesFolder u folder.id folder.revision = false) {c : Int} (hc : c ≤ v.revisionSequence) :
    c < folder.revision := by
  have hnew : v.revisionSequence < folder.revision := by
    apply (folderFeed_later h u).new (folderFeed_entry.mpr ⟨hf, rfl, hu, rfl⟩)
    intro he
    obtain ⟨hold, -, -, -⟩ := folderFeed_entry.mp he
    rw [Vault.seesFolder, ← Bool.not_eq_true, Table.any_eq_true] at hn
    exact hn ⟨folder, hold, by simp [hu]⟩
  exact lt_of_le_of_lt hc hnew

end

theorem mem_syncItems_of_changed {v : Vault} {u : Id} {c : Int} {item : Item} (hi : item ∈ v.items)
    (hv : v.visibleItemsClause u item = true) (hc : v.changedSinceClause u c item = true) :
    item ∈ (v.syncSince u c).items := by
  unfold Vault.syncSince
  rw [List.mem_insertionSort, Table.mem_filter, Bool.and_eq_true]
  exact ⟨hi, hc, hv⟩

/-- **Nothing that comes into sight is missed.** Let a sync of `u` answer with
cursor `c` in state `s`, and let the server run on to `t`. A sync of `c` in `t`
carries every version `u` sees in `t` and did not see in `s`; and a version
that any later step brings into sight has its own revision, or the revision of
the membership it is seen through, past `c`. -/
theorem no_missed_additions {s t : Server} {cs : List Command} (hr : Lts.Run Server.step s cs t) (u : Id)
    (since c : Int) (hc : c = (s.db.syncSince u since).revision) :
    (∀ item ∈ t.db.items, t.db.visibleItemsClause u item = true →
      s.db.seesItem u item.id item.revision = false →
      item ∈ (t.db.syncSince u c).items) ∧
    (∀ folder ∈ t.db.folders, folder.userID = u → s.db.seesFolder u folder.id folder.revision = false →
      folder ∈ (t.db.syncSince u c).folders) ∧
    ∀ e t', Server.step t e t' →
      (∀ item ∈ t'.db.items, t'.db.visibleItemsClause u item = true →
        t.db.seesItem u item.id item.revision = false →
        c < item.revision ∨ ∃ m ∈ t'.db.memberships,
          item.collectionID = some m.collectionID ∧ m.userID = u ∧ c < m.grantedRevision) ∧
      ∀ folder ∈ t'.db.folders, folder.userID = u → t.db.seesFolder u folder.id folder.revision = false →
        c < folder.revision := by
  have hev := run_evolves hr
  have hcs : c ≤ s.db.revisionSequence := le_of_eq hc
  have hct : c ≤ t.db.revisionSequence := hcs.trans hev.clock
  refine ⟨?_, ?_, ?_⟩
  · intro item hi hv hn
    exact mem_syncItems_of_changed hi hv (item_due hev hi hv hn hcs)
  · intro folder hf hu hn
    exact mem_syncFolders.mpr ⟨hf, hu, folder_due hev hf hu hn hcs⟩
  · intro e t' he
    have hstep := step_evolves he
    refine ⟨?_, ?_⟩
    · intro item hi hv hn
      have hch := item_due hstep hi hv hn hct
      exact (mem_syncItems.mp (mem_syncItems_of_changed hi hv hch)).2.2
    · intro folder hf hu hn
      exact folder_due hstep hf hu hn hct

/-! An item bob could not see when he synced reaches him with the grant. -/

def sharedBefore : List Command := enrolls "ann" "user" ++ enrolls "bob" "user" ++ [
  .createCollection 0 "family" "audit-1" "Family" "ann" "sealed-to-ann",
  .createItem 0 "wifi" "ann" ⟨some "family", "ciphertext", "wrapped-key"⟩]

def lateGrant : List Command := [
  .fulfilGrantOrAdd 0 "audit-2" "family" "bob" "sealed-to-bob" "member" "ann"]

def sharedItem : Item := Item.created 0 "ann" 2 "wifi" ⟨some "family", "ciphertext", "wrapped-key"⟩

theorem no_missed_additions_late_grant :
    sharedItem ∈ (((Server.fresh.script sharedBefore).script lateGrant).db.syncSince "bob" 2).items :=
  have hr : Lts.Run Server.step (Server.fresh.script sharedBefore) lateGrant _ := Server.run_script (by decide)
  (no_missed_additions hr "bob" 0 2 (by decide)).1 sharedItem (by decide) (by decide) (by decide)

end Keyhole.Store
