import Keyhole.Lib.Feed
import Keyhole.Store.Sync

/-!
# The vault store of a client

One unlocked session's view of the vault, and the merge of a sync response
into it. `Opens` is what the session's keys make of a row; it is fixed while
the session stays open. A row on the wire has the fields of the row stored.
-/

namespace Keyhole.Vault
open Sql Store

structure Opens (P : Type) where
  item : Item → Option P
  folder : Folder → Option String
  collection : CollectionWithMembership → Bool

structure ItemRecord (P : Type) where
  id : Id
  revision : Int
  collectionId : Option Id
  deletedAt : Option Time
  plaintext : Option P
  deriving DecidableEq, Repr

structure FolderRecord where
  id : Id
  revision : Int
  deletedAt : Option Time
  name : Option String
  deriving DecidableEq, Repr

structure CollectionSummary where
  id : Id
  name : String
  role : MemberRole
  usable : Bool
  deriving DecidableEq, Repr

inductive Status | empty | loading | ready | error
  deriving DecidableEq, Repr

structure VaultState (P : Type) where
  revision : Int
  items : Table (ItemRecord.id (P := P))
  folders : Table FolderRecord.id
  collections : List CollectionSummary
  status : Status
  error : Option String

section
variable {P : Type}

def VaultState.EMPTY : VaultState P where
  revision := 0
  items := ∅
  folders := ∅
  collections := []
  status := .empty
  error := none

def decryptRecord (opens : Opens P) (item : Item) : ItemRecord P where
  id := item.id
  revision := item.revision
  collectionId := item.collectionID
  deletedAt := item.deletedAt
  plaintext := if item.deletedAt.isSome then none else opens.item item

def decryptRecords (opens : Opens P) (wire : List Item) : List (ItemRecord P) := wire.map (decryptRecord opens)

def decryptFolder (opens : Opens P) (folder : Folder) : FolderRecord where
  id := folder.id
  revision := folder.revision
  deletedAt := folder.deletedAt
  name := if folder.deletedAt.isSome then none else opens.folder folder

def decryptFolders (opens : Opens P) (wire : List Folder) : List FolderRecord := wire.map (decryptFolder opens)

def adoptCollections (opens : Opens P) (wire : List CollectionWithMembership) : List CollectionSummary :=
  wire.map fun c => { id := c.id, name := c.name, role := c.role, usable := opens.collection c }

/-- One merge for items and folders: a tombstone removes a record, and what is
absent is left in place. -/
def merge {T : Type} {id : T → Id} (deletedAt : T → Option Time) (existing : Table id) (incoming : List T) :
    Table id :=
  incoming.foldl (fun byId record =>
    if (deletedAt record).isSome then byId.delete fun r => id r = id record else byId.upsert record) existing

def VaultState.fetched (opens : Opens P) (state : VaultState P) (since : Option Int) (response : SyncResult) :
    VaultState P where
  revision := response.revision
  items := merge ItemRecord.deletedAt (if since.isNone then ∅
    else state.items) (decryptRecords opens response.items)
  folders := merge FolderRecord.deletedAt (if since.isNone then ∅ else state.folders)
    (decryptFolders opens response.folders)
  collections := adoptCollections opens response.collections
  status := .ready
  error := none

end

/-! ## A merge is what a reader does with an answer -/

section
variable {T : Type} {id : T → Id} {deletedAt : T → Option Time}

def isTombstone (deletedAt : T → Option Time) (r : T) : Bool := (deletedAt r).isSome

theorem get?_merge {existing : Table id} {incoming : List T} (hn : (incoming.map id).Nodup) (k : Id) :
    (merge deletedAt existing incoming).get? k =
      match incoming.find? fun r => id r = k with
      | some r => Feed.keep (isTombstone deletedAt) r
      | none => existing.get? k := by
  induction incoming generalizing existing with
  | nil => rfl
  | cons r rs ih =>
    rw [List.map_cons, List.nodup_cons] at hn
    change (merge deletedAt _ rs).get? k = _
    rw [ih hn.2, List.find?_cons]
    by_cases hk : id r = k
    · have hnone : rs.find? (fun r => decide (id r = k)) = none := by
        rw [List.find?_eq_none]
        intro x hx hxk
        rw [decide_eq_true_eq] at hxk
        exact hn.1 (List.mem_map.mpr ⟨x, hx, hxk.trans hk.symm⟩)
      rw [hnone]
      simp only [hk, decide_true]
      unfold Feed.keep isTombstone
      split
      · rw [Table.get?_delete_key, if_pos rfl]
      · rw [Table.get?_upsert, if_pos hk]
    · simp only [hk, decide_false]
      cases rs.find? fun r => decide (id r = k) with
      | some r' => rfl
      | none =>
        change (if (deletedAt r).isSome then _ else _ : Table id).get? k = existing.get? k
        split
        · rw [Table.get?_delete_key, if_neg hk]
        · rw [Table.get?_upsert, if_neg hk]

def reader (cursor : Int) (t : Table id) : Feed.Reader Id T where
  cursor := cursor
  held := t.get?

def answerOf (id : T → Id) (since : Option Int) (clock : Int) (incoming : List T) : Feed.Answer Id T where
  since := since
  clock := clock
  rows k := incoming.find? fun r => id r = k

theorem reader_merge {cursor clock : Int} {since : Option Int} {t : Table id} {incoming : List T}
    (hn : (incoming.map id).Nodup) :
    reader clock (merge deletedAt (if since.isNone then ∅ else t) incoming) =
      (reader cursor t).apply (isTombstone deletedAt) (answerOf id since clock incoming) := by
  unfold reader Feed.Reader.apply answerOf
  congr 1
  funext k
  rw [get?_merge hn]
  simp only
  cases incoming.find? fun r => decide (id r = k) with
  | some r => rfl
  | none => cases since <;> rfl

theorem answerOf_rows {since : Option Int} {clock : Int} {incoming : List T} (hn : (incoming.map id).Nodup) {k : Id}
    {r : T} : (answerOf id since clock incoming).rows k = some r ↔ r ∈ incoming ∧ id r = k :=
  Table.get?_eq_some (t := ⟨incoming, hn⟩)

theorem answerOf_map {V : Type} {key : V → Id} {f : V → T} {A : Feed.View Id V} {since : Option Int} {rows : List V}
    (hf : ∀ v, id (f v) = key v) (hn : (rows.map key).Nodup) (hk : ∀ k s v, A.entry k = some (s, v) → key v = k)
    (hr : ∀ v, v ∈ rows ↔ ∃ s, A.entry (key v) = some (s, v) ∧ since.all (· < s) = true) :
    answerOf id since A.clock (rows.map f) = (A.map f).answer since := by
  have hn' : ((rows.map f).map id).Nodup := by
    rwa [List.map_map, show id ∘ f = key from funext hf]
  unfold Feed.View.answer
  have hrows : (answerOf id since A.clock (rows.map f)).rows =
      fun k => ((A.map f).entry k).bind fun e => if since.all (· < e.1) then some e.2 else none := by
    funext k
    apply Option.ext
    intro r
    rw [answerOf_rows hn', List.mem_map, Option.bind_eq_some_iff]
    constructor
    · rintro ⟨⟨v, hv, rfl⟩, rfl⟩
      obtain ⟨s, he, hs⟩ := (hr v).mp hv
      rw [hf]
      exact ⟨(s, f v), Feed.map_entry.mpr ⟨v, he, rfl⟩, if_pos hs⟩
    · rintro ⟨⟨s, w⟩, he, hs⟩
      obtain ⟨v, hv, rfl⟩ := Feed.map_entry.mp he
      split at hs
      · rename_i hlt
        cases hs
        have := hk k s v hv
        subst this
        exact ⟨⟨v, (hr v).mpr ⟨s, hv, hlt⟩, rfl⟩, hf v⟩
      · cases hs
  rw [← hrows]
  rfl

end

end Keyhole.Vault
