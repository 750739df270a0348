import Mathlib.Order.MinMax
import Keyhole.Lib.Feed
import Keyhole.Lib.Stamped
import Keyhole.Store.Effect

/-!
# The vault as a change feed

No command writes an item, a folder or a membership without a new value of
the revision sequence. So what a user sees is a feed whose clock is the
sequence: an item is stamped with its revision or with the revision of the
membership it is seen through, whichever is later.
-/

namespace Keyhole.Store
open Sql

structure Evolves (v v' : Vault) : Prop where
  clock : v.revisionSequence ≤ v'.revisionSequence
  items : Wrote Item.revision v.revisionSequence v'.revisionSequence v.items v'.items
  folders : Wrote Folder.revision v.revisionSequence v'.revisionSequence v.folders v'.folders
  memberships :
    Wrote Membership.grantedRevision v.revisionSequence v'.revisionSequence v.memberships v'.memberships

theorem Evolves.refl (v : Vault) : Evolves v v :=
  ⟨le_refl _, wrote_refl _ _ _, wrote_refl _ _ _, wrote_refl _ _ _⟩

theorem Evolves.trans {v v' v'' : Vault} (h : Evolves v v') (h' : Evolves v' v'') : Evolves v v'' where
  clock := h.clock.trans h'.clock
  items := wrote_trans h.clock h'.clock h.items h'.items
  folders := wrote_trans h.clock h'.clock h.folders h'.folders
  memberships := wrote_trans h.clock h'.clock h.memberships h'.memberships

/-! ## One command, a run -/

theorem effect_evolves {db : Db} {c : Command} {v' : Vault} (h : Effect db c v') : Evolves db.toVault v' := by
  have hlt : db.revisionSequence < db.revisionSequence + 1 := by omega
  have hle : db.revisionSequence ≤ db.revisionSequence + 1 := by omega
  cases h with
  | still => exact Evolves.refl _
  | created new hv hm hn hs =>
    rw [hv]
    refine ⟨hs, ?_, wrote_refl _ _ _, wrote_refl _ _ _⟩
    intro x hx
    rcases (hm x).mp hx with h | h
    · exact Or.inl h
    · obtain ⟨-, -, -, -, hr, hr'⟩ := hn x h
      exact Or.inr ⟨hr, hr'⟩
  | itemUpdated hv current => exact ⟨hle, wrote_upsert _ hlt (le_refl _), wrote_refl _ _ _, wrote_refl _ _ _⟩
  | itemDeleted current => exact ⟨hle, wrote_upsert _ hlt (le_refl _), wrote_refl _ _ _, wrote_refl _ _ _⟩
  | folderCreated folder hi hid hr =>
    exact ⟨hle, wrote_refl _ _ _, wrote_insert hi (hr ▸ hlt) (hr ▸ le_refl _), wrote_refl _ _ _⟩
  | folderUpdated current => exact ⟨hle, wrote_refl _ _ _, wrote_upsert _ hlt (le_refl _), wrote_refl _ _ _⟩
  | folderDeleted current => exact ⟨hle, wrote_refl _ _ _, wrote_upsert _ hlt (le_refl _), wrote_refl _ _ _⟩
  | collectionCreated row m hid hc hmc hmu hr hm =>
    exact ⟨hle, wrote_refl _ _ _, wrote_refl _ _ _, wrote_insert hm (hr ▸ hlt) (hr ▸ le_refl _)⟩
  | collectionDeleted => exact ⟨le_refl _, wrote_delete _ _ _ _, wrote_refl _ _ _, wrote_delete _ _ _ _⟩
  | memberAdded m hr =>
    exact ⟨hle, wrote_refl _ _ _, wrote_refl _ _ _, wrote_upsert _ (hr ▸ hlt) (hr ▸ le_refl _)⟩
  | memberRemoved => exact ⟨le_refl _, wrote_refl _ _ _, wrote_refl _ _ _, wrote_delete _ _ _ _⟩
  | reset => exact ⟨le_refl _, wrote_delete _ _ _ _, wrote_delete _ _ _ _, wrote_delete _ _ _ _⟩
  | userDeleted => exact ⟨le_refl _, wrote_delete _ _ _ _, wrote_delete _ _ _ _, wrote_delete _ _ _ _⟩
  | purged => exact ⟨le_refl _, wrote_delete _ _ _ _, wrote_delete _ _ _ _, wrote_refl _ _ _⟩

theorem step_evolves {s s' : Server} {c : Command} (h : Server.step s c s') :
    Evolves s.db.toVault s'.db.toVault := by
  rw [h.2]
  exact effect_evolves (command_effect c s.db)

theorem run_evolves {s t : Server} {cs : List Command} (h : Lts.Run Server.step s cs t) :
    Evolves s.db.toVault t.db.toVault :=
  Lts.Run.rel (R := fun s t : Server => Evolves s.db.toVault t.db.toVault) (fun s => Evolves.refl s.db.toVault)
    (fun _ _ _ => Evolves.trans) (fun _ _ _ => step_evolves) h

structure Vault.Bounded (v : Vault) : Prop where
  items : ∀ item ∈ v.items, 0 < item.revision ∧ item.revision ≤ v.revisionSequence
  folders : ∀ folder ∈ v.folders, 0 < folder.revision ∧ folder.revision ≤ v.revisionSequence
  memberships : ∀ m ∈ v.memberships, 0 < m.grantedRevision ∧ m.grantedRevision ≤ v.revisionSequence

theorem bounded_of_fresh {v : Vault} (h : Evolves Db.fresh.toVault v) : v.Bounded where
  items item hi := (h.items item hi).resolve_left (Table.mem_empty item)
  folders folder hf := (h.folders folder hf).resolve_left (Table.mem_empty folder)
  memberships m hm := (h.memberships m hm).resolve_left (Table.mem_empty m)

theorem reachable_bounded {s : Server} (h : Lts.Reachable Server.init Server.step s) : s.db.toVault.Bounded := by
  obtain ⟨s₀, cs, rfl, hr⟩ := h
  exact bounded_of_fresh (run_evolves hr)

/-! ## The two feeds of a user -/

def Vault.grantOf (v : Vault) (userID collectionID : Id) : Option Int :=
  (v.memberships.get? (collectionID, userID)).map (·.grantedRevision)

/-- The stamp an item reaches the user under; `none` when the user does not see it. -/
def Vault.stampFor (v : Vault) (userID : Id) (item : Item) : Option Int :=
  match item.collectionID with
  | none => if item.ownerUserID = userID then some item.revision else none
  | some c => (v.grantOf userID c).map (max item.revision)

def Vault.itemFeed (v : Vault) (userID : Id) : Feed.View Id Item where
  clock := v.revisionSequence
  entry id := (v.items.get? id).bind fun item => (v.stampFor userID item).map fun s => (s, item)

def Vault.folderFeed (v : Vault) (userID : Id) : Feed.View Id Folder where
  clock := v.revisionSequence
  entry id := (v.folders.get? id).bind fun folder =>
    if folder.userID = userID then some (folder.revision, folder) else none

theorem isMember_eq_grantOf (v : Vault) (u c : Id) : v.isMember u c = (v.grantOf u c).isSome := by
  rw [Bool.eq_iff_iff, isMember_iff]
  unfold Vault.grantOf
  rw [Option.isSome_map, Table.get?_isSome]
  refine exists_congr fun m => and_congr_right fun _ => ?_
  simp [Membership.key]

theorem stampFor_isSome (v : Vault) (u : Id) (item : Item) :
    (v.stampFor u item).isSome = v.visibleItemsClause u item := by
  unfold Vault.stampFor Vault.visibleItemsClause
  cases item.collectionID with
  | none => by_cases h : item.ownerUserID = u <;> simp [h]
  | some c => simp [isMember_eq_grantOf]

theorem stampFor_revision {v : Vault} {u : Id} {item : Item} {s : Int} (h : v.stampFor u item = some s) :
    item.revision ≤ s := by
  unfold Vault.stampFor at h
  split at h
  · split at h <;> cases h
    exact le_refl _
  · obtain ⟨g, -, rfl⟩ := Option.map_eq_some_iff.mp h
    exact le_max_left _ _

theorem changedSince_iff {v : Vault} {u : Id} {item : Item} {s since : Int} (h : v.stampFor u item = some s) :
    v.changedSinceClause u since item = true ↔ since < s ∨ since < item.revision := by
  unfold Vault.changedSinceClause
  rw [Bool.or_eq_true, decide_eq_true_eq, Table.any_eq_true]
  unfold Vault.stampFor at h
  split at h
  · rename_i hc
    split at h <;> cases h
    simp [hc]
  · rename_i c hc
    obtain ⟨g, hg, rfl⟩ := Option.map_eq_some_iff.mp h
    unfold Vault.grantOf at hg
    obtain ⟨m, hm, rfl⟩ := Option.map_eq_some_iff.mp hg
    obtain ⟨hmem, hkey⟩ := Table.get?_eq_some.mp hm
    simp only [Membership.key, Prod.mk.injEq] at hkey
    obtain ⟨hmc, hmu⟩ := hkey
    constructor
    · rintro (h | ⟨m', hm', hp⟩)
      · exact Or.inr h
      · simp only [hc, Option.some.injEq, Bool.and_eq_true, decide_eq_true_eq] at hp
        obtain ⟨⟨hc', hu'⟩, hlt⟩ := hp
        have : m' = m := Table.eq_of_key hm' hmem (by simp [Membership.key, hmc, hmu, ← hc', hu'])
        subst this
        exact Or.inl (lt_max_of_lt_right hlt)
    · rintro (h | h)
      · rcases lt_max_iff.mp h with h | h
        · exact Or.inl h
        · exact Or.inr ⟨m, hmem, by simp [hc, hmc, hmu, h]⟩
      · exact Or.inl h

theorem itemFeed_entry {v : Vault} {u id : Id} {s : Int} {item : Item} :
    (v.itemFeed u).entry id = some (s, item) ↔ item ∈ v.items ∧ item.id = id ∧ v.stampFor u item = some s := by
  unfold Vault.itemFeed
  simp only [Option.bind_eq_some_iff, Option.map_eq_some_iff, Prod.mk.injEq, Table.get?_eq_some]
  constructor
  · rintro ⟨x, ⟨hx, hid⟩, s', hs, rfl, rfl⟩
    exact ⟨hx, hid, hs⟩
  · rintro ⟨hx, hid, hs⟩
    exact ⟨item, ⟨hx, hid⟩, s, hs, rfl, rfl⟩

theorem folderFeed_entry {v : Vault} {u id : Id} {s : Int} {folder : Folder} :
    (v.folderFeed u).entry id = some (s, folder) ↔
      folder ∈ v.folders ∧ folder.id = id ∧ folder.userID = u ∧ folder.revision = s := by
  unfold Vault.folderFeed
  simp only [Option.bind_eq_some_iff, Table.get?_eq_some]
  constructor
  · rintro ⟨x, ⟨hx, hid⟩, h⟩
    split at h
    · rename_i hu
      cases h
      exact ⟨hx, hid, hu, rfl⟩
    · cases h
  · rintro ⟨hx, hid, hu, rfl⟩
    exact ⟨folder, ⟨hx, hid⟩, by rw [if_pos hu]⟩

theorem stampFor_old {v v' : Vault} (h : Evolves v v') {u : Id} {item : Item} {s : Int}
    (hs : v'.stampFor u item = some s) (hle : s ≤ v.revisionSequence) : v.stampFor u item = some s := by
  unfold Vault.stampFor at hs ⊢
  split at hs
  · exact hs
  · rename_i c hc
    obtain ⟨g, hg, rfl⟩ := Option.map_eq_some_iff.mp hs
    unfold Vault.grantOf at hg ⊢
    obtain ⟨m, hm, rfl⟩ := Option.map_eq_some_iff.mp hg
    obtain ⟨hmem, hkey⟩ := Table.get?_eq_some.mp hm
    have hold := (h.memberships m hmem).resolve_right fun hlt =>
      absurd ((le_max_right _ _).trans hle) (not_le.mpr hlt.1)
    rw [Table.get?_eq_some.mpr ⟨hold, hkey⟩]
    rfl

/-- The items of a user are a feed: what is visible with a stamp up to the
old sequence was visible then, in the same version and under the same stamp. -/
theorem itemFeed_later {v v' : Vault} (h : Evolves v v') (u : Id) : Feed.Later (v.itemFeed u) (v'.itemFeed u) where
  clock := h.clock
  old id s item he hs := by
    obtain ⟨hi, hid, hst⟩ := itemFeed_entry.mp he
    have hold := (h.items item hi).resolve_right fun hlt =>
      absurd ((stampFor_revision hst).trans hs) (not_le.mpr hlt.1)
    exact itemFeed_entry.mpr ⟨hold, hid, stampFor_old h hst hs⟩

theorem folderFeed_later {v v' : Vault} (h : Evolves v v') (u : Id) :
    Feed.Later (v.folderFeed u) (v'.folderFeed u) where
  clock := h.clock
  old id s folder he hs := by
    obtain ⟨hf, hid, hu, rfl⟩ := folderFeed_entry.mp he
    have hold := (h.folders folder hf).resolve_right fun hlt => absurd hs (not_le.mpr hlt.1)
    exact folderFeed_entry.mpr ⟨hold, hid, hu, rfl⟩

theorem itemFeed_bounded {v : Vault} (h : v.Bounded) (u : Id) : (v.itemFeed u).Bounded := by
  intro id s item he
  obtain ⟨hi, -, hs⟩ := itemFeed_entry.mp he
  unfold Vault.stampFor at hs
  split at hs
  · split at hs <;> cases hs
    exact (h.items item hi).2
  · obtain ⟨g, hg, rfl⟩ := Option.map_eq_some_iff.mp hs
    unfold Vault.grantOf at hg
    obtain ⟨m, hm, rfl⟩ := Option.map_eq_some_iff.mp hg
    exact max_le (h.items item hi).2 (h.memberships m (Table.get?_eq_some.mp hm).1).2

theorem folderFeed_bounded {v : Vault} (h : v.Bounded) (u : Id) : (v.folderFeed u).Bounded := by
  intro id s folder he
  obtain ⟨hf, -, -, rfl⟩ := folderFeed_entry.mp he
  exact (h.folders folder hf).2

end Keyhole.Store
