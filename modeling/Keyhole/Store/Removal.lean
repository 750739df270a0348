import Keyhole.Store.Evolves

/-!
# What leaves sight

A row leaves the sight of a user in three ways: it is taken from them
(`uproots`), they are taken from its collection (`expels`), or it is a
tombstone and is purged (`purges`). Only a tombstone announces itself to the
next sync.
-/

namespace Keyhole.Store
open Sql

namespace Command

/-- The command, on this database, takes the row from a user who keeps every
membership: an update moves it to a collection they are not in, or it goes
with the account that owns it. -/
def uproots (db : Db) (userID : Id) (item : Item) : Command → Bool
  | updateItem _ id expected inp =>
    item.id = id && item.deletedAt.isNone && item.revision = expected && inp.validate.isOk &&
      inp.collectionID.any fun c => db.hasCollection c && !db.isMember userID c
  | resetUser _ _ _ _ v actor =>
    db.hasUser v && (actor = "" || db.hasUser actor) && item.ownerUserID = v && item.collectionID = none
  | deleteUser _ _ v actor => deletable v actor db && item.ownerUserID = v
  | _ => false

def expels (db : Db) (userID collectionID : Id) : Command → Bool
  | removeMember _ _ c v by_ => v = userID && c = collectionID && removable c v by_ db
  | deleteCollection c => c = collectionID && db.hasCollection c
  | resetUser _ _ _ _ v actor => v = userID && db.hasUser v && (actor = "" || db.hasUser actor)
  | deleteUser _ _ v actor => v = userID && deletable v actor db
  | _ => false

def purges (deletedAt : Option Time) : Command → Bool
  | purgeTombstones now _ olderThan => expiredTombstone (stamp (now - olderThan)) deletedAt
  | _ => false

def withdraws (db : Db) (userID : Id) (item : Item) (c : Command) : Bool :=
  c.uproots db userID item || c.purges item.deletedAt || item.collectionID.any fun d => c.expels db userID d

def takesFolder (db : Db) (folder : Folder) : Command → Bool
  | resetUser _ _ _ _ v actor => db.hasUser v && (actor = "" || db.hasUser actor) && folder.userID = v
  | deleteUser _ _ v actor => deletable v actor db && folder.userID = v
  | c => c.purges folder.deletedAt

end Command

/-! ## A row that is not taken away stays -/

section
variable {db : Db} {c : Command} {v' : Vault} {u : Id}

theorem row_kept (h : Effect db c v') {item : Item} (hi : item ∈ db.items) (hu : c.uproots db u item = false)
    (hp : c.purges item.deletedAt = false) :
    (∃ row ∈ v'.items, row.id = item.id ∧ row.ownerUserID = item.ownerUserID ∧
      (row.collectionID = item.collectionID ∨
        v'.memberships = db.memberships ∧ ∃ d, row.collectionID = some d ∧ db.isMember u d = true)) ∨
    ∃ d, item.collectionID = some d ∧ c = .deleteCollection d ∧ db.hasCollection d = true ∧
      v' = (cascadeCollection d db).toVault := by
  cases h with
  | still | folderCreated | folderUpdated | folderDeleted | collectionCreated | memberAdded | memberRemoved =>
    exact Or.inl ⟨item, hi, rfl, rfl, Or.inl rfl⟩
  | created new hv hm => exact Or.inl ⟨item, (hm item).mpr (Or.inl hi), rfl, rfl, Or.inl rfl⟩
  | @itemUpdated now id inp hv current hg hd hc =>
    left
    obtain ⟨hmem, hid⟩ := Table.get?_eq_some.mp hg
    by_cases he : item.id = id
    · have hcur : item = current := Table.eq_of_key hi hmem (he.trans hid.symm)
      subst hcur
      refine ⟨_, Table.mem_upsert.mpr (Or.inr rfl), rfl, rfl, ?_⟩
      cases hcol : inp.collectionID with
      | none => left; simp [Item.updated, hcol]
      | some d =>
        right
        refine ⟨rfl, d, by simp [Item.updated, hcol], ?_⟩
        rw [hcol] at hc
        simpa [Command.uproots, he, hd, hv, hcol, Except.isOk, Except.toBool,
          show db.hasCollection d = true from hc]
          using hu
    · exact ⟨item, Table.mem_upsert.mpr (Or.inl ⟨hi, fun hk => he (hk.trans hid)⟩), rfl, rfl, Or.inl rfl⟩
  | itemDeleted current hg hd =>
    left
    obtain ⟨hmem, hid⟩ := Table.get?_eq_some.mp hg
    by_cases he : item.id = current.id
    · have hcur : item = current := Table.eq_of_key hi hmem he
      subst hcur
      exact ⟨_, Table.mem_upsert.mpr (Or.inr rfl), rfl, rfl, Or.inl rfl⟩
    · exact ⟨item, Table.mem_upsert.mpr (Or.inl ⟨hi, he⟩), rfl, rfl, Or.inl rfl⟩
  | @collectionDeleted d hd =>
    by_cases hc : item.collectionID = some d
    · exact Or.inr ⟨d, hc, rfl, hd, rfl⟩
    · exact Or.inl ⟨item, Table.mem_delete.mpr ⟨hi, by simpa using hc⟩, rfl, rfl, Or.inl rfl⟩
  | @reset now inviteID auditID token v actor user hg ha =>
    have hv : db.hasUser v = true := hasUser_of_get? hg
    refine Or.inl ⟨item, Table.mem_delete.mpr ⟨hi, ?_⟩, rfl, rfl, Or.inl rfl⟩
    simpa [Command.uproots, hv, ha] using hu
  | @userDeleted now auditID v actor hdel =>
    refine Or.inl ⟨item, Table.mem_delete.mpr ⟨hi, ?_⟩, rfl, rfl, Or.inl rfl⟩
    simpa [Command.uproots, hdel] using hu
  | purged => exact Or.inl ⟨item, Table.mem_delete.mpr ⟨hi, hp⟩, rfl, rfl, Or.inl rfl⟩

theorem visible_of_row {v' : Vault} {item row : Item} (hv : db.visibleItemsClause u item = true)
    (ho : row.ownerUserID = item.ownerUserID)
    (hc : row.collectionID = item.collectionID ∧
        (∀ d, item.collectionID = some d → db.isMember u d = true → v'.isMember u d = true) ∨
      v'.memberships = db.memberships ∧ ∃ d, row.collectionID = some d ∧ db.isMember u d = true) :
    v'.visibleItemsClause u row = true := by
  rw [visible_iff] at hv ⊢
  rcases hc with ⟨hc, hm⟩ | ⟨hm, d, hd, hmem⟩
  · rcases hv with ⟨hou, hn⟩ | ⟨d, hd, hmem⟩
    · exact Or.inl ⟨ho.trans hou, hc.trans hn⟩
    · exact Or.inr ⟨d, hc.trans hd, hm d hd hmem⟩
  · refine Or.inr ⟨d, hd, ?_⟩
    unfold Vault.isMember at hmem ⊢
    rwa [hm]

theorem visible_kept (h : Effect db c v') (hm : ∀ d, v'.isMember u d = db.isMember u d) {item : Item}
    (hi : item ∈ db.items) (hv : db.visibleItemsClause u item = true) (hu : c.uproots db u item = false)
    (hp : c.purges item.deletedAt = false) :
    ∃ row ∈ v'.items, row.id = item.id ∧ v'.visibleItemsClause u row = true := by
  rcases row_kept h hi hu hp with ⟨row, hr, hid, ho, hc⟩ | ⟨d, hd, -, -, rfl⟩
  · refine ⟨row, hr, hid, visible_of_row hv ho ?_⟩
    exact hc.imp_left fun hc => ⟨hc, fun d _ hmem => (hm d).trans hmem⟩
  · -- its collection went, and the membership it was seen through with it
    exfalso
    rcases visible_iff.mp hv with ⟨-, hn⟩ | ⟨d', hd', hmem⟩
    · rw [hd] at hn
      cases hn
    · rw [hd, Option.some.injEq] at hd'
      subst hd'
      rw [← hm d] at hmem
      obtain ⟨m, hmd, hmc, -⟩ := isMember_iff.mp hmem
      have := (Table.mem_delete.mp hmd).2
      simp [hmc] at this

theorem member_kept (h : Effect db c v') {d : Id} (hm : db.isMember u d = true) (he : c.expels db u d = false) :
    v'.isMember u d = true := by
  obtain ⟨m, hmem, hmd, hmu⟩ := isMember_iff.mp hm
  rw [isMember_iff]
  cases h with
  | still | itemUpdated | itemDeleted | folderCreated | folderUpdated | folderDeleted | purged =>
    exact ⟨m, hmem, hmd, hmu⟩
  | created new hv => rw [hv]; exact ⟨m, hmem, hmd, hmu⟩
  | collectionCreated row m' hid hc hmc hmu' hr hm' =>
    exact ⟨m, (Table.mem_insert? hm').mpr (Or.inl hmem), hmd, hmu⟩
  | @collectionDeleted d' hd' =>
    refine ⟨m, Table.mem_delete.mpr ⟨hmem, ?_⟩, hmd, hmu⟩
    have : d' ≠ d := by simpa [Command.expels, hd'] using he
    simpa [hmd] using this.symm
  | memberAdded m' hr =>
    by_cases hk : m.key = m'.key
    · simp only [Membership.key, Prod.mk.injEq] at hk
      exact ⟨m', Table.mem_upsert.mpr (Or.inr rfl), hk.1 ▸ hmd, hk.2 ▸ hmu⟩
    · exact ⟨m, Table.mem_upsert.mpr (Or.inl ⟨hmem, hk⟩), hmd, hmu⟩
  | memberRemoved hr =>
    refine ⟨m, Table.mem_delete.mpr ⟨hmem, ?_⟩, hmd, hmu⟩
    simp only [Command.expels, hr, Bool.and_true, Bool.and_eq_false_iff, decide_eq_false_iff_not] at he
    simp only [hmd, hmu, Bool.and_eq_false_iff, decide_eq_false_iff_not]
    exact he.symm.imp Ne.symm Ne.symm
  | @reset now inviteID auditID token v actor user hg ha =>
    have hv : db.hasUser v = true := hasUser_of_get? hg
    refine ⟨m, Table.mem_delete.mpr ⟨hmem, ?_⟩, hmd, hmu⟩
    have : v ≠ u := by
      rintro rfl
      rcases ha with ha | ha <;> simp [Command.expels, hv, ha] at he
    simpa [hmu] using this.symm
  | @userDeleted now auditID v actor hdel =>
    refine ⟨m, Table.mem_delete.mpr ⟨hmem, ?_⟩, hmd, hmu⟩
    have : v ≠ u := by simpa [Command.expels, hdel] using he
    simpa [hmu] using this.symm

theorem visible_kept_of_withdraws (h : Effect db c v') {item : Item} (hi : item ∈ db.items)
    (hv : db.visibleItemsClause u item = true) (hw : c.withdraws db u item = false) :
    ∃ row ∈ v'.items, row.id = item.id ∧ v'.visibleItemsClause u row = true := by
  unfold Command.withdraws at hw
  rw [Bool.or_eq_false_iff, Bool.or_eq_false_iff] at hw
  obtain ⟨⟨hu, hp⟩, he⟩ := hw
  rcases row_kept h hi hu hp with ⟨row, hr, hid, ho, hc⟩ | ⟨d, hd, rfl, hdb, -⟩
  · refine ⟨row, hr, hid, visible_of_row hv ho ?_⟩
    refine hc.imp_left fun hc => ⟨hc, fun d hd hmem => member_kept h hmem ?_⟩
    rw [hd] at he
    exact he
  · rw [hd] at he
    simp [Command.expels, hdb] at he

theorem folder_kept (h : Effect db c v') {folder : Folder} (hf : folder ∈ db.folders)
    (ht : c.takesFolder db folder = false) :
    ∃ row ∈ v'.folders, row.id = folder.id ∧ row.userID = folder.userID := by
  cases h with
  | still | itemUpdated | itemDeleted | collectionCreated | collectionDeleted | memberAdded | memberRemoved =>
    exact ⟨folder, hf, rfl, rfl⟩
  | created new hv => rw [hv]; exact ⟨folder, hf, rfl, rfl⟩
  | folderCreated row hi => exact ⟨folder, (Table.mem_insert? hi).mpr (Or.inl hf), rfl, rfl⟩
  | folderUpdated current hg | folderDeleted current hg =>
    by_cases he : folder.id = current.id
    · have hcur : folder = current := Table.eq_of_key hf (Table.get?_eq_some.mp hg).1 he
      subst hcur
      exact ⟨_, Table.mem_upsert.mpr (Or.inr rfl), rfl, rfl⟩
    · exact ⟨folder, Table.mem_upsert.mpr (Or.inl ⟨hf, he⟩), rfl, rfl⟩
  | @reset now inviteID auditID token v actor user hg ha =>
    have hv : db.hasUser v = true := hasUser_of_get? hg
    refine ⟨folder, Table.mem_delete.mpr ⟨hf, ?_⟩, rfl, rfl⟩
    simpa [Command.takesFolder, hv, ha] using ht
  | @userDeleted now auditID v actor hdel =>
    refine ⟨folder, Table.mem_delete.mpr ⟨hf, ?_⟩, rfl, rfl⟩
    simpa [Command.takesFolder, hdel] using ht
  | purged => exact ⟨folder, Table.mem_delete.mpr ⟨hf, ht⟩, rfl, rfl⟩

end

/-! ## Announcement -/

/-- Every item that was in sight and live, and is no longer, reaches the next
sync of the cursor as a tombstone. -/
def RemovalAnnounced (u : Id) (since : Int) (v v' : Vault) : Prop :=
  ∀ item ∈ v.items, v.visibleItemsClause u item = true → item.deletedAt = none →
    (¬ ∃ row ∈ v'.items, row.id = item.id ∧ v'.visibleItemsClause u row = true ∧ row.deletedAt = none) →
      ∃ tomb ∈ (v'.syncSince u (v.syncSince u since).revision).items, tomb.id = item.id ∧ tomb.deletedAt ≠ none

def Quiet (u : Id) (s : Server) (c : Command) : Prop :=
  (∀ d, (s.after c).db.isMember u d = s.db.isMember u d) ∧ ∀ item ∈ s.db.items, c.purges item.deletedAt = false

/-- The step takes from the user no row that is live or whose tombstone they
have still to be sent. -/
def LeavesInSight (u : Id) (cursor : Int) (s : Server) (c : Command) : Prop :=
  ∀ item ∈ s.db.items, s.db.visibleItemsClause u item = true →
    (item.deletedAt = none ∨ cursor < item.revision) →
    c.uproots s.db u item = false

def Owed (u : Id) (cursor : Int) (id : Id) (s : Server) : Prop :=
  cursor ≤ s.db.revisionSequence ∧ ∃ row ∈ s.db.items, row.id = id ∧ s.db.visibleItemsClause u row = true ∧
    (row.deletedAt = none ∨ cursor < row.revision)

theorem owed_step {u : Id} {cursor : Int} {id : Id} {s s' : Server} {c : Command} (h : Server.step s c s')
    (hq : Quiet u s c) (hl : LeavesInSight u cursor s c) (ho : Owed u cursor id s) : Owed u cursor id s' := by
  obtain ⟨hc, row, hr, rfl, hv, hlive⟩ := ho
  have hev := step_evolves h
  obtain ⟨-, rfl⟩ := h
  obtain ⟨row', hr', hid, hv'⟩ := visible_kept (command_effect c s.db) hq.1 hr hv (hl row hr hv hlive) (hq.2 row hr)
  refine ⟨hc.trans hev.clock, row', hr', hid, hv', ?_⟩
  rcases hev.items row' hr' with hold | ⟨hlt, -⟩
  · rw [Table.eq_of_key hold hr hid]
    exact hlive
  · exact Or.inr (lt_of_le_of_lt hc hlt)

/-- **Removals are announced** in every run that changes no membership of the
reader and purges no tombstone, as long as no step moves an item in their sight
to a collection they are not in or takes it with the account of its owner. -/
theorem removal_announced {u : Id} {since : Int} {s t : Server} {cs : List Command}
    (hr : Lts.Run (Lts.Guarded Server.step fun p c =>
      Quiet u p c ∧ LeavesInSight u (s.db.syncSince u since).revision p c) s cs t) :
    RemovalAnnounced u since s.db.toVault t.db.toVault := by
  intro item hi hv hd hgone
  have ho : Owed u (s.db.syncSince u since).revision item.id t := by
    refine hr.inv (P := Owed u _ item.id) ?_ ⟨le_refl _, item, hi, rfl, hv, Or.inl hd⟩
    rintro p c p' ⟨hs, hq, hl⟩ ho
    exact owed_step hs hq hl ho
  obtain ⟨-, row, hrow, hid, hrv, hlive⟩ := ho
  have hdead : row.deletedAt ≠ none := fun hn => hgone ⟨row, hrow, hid, hrv, hn⟩
  have hlt := hlive.resolve_left hdead
  exact ⟨row, mem_syncItems.mpr ⟨hrow, hrv, Or.inl hlt⟩, hid, hdead⟩

theorem quiet_of_eq {u : Id} {s : Server} {c : Command} (hm : (s.after c).db.memberships = s.db.memberships)
    (hp : ∀ item ∈ s.db.items.rows, c.purges item.deletedAt = false) : Quiet u s c := by
  refine ⟨fun d => ?_, hp⟩
  unfold Vault.isMember
  rw [hm]

/-! Ann moves an item out of the one collection bob is in. -/

def householdShared : List Command := enrolls "ann" "user" ++ enrolls "bob" "user" ++ [
  .createCollection 0 "family" "audit-1" "Family" "ann" "sealed-to-ann",
  .createCollection 0 "work" "audit-2" "Work" "ann" "sealed-to-ann",
  .fulfilGrantOrAdd 0 "audit-3" "family" "bob" "sealed-to-bob" "member" "ann",
  .createItem 0 "wifi" "ann" ⟨some "family", "ciphertext", "wrapped-key"⟩]

def householdServer : Server := Server.fresh.script householdShared

def moveToWork : Command := .updateItem 0 "wifi" 4 ⟨some "work", "ciphertext-2", "wrapped-key-2"⟩

theorem moved_item_not_announced :
    ¬ ∀ (u : Id) (since : Int) (s t : Server) (cs : List Command), Lts.Reachable Server.init Server.step s →
      Lts.Run (Lts.Guarded Server.step (Quiet u)) s cs t → RemovalAnnounced u since s.db.toVault t.db.toVault := by
  intro h
  have hs : Lts.Reachable Server.init Server.step householdServer := Server.reachable_script (by decide)
  have hq : Quiet "bob" householdServer moveToWork := quiet_of_eq (by decide) (by decide)
  have hrun : Lts.Run (Lts.Guarded Server.step (Quiet "bob")) householdServer [moveToWork]
      (householdServer.after moveToWork) := .cons ⟨⟨by decide, rfl⟩, hq⟩ (.nil _)
  obtain ⟨tomb, ht, -, -⟩ := h "bob" 0 _ _ _ hs hrun
    (Item.created 0 "ann" 4 "wifi" ⟨some "family", "ciphertext", "wrapped-key"⟩) (by decide) (by decide)
      rfl (by decide)
  have hnone : ((householdServer.after moveToWork).db.syncSince "bob"
    (householdServer.db.syncSince "bob" 0).revision).items
      = [] := by decide
  rw [hnone] at ht
  cases ht

theorem removal_announced_delete :
    RemovalAnnounced "bob" 0 householdServer.db.toVault (householdServer.after (.deleteItem 0 "wifi")).db.toVault :=
  removal_announced (.cons ⟨⟨by decide, rfl⟩, quiet_of_eq (by decide) (by decide), fun _ _ _ _ => rfl⟩ (.nil _))

end Keyhole.Store
