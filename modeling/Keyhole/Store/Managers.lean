import Keyhole.Store.Effect

/-!
# Every collection keeps a manager

Only a manager can seal a collection's key to somebody else. `RemoveMember`
counts the managers before it takes one away. The upsert of a grant, a reset
and the cascade of a deletion take one away without counting.
-/

namespace Keyhole.Store
open Sql

def lastManager (collectionID userID : Id) (db : Db) : Bool :=
  (db.memberships.get? (collectionID, userID)).any fun m => m.role = .manager && countManagers collectionID db ≤ 1

/-- A last manager is not granted the role `member`, and not reset or deleted. -/
def Command.SparesManagers (db : Db) : Command → Prop
  | fulfilGrantOrAdd _ _ collectionID userID _ role _ => role = "member" →
    lastManager collectionID userID db = false
  | fulfilGrant _ _ collectionID userID _ _ =>
    ∀ grant ∈ db.pendingGrants.get? (collectionID, userID), grant.role = "member" →
      lastManager collectionID userID db = false
  | resetUser _ _ _ _ userID _ | deleteUser _ _ userID _ =>
    ∀ m ∈ db.memberships, m.userID = userID → lastManager m.collectionID userID db = false
  | _ => True

instance (db : Db) : (c : Command) → Decidable (c.SparesManagers db)
  | .fulfilGrantOrAdd .. => inferInstanceAs (Decidable (_ → _))
  | .fulfilGrant .. => inferInstanceAs (Decidable (∀ grant ∈ _, _))
  | .resetUser .. | .deleteUser .. => inferInstanceAs (Decidable (∀ m ∈ _, _))
  | .createItem .. | .createItemsBulk .. | .updateItem .. | .deleteItem .. | .createFolder .. | .updateFolder ..
  | .deleteFolder .. | .createCollection .. | .deleteCollection .. | .removeMember .. | .createPendingGrant ..
  | .setUserStatus .. | .purgeTombstones .. | .createPendingUser .. | .createInvite .. | .completeEnrollment ..
  | .createSession .. | .rotateSession .. | .touchSession .. | .revokeSession .. | .revokeSessionForUser ..
  | .rotatePassword .. | .rotateRecovery .. | .createRecoveryToken .. | .completeRecovery .. =>
    inferInstanceAs (Decidable True)

def Vault.hasManager (v : Vault) (collectionID : Id) : Prop :=
  ∃ m ∈ v.memberships, m.collectionID = collectionID ∧ m.role = .manager

def Vault.Managed (v : Vault) : Prop := ∀ c ∈ v.collections, v.hasManager c.id

variable {db : Db} {c : Command} {v' : Vault}

theorem other_manager {collectionID userID : Id} (hm : db.hasManager collectionID)
    (hl : lastManager collectionID userID db = false) :
    ∃ m ∈ db.memberships, m.collectionID = collectionID ∧ m.role = .manager ∧ m.userID ≠ userID := by
  obtain ⟨m, hmem, hc, hrole⟩ := hm
  by_cases hu : m.userID = userID
  · have hg : db.memberships.get? (collectionID, userID) = some m := by
      apply Table.get?_eq_some.mpr
      exact ⟨hmem, by rw [← hc, ← hu]; rfl⟩
    have hmany : 1 < countManagers collectionID db := by
      simpa [lastManager, hg, hrole] using hl
    obtain ⟨m', hmem', hp, hne⟩ := Table.exists_ne_of_count hmany m
    simp only [Bool.and_eq_true, decide_eq_true_eq] at hp
    refine ⟨m', hmem', hp.1, hp.2, ?_⟩
    intro hu'
    apply hne
    apply Table.eq_of_key hmem' hmem
    simp only [Membership.key, hp.1, hc, hu, hu']
  · exact ⟨m, hmem, hc, hrole, hu⟩

theorem removable_spares {collectionID userID removedBy : Id}
    (h : removable collectionID userID removedBy db = true) :
    lastManager collectionID userID db = false := by
  unfold removable at h
  unfold lastManager
  cases hg : db.memberships.get? (collectionID, userID) with
  | none => rfl
  | some m =>
    rw [hg, Bool.and_eq_true] at h
    simpa [imp_iff_not_or] using h.1

theorem validRole_member {text : String} (h : validRole text = some .member) : text = "member" := by
  unfold validRole at h
  split at h
  · assumption
  · split at h <;> cases h

theorem adds_spares {m : Membership} (ha : c.Adds db m) (hs : c.SparesManagers db) (hr : m.role = .member) :
    lastManager m.collectionID m.userID db = false := by
  cases c with
  | fulfilGrantOrAdd now auditID collectionID userID key role by_ =>
    obtain ⟨hc, hu, hrole⟩ := ha
    rw [hc, hu]
    exact hs (validRole_member (hr ▸ hrole))
  | fulfilGrant now auditID collectionID userID key by_ =>
    obtain ⟨hc, hu, grant, hg, hrole⟩ := ha
    rw [hc, hu]
    exact hs grant hg (validRole_member (hr ▸ hrole))
  | _ => exact ha.elim

theorem managed_upsert {m : Membership} (hs : m.role = .member → lastManager m.collectionID m.userID db = false)
    {collectionID : Id} (hm : db.hasManager collectionID) :
    ∃ x ∈ db.memberships.upsert m, x.collectionID = collectionID ∧ x.role = .manager := by
  have hkeep : ∀ x ∈ db.memberships, x.collectionID = collectionID → x.role = .manager → x.key ≠ m.key →
      ∃ x ∈ db.memberships.upsert m, x.collectionID = collectionID ∧ x.role = .manager := by
    intro x hx hc hrole hk
    exact ⟨x, Table.mem_upsert.mpr (Or.inl ⟨hx, hk⟩), hc, hrole⟩
  obtain ⟨x, hx, hc, hrole⟩ := hm
  by_cases hk : x.key = m.key
  · have hc' : m.collectionID = collectionID := (congrArg Prod.fst hk).symm.trans hc
    cases hr : m.role with
    | manager => exact ⟨m, Table.mem_upsert.mpr (Or.inr rfl), hc', hr⟩
    | member =>
      obtain ⟨y, hy, hyc, hyr, hyu⟩ := other_manager ⟨x, hx, hc.trans hc'.symm, hrole⟩ (hs hr)
      exact hkeep y hy (hyc.trans hc') hyr fun hk' => hyu (congrArg Prod.snd hk')
  · exact hkeep x hx hc hrole hk

theorem managed_gone {userID collectionID : Id}
    (hs : ∀ m ∈ db.memberships, m.userID = userID → lastManager m.collectionID userID db = false)
    (hm : db.hasManager collectionID) :
    ∃ m ∈ db.memberships.delete fun m => m.userID = userID, m.collectionID = collectionID ∧
      m.role = .manager := by
  have hother : ∃ m ∈ db.memberships, m.collectionID = collectionID ∧ m.role = .manager ∧
    m.userID ≠ userID := by
    obtain ⟨m, hmem, hc, hrole⟩ := hm
    by_cases hu : m.userID = userID
    · have hl := hs m hmem hu
      rw [hc] at hl
      exact other_manager ⟨m, hmem, hc, hrole⟩ hl
    · exact ⟨m, hmem, hc, hrole, hu⟩
  obtain ⟨m, hmem, hc, hrole, hu⟩ := hother
  exact ⟨m, Table.mem_delete.mpr ⟨hmem, by simpa using hu⟩, hc, hrole⟩

theorem Effect.managed (h : Effect db c v') (hs : c.SparesManagers db) (hm : db.Managed) : v'.Managed := by
  cases h with
  | still | itemUpdated | itemDeleted | folderCreated | folderUpdated | folderDeleted | purged => exact hm
  | created new hv =>
    rw [hv]
    exact hm
  | collectionCreated row m hid hc hmc hmu hr hi hrole =>
    intro d hd
    rcases (Table.mem_insert? hc).mp hd with hd | rfl
    · obtain ⟨x, hx, hxc, hxr⟩ := hm d hd
      exact ⟨x, (Table.mem_insert? hi).mpr (Or.inl hx), hxc, hxr⟩
    · exact ⟨m, (Table.mem_insert? hi).mpr (Or.inr rfl), hmc.trans hid.symm, hrole⟩
  | collectionDeleted =>
    intro d hd
    obtain ⟨hd, hne⟩ := Table.mem_delete.mp hd
    obtain ⟨x, hx, hxc, hxr⟩ := hm d hd
    exact ⟨x, Table.mem_delete.mpr ⟨hx, by rw [hxc]; exact hne⟩, hxc, hxr⟩
  | memberAdded m hr ha =>
    intro d hd
    exact managed_upsert (adds_spares ha hs) (hm d hd)
  | @memberRemoved now auditID collectionID userID by_ h =>
    intro d hd
    by_cases hc : d.id = collectionID
    · subst hc
      obtain ⟨x, hx, hxc, hxr, hxu⟩ := other_manager (hm d hd) (removable_spares h)
      exact ⟨x, Table.mem_delete.mpr ⟨hx, by simp [hxu]⟩, hxc, hxr⟩
    · obtain ⟨x, hx, hxc, hxr⟩ := hm d hd
      exact ⟨x, Table.mem_delete.mpr ⟨hx, by simp [hxc, hc]⟩, hxc, hxr⟩
  | reset u hu ha =>
    intro d hd
    exact managed_gone hs (hm d hd)
  | userDeleted hdel =>
    intro d hd
    exact managed_gone hs (hm d hd)

/-- Where a last manager is neither granted the role `member` nor reset nor
deleted, every collection of every state reached has a manager. -/
theorem collection_keeps_manager {s t : Server} {cs : List Command} (hs : Server.init s)
    (h : Lts.Run (Lts.Guarded Server.step fun s c => c.SparesManagers s.db) s cs t) : t.db.toVault.Managed := by
  refine h.inv (P := fun s => s.db.toVault.Managed) ?_ ?_
  · intro s c s' hstep hm
    obtain ⟨⟨-, rfl⟩, hspares⟩ := hstep
    exact (command_effect c s.db).managed hspares hm
  · rw [hs]
    intro c hc
    cases hc

def familyOfTwo : List Command := enrolls "ann" "user" ++ enrolls "bob" "user" ++ [
  .createCollection 0 "family" "audit-1" "Family" "ann" "sealed-to-ann",
  .fulfilGrantOrAdd 0 "audit-2" "family" "bob" "sealed-to-bob" "manager" "ann",
  .removeMember 0 "audit-3" "family" "ann" "bob"]

theorem collection_keeps_manager_handover : (Server.fresh.script familyOfTwo).db.toVault.Managed :=
  collection_keeps_manager rfl (Lts.run_guarded_script (by decide))

/-- Ann, the only manager, adds herself again as a member. -/
def annStepsDown : List Command := enrolls "ann" "user" ++ [
  .createCollection 0 "family" "audit-1" "Family" "ann" "sealed-to-ann",
  .fulfilGrantOrAdd 0 "audit-2" "family" "ann" "sealed-to-ann" "member" "ann"]

theorem regrant_takes_last_manager :
    ¬ ∀ s t cs, Server.init s → Lts.Run Server.step s cs t → t.db.toVault.Managed := by
  intro h
  have hm := h Server.fresh (Server.fresh.script annStepsDown) annStepsDown rfl (Server.run_script (by decide))
  have hno : ∀ m ∈ (Server.fresh.script annStepsDown).db.memberships, m.role ≠ .manager := by decide
  obtain ⟨m, hmem, -, hrole⟩ := hm ⟨"family", "Family", "ann", 0⟩ (by decide)
  exact hno m hmem hrole

end Keyhole.Store
