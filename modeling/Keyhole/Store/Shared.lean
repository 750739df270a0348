import Keyhole.Store.Effect

/-!
# What goes with a person

A reset deletes the personal items of an account. A deletion cascades from
the users row, and the cascade goes by who owns an item, not by where it is:
the owner of an item in a collection is whoever created it, and no update or
move changes that.
-/

namespace Keyhole.Store
open Sql

/-- Only personal items of `userID` and rows of their own account are missing from `db'`. -/
structure OthersKept (userID : Id) (db db' : Db) : Prop where
  items : ∀ item ∈ db.items, (item.ownerUserID = userID → item.collectionID ≠ none) → item ∈ db'.items
  folders : ∀ folder ∈ db.folders, folder.userID ≠ userID → folder ∈ db'.folders
  collections : ∀ c ∈ db.collections, c ∈ db'.collections
  memberships : ∀ m ∈ db.memberships, m.userID ≠ userID → m ∈ db'.memberships
  pendingGrants : ∀ g ∈ db.pendingGrants, g.userID ≠ userID → g ∈ db'.pendingGrants
  users : ∀ u ∈ db.users, u.id ≠ userID → u ∈ db'.users
  invites : ∀ inv ∈ db.invites, inv.userID ≠ userID → inv ∈ db'.invites
  recoveryTokens : ∀ rt ∈ db.recoveryTokens, rt.userID ≠ userID → rt ∈ db'.recoveryTokens
  sessions : ∀ s ∈ db.sessions, s.userID ≠ userID → s ∈ db'.sessions
  auditLog : ∀ entry ∈ db.auditLog, ∃ entry' ∈ db'.auditLog, entry'.id = entry.id ∧
    entry'.action = entry.action ∧
    entry'.target = entry.target

/-- A live item in a collection with a member other than `userID`. -/
def Vault.sharedWithout (v : Vault) (userID : Id) (item : Item) : Prop :=
  item ∈ v.items ∧ item.deletedAt = none ∧
    ∃ m ∈ v.memberships, item.collectionID = some m.collectionID ∧ m.userID ≠ userID

/-- Such items are the same rows in `v'`, and those members still see them. -/
def SharedKept (userID : Id) (v v' : Vault) : Prop :=
  ∀ item, v.sharedWithout userID item → item ∈ v'.items ∧
    ∀ m ∈ v.memberships, item.collectionID = some m.collectionID → m.userID ≠ userID →
      v'.visibleItemsClause m.userID item = true

namespace OthersKept

variable {userID : Id} {now : Time}

theorem refl (db : Db) : OthersKept userID db db := by
  refine ⟨?_, ?_, ?_, ?_, ?_, ?_, ?_, ?_, ?_, ?_⟩
  · exact fun item h _ => h
  · exact fun folder h _ => h
  · exact fun c h => h
  · exact fun m h _ => h
  · exact fun g h _ => h
  · exact fun u h _ => h
  · exact fun inv h _ => h
  · exact fun rt h _ => h
  · exact fun s h _ => h
  · exact fun entry h => ⟨entry, h, rfl, rfl, rfl⟩

theorem trans (a b c : Db) (h : OthersKept userID a b) (h' : OthersKept userID b c) : OthersKept userID a c where
  items item hi ho := h'.items item (h.items item hi ho) ho
  folders f hf hu := h'.folders f (h.folders f hf hu) hu
  collections c hc := h'.collections c (h.collections c hc)
  memberships m hm hu := h'.memberships m (h.memberships m hm hu) hu
  pendingGrants g hg hu := h'.pendingGrants g (h.pendingGrants g hg hu) hu
  users u hu hid := h'.users u (h.users u hu hid) hid
  invites inv hi hu := h'.invites inv (h.invites inv hi hu) hu
  recoveryTokens rt hr hu := h'.recoveryTokens rt (h.recoveryTokens rt hr hu) hu
  sessions s hs hu := h'.sessions s (h.sessions s hs hu) hu
  auditLog e he := by
    obtain ⟨e₁, h₁, hid, ha, ht⟩ := h.auditLog e he
    obtain ⟨e₂, h₂, hid', ha', ht'⟩ := h'.auditLog e₁ h₁
    exact ⟨e₂, h₂, hid'.trans hid, ha'.trans ha, ht'.trans ht⟩

theorem sharedKept {db db' : Db} (h : OthersKept userID db db') : SharedKept userID db.toVault db'.toVault := by
  intro item hs
  obtain ⟨hi, -, m₀, -, hc₀, -⟩ := hs
  refine ⟨h.items item hi fun _ => by simp [hc₀], ?_⟩
  intro m hm hc hu
  rw [visible_iff]
  right
  exact ⟨m.collectionID, hc, isMember_iff.mpr ⟨m, h.memberships m hm hu, rfl, rfl⟩⟩

/-! ## The statements of a reset -/

open Prog

theorem appendAudit_keeps (id : Id) (actor action target : String) (md : List (String × String)) :
    (appendAudit id now actor action target md).Keeps (OthersKept userID) := by
  apply keeps_sql
  intro db u db' h
  obtain ⟨auditLog, hi, -, rfl⟩ := insertAudit_ok h
  refine { OthersKept.refl db with auditLog := ?_ }
  intro entry he
  exact ⟨entry, (Table.mem_insert? hi).mpr (Or.inl he), rfl, rfl, rfl⟩

theorem updateUserRow_keeps (f : User → User) (hf : ∀ u, (f u).id = u.id) :
    (write (updateUserRow (fun user => user.id = userID) f hf)).Keeps (OthersKept userID) := by
  apply keeps_write
  intro db
  refine { OthersKept.refl db with users := ?_ }
  intro u hu hid
  show u ∈ db.users.update _ f hf
  exact Table.mem_update.mpr (Or.inl ⟨hu, by simpa using hid⟩)

theorem revokeSessionsOf_keeps : (revokeSessionsOf now userID).Keeps (OthersKept userID) := by
  refine keeps_bind (keeps_write ?_) fun _ => keeps_pure _
  intro db
  refine { OthersKept.refl db with sessions := ?_ }
  intro s hs hu
  show s ∈ db.sessions.update _ (·.revoked now) fun _ => rfl
  exact Table.mem_update.mpr (Or.inl ⟨hs, by simp [hu]⟩)

theorem deletePersonalItems_keeps : (write (deletePersonalItems userID)).Keeps (OthersKept userID) := by
  apply keeps_write
  intro db
  refine { OthersKept.refl db with items := ?_ }
  intro item hi ho
  exact Table.mem_delete.mpr ⟨hi, by simpa using ho⟩

theorem deleteFoldersOf_keeps : (write (deleteFoldersOf userID)).Keeps (OthersKept userID) := by
  apply keeps_write
  intro db
  refine { OthersKept.refl db with folders := ?_ }
  intro f hf hu
  exact Table.mem_delete.mpr ⟨hf, by simpa using hu⟩

theorem deleteMembershipsOf_keeps : (write (deleteMembershipsOf userID)).Keeps (OthersKept userID) := by
  apply keeps_write
  intro db
  refine { OthersKept.refl db with memberships := ?_ }
  intro m hm hu
  exact Table.mem_delete.mpr ⟨hm, by simpa using hu⟩

theorem deletePendingGrantsOf_keeps : (write (deletePendingGrantsOf userID)).Keeps (OthersKept userID) := by
  apply keeps_write
  intro db
  refine { OthersKept.refl db with pendingGrants := ?_ }
  intro g hg hu
  exact Table.mem_delete.mpr ⟨hg, by simpa using hu⟩

theorem createInviteTx_keeps (id : Id) (token : String) (ttl : Time) :
    (createInviteTx now id token userID ttl).Keeps (OthersKept userID) := by
  refine keeps_bind (keeps_sql ?_) fun _ => keeps_pure _
  intro db u db' h
  obtain ⟨invites, hi, -, -, rfl⟩ := insertInvite_ok h
  refine { OthersKept.refl db with invites := ?_ }
  intro inv hinv _
  exact (Table.mem_insert? hi).mpr (Or.inl hinv)

theorem resetUserTx_keeps (inviteID auditID : Id) (token : String) (actorID : Id) :
    (resetUserTx now inviteID auditID token userID actorID).Keeps (OthersKept userID) := by
  refine keeps_bind (updateUserRow_keeps (·.reset now) _) fun _ => keeps_bind (keeps_require _ _) fun _ => ?_
  refine keeps_bind deletePersonalItems_keeps fun _ => keeps_bind deleteFoldersOf_keeps fun _ => ?_
  refine keeps_bind deleteMembershipsOf_keeps fun _ => keeps_bind deletePendingGrantsOf_keeps fun _ => ?_
  refine keeps_bind revokeSessionsOf_keeps fun _ => keeps_bind (createInviteTx_keeps _ _ _) fun _ => ?_
  exact keeps_bind (appendAudit_keeps _ _ _ _ _) fun _ => keeps_pure _

theorem resetUser (inviteID auditID : Id) (token : String) (actorID : Id) (db : Db) :
    OthersKept userID db (resetUser now inviteID auditID token userID actorID db).2 :=
  Prog.transact_keeps refl trans (resetUserTx_keeps inviteID auditID token actorID) db

/-! ## The cascade of a deletion -/

theorem cascadeUser {db : Db} (h : ∀ item ∈ db.items, item.ownerUserID = userID → item.collectionID = none) :
    OthersKept userID db (cascadeUser userID db) where
  items item hi ho := Table.mem_delete.mpr ⟨hi, by
    rw [decide_eq_false_iff_not]
    intro howner
    exact ho howner (h item hi howner)⟩
  folders f hf hu := Table.mem_delete.mpr ⟨hf, by simpa using hu⟩
  collections c hc := hc
  memberships m hm hu := Table.mem_delete.mpr ⟨hm, by simpa using hu⟩
  pendingGrants g hg hu := Table.mem_delete.mpr ⟨hg, by simpa using hu⟩
  users u hu hid := Table.mem_delete.mpr ⟨hu, by simpa using hid⟩
  invites inv hi hu := Table.mem_delete.mpr ⟨hi, by simpa using hu⟩
  recoveryTokens rt hr hu := Table.mem_delete.mpr ⟨hr, by simpa using hu⟩
  sessions s hs hu := Table.mem_delete.mpr ⟨hs, by simpa using hu⟩
  auditLog entry he := by
    show ∃ entry' ∈ db.auditLog.update _ (fun entry => { entry with actorUserID := none }) fun _ => rfl, _
    by_cases ha : entry.actorUserID = some userID
    · exact ⟨_, Table.mem_update.mpr (Or.inr ⟨entry, he, by simpa using ha, rfl⟩), rfl, rfl, rfl⟩
    · exact ⟨entry, Table.mem_update.mpr (Or.inl ⟨he, by simpa using ha⟩), rfl, rfl, rfl⟩

theorem deleteUser {auditID actorID : Id} {db db' : Db}
    (h : deleteUser now auditID userID actorID db = (.ok (), db'))
    (ho : ∀ item ∈ db.items, item.ownerUserID = userID → item.collectionID = none) :
    OthersKept userID db db' := by
  have hx := Prog.transact_ok (congrArg Prod.fst h)
  rw [show (deleteUserTx now auditID userID actorID).transact db = _ from h] at hx
  simp only [deleteUserTx, Prog.exec_bind_ok, exec_sql_ok] at hx
  obtain ⟨_, db₁, h₁, _, db₂, h₂, h₃⟩ := hx
  obtain ⟨-, rfl⟩ := notLastAdmin_ok h₁
  unfold deleteUserRow at h₂
  split at h₂
  · cases h₂
  · cases h₂
    exact (OthersKept.cascadeUser ho).trans _ _ _ (Prog.exec_keeps refl trans (appendAudit_keeps _ _ _ _ _) h₃)

end OthersKept

theorem deleteUser_cascades {now : Time} {auditID userID actorID : Id} {db db' : Db}
    (h : deleteUser now auditID userID actorID db = (.ok (), db')) :
    ∃ auditLog, db' = { cascadeUser userID db with auditLog } := by
  have hx := Prog.transact_ok (congrArg Prod.fst h)
  rw [show (deleteUserTx now auditID userID actorID).transact db = _ from h] at hx
  obtain ⟨auditLog, -, hdb⟩ := deleteUserTx_ok hx
  exact ⟨auditLog, hdb⟩

theorem mem_cascade_items {userID : Id} {db : Db} {item : Item} :
    item ∈ (cascadeUser userID db).items ↔ item ∈ db.items ∧ item.ownerUserID ≠ userID := by
  simp only [cascadeUser, Table.mem_delete, decide_eq_false_iff_not, ne_eq]

theorem sharedKept_cascade {userID : Id} {db : Db} :
    SharedKept userID db.toVault (cascadeUser userID db).toVault ↔
      ∀ item, db.sharedWithout userID item → item.ownerUserID ≠ userID := by
  constructor
  · intro hkept item hs
    exact (mem_cascade_items.mp (hkept item hs).1).2
  · intro ho item hs
    refine ⟨mem_cascade_items.mpr ⟨hs.1, ho item hs⟩, ?_⟩
    intro m hm hc hu
    have hstays : m ∈ (cascadeUser userID db).memberships := Table.mem_delete.mpr ⟨hm, by simpa using hu⟩
    rw [visible_iff]
    right
    exact ⟨m.collectionID, hc, isMember_iff.mpr ⟨m, hstays, rfl, rfl⟩⟩

/-- A reset takes nobody else's data. A deletion takes the shared items the
user created, and everything else of theirs that is in a collection. -/
theorem removal_keeps_shared (now : Time) (inviteID auditID : Id) (token : String) (userID actorID : Id) (db : Db) :
    OthersKept userID db (resetUser now inviteID auditID token userID actorID db).2 ∧
    SharedKept userID db.toVault (resetUser now inviteID auditID token userID actorID db).2.toVault ∧
    match deleteUser now auditID userID actorID db with
    | (.error _, db') => db' = db
    | (.ok (), db') =>
      (OthersKept userID db db' ↔ ∀ item ∈ db.items, item.ownerUserID = userID → item.collectionID = none) ∧
      (SharedKept userID db.toVault db'.toVault ↔ ∀ item, db.sharedWithout userID item →
        item.ownerUserID ≠ userID) := by
  have hreset : OthersKept userID db (resetUser now inviteID auditID token userID actorID db).2 :=
    OthersKept.resetUser inviteID auditID token actorID db
  refine ⟨hreset, hreset.sharedKept, ?_⟩
  split
  · rename_i e db' h
    have ht := Prog.transact_error (congrArg Prod.fst h)
    rwa [show (deleteUserTx now auditID userID actorID).transact db = _ from h] at ht
  · rename_i db' h
    obtain ⟨auditLog, hdb⟩ := deleteUser_cascades h
    refine ⟨⟨?_, OthersKept.deleteUser h⟩, ?_⟩
    · intro hkept item hi ho
      by_contra hc
      have hstays := hkept.items item hi fun _ => hc
      rw [hdb] at hstays
      exact (mem_cascade_items.mp hstays).2 ho
    · rw [hdb]
      exact sharedKept_cascade

/-! Bob, a member, creates an item in ann's collection and is deleted. -/

def bobContributes : List Command := enrolls "ann" "admin" ++ enrolls "bob" "user" ++ [
  .createCollection 0 "family" "audit-1" "Family" "ann" "sealed-to-ann",
  .fulfilGrantOrAdd 0 "audit-2" "family" "bob" "sealed-to-bob" "member" "ann",
  .createItem 0 "wifi" "bob" ⟨some "family", "ciphertext", "wrapped-key"⟩]

theorem deletion_takes_shared_item :
    ¬ ∀ s now auditID userID actorID db', Lts.Reachable Server.init Server.step s →
      deleteUser now auditID userID actorID s.db = (.ok (), db') → SharedKept userID s.db.toVault db'.toVault := by
  intro h
  have hs : Lts.Reachable Server.init Server.step (Server.fresh.script bobContributes) :=
    Server.reachable_script (by decide)
  have hdel : (deleteUser 0 "audit-3" "bob" "ann" (Server.fresh.script bobContributes).db).1 = .ok () := by decide
  have hkept := h _ 0 "audit-3" "bob" "ann" _ hs (Prod.ext hdel rfl)
  have hwifi : (Server.fresh.script bobContributes).db.sharedWithout "bob"
      (Item.created 0 "bob" 3 "wifi" ⟨some "family", "ciphertext", "wrapped-key"⟩) := by
    refine ⟨by decide, rfl, ⟨"family", "ann", "sealed-to-ann", .manager, "ann", 0, 1⟩, by decide,
      rfl, by decide⟩
  have hgone : (deleteUser 0 "audit-3" "bob" "ann" (Server.fresh.script bobContributes).db).2.items.rows = [] := by
    decide
  have hmem : _ ∈ (deleteUser 0 "audit-3" "bob" "ann" (Server.fresh.script bobContributes).db).2.items.rows :=
    (hkept _ hwifi).1
  rw [hgone] at hmem
  cases hmem

end Keyhole.Store
