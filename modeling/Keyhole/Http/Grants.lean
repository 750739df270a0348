import Keyhole.Http.Items
import Keyhole.Store.References

/-!
# Pending grants, offered and fulfilled

The list a client works through and the handler it then calls, each with its
own rule for who may complete a grant.
-/

namespace Keyhole

namespace Store
open Sql

structure ListedGrant extends PendingGrant where
  collectionName : String
  deriving DecidableEq, Repr

def Db.pendingGrantsFulfillableBy (userID : Id) (db : Db) : List ListedGrant :=
  let joined := db.pendingGrants.rows.filterMap fun g =>
    if db.isMember userID g.collectionID then
      (db.collections.get? g.collectionID).map fun c => ({ g with collectionName := c.name } : ListedGrant)
    else none
  joined.insertionSort fun a b => a.createdAt ≤ b.createdAt

def Db.offers (db : Db) (userID : Id) (g : PendingGrant) : Prop :=
  g ∈ (db.pendingGrantsFulfillableBy userID).map ListedGrant.toPendingGrant

instance (db : Db) (userID : Id) (g : PendingGrant) : Decidable (db.offers userID g) :=
  inferInstanceAs (Decidable (_ ∈ _))

end Store

namespace Http
open Sql Store

structure FulfilGrantRequest where
  userID : Id
  sealedCollectionKey : String
  deriving DecidableEq, Repr

def handleFulfilGrant (now : Time) (auditID actorID collectionID : Id) (req : FulfilGrantRequest) (db : Db) :
    Except Response Unit × Db :=
  match membershipFor collectionID actorID db with
  | .error .notFound => (.error (.error 404 "not_found" "no such collection"), db)
  | .error e => (.error (writeStoreError e), db)
  | .ok membership =>
    if membership.role ≠ .manager then
      (.error (.error 403 "forbidden" "only a manager of this collection can fulfil grants"), db)
    else
      match fulfilGrant now auditID collectionID req.userID req.sealedCollectionKey actorID db with
      | (.error e, db') => (.error (writeStoreError e), db')
      | (.ok (), db') => (.ok (), db')

def accepts (now : Time) (auditID actorID : Id) (g : PendingGrant) (sealedKey : String) (db : Db) : Prop :=
  (handleFulfilGrant now auditID actorID g.collectionID ⟨g.userID, sealedKey⟩ db).1 = .ok ()

instance (now : Time) (auditID actorID : Id) (g : PendingGrant) (key : String) (db : Db) :
    Decidable (accepts now auditID actorID g key db) :=
  inferInstanceAs (Decidable (_ = _))

/-! ## What is offered -/

variable {db : Db} {userID : Id} {g : PendingGrant}

theorem isMember_iff {collectionID : Id} :
    db.isMember userID collectionID = true ↔ (db.memberships.get? (collectionID, userID)).isSome = true := by
  unfold Vault.isMember
  rw [Table.any_eq_true, Table.get?_isSome]
  simp only [Bool.and_eq_true, decide_eq_true_eq, Membership.key, Prod.mk.injEq]

theorem offers_iff (hg : g ∈ db.pendingGrants) (hdb : db.Grounded) :
    db.offers userID g ↔ (db.memberships.get? (g.collectionID, userID)).isSome = true := by
  rw [← isMember_iff]
  unfold Db.offers Db.pendingGrantsFulfillableBy
  simp only [List.mem_map, List.mem_insertionSort, List.mem_filterMap]
  constructor
  · rintro ⟨row, ⟨x, -, hx⟩, rfl⟩
    split at hx
    · rename_i hm
      obtain ⟨c, -, rfl⟩ := Option.map_eq_some_iff.mp hx
      exact hm
    · cases hx
  · intro hm
    obtain ⟨c, hc⟩ := Option.isSome_iff_exists.mp (refersTo_iff.mp (hdb.pendingGrants g hg)).1
    refine ⟨{ g with collectionName := c.name }, ⟨g, hg, ?_⟩, rfl⟩
    rw [if_pos hm, hc]
    rfl

/-! ## What is accepted -/

theorem appendAudit_runs (now : Time) {id actor : Id} (action target : String) (md : List (String × String))
    (hid : ∀ e ∈ db.auditLog, e.id ≠ id) (ha : db.hasUser actor = true) :
    ∃ db', (appendAudit id now actor action target md).exec db = .ok ((), db') := by
  cases hi : db.auditLog.insert? {
      id, action, target, metadata := md, createdAt := stamp now
      actorUserID := if actor = "" then none else some actor } with
  | none =>
    obtain ⟨e, he, hk⟩ := Table.get?_isSome.mp (Table.insert?_eq_none.mp hi)
    exact absurd hk (hid e he)
  | some auditLog =>
    refine ⟨{ db with auditLog }, exec_sql_ok.mpr ?_⟩
    unfold insertAudit
    rw [hi]
    refine if_pos ?_
    split
    · rfl
    · exact ha

theorem addMemberTx_runs (now : Time) (sealedKey : String) (role : MemberRole) {auditID collectionID grantedBy : Id}
    (hr : refersTo db collectionID userID grantedBy = true) (hid : ∀ e ∈ db.auditLog, e.id ≠ auditID) :
    ∃ db', (addMemberTx now auditID collectionID userID sealedKey role grantedBy).exec db = .ok ((), db') := by
  simp only [addMemberTx, Prog.exec_bind_ok, exec_sql_ok, exec_nextRevision]
  let row : Membership := ⟨collectionID, userID, sealedKey, role, grantedBy, stamp now, db.revisionSequence + 1⟩
  let joined := { db with
    memberships := db.memberships.upsert row, revisionSequence := db.revisionSequence + 1 }
  obtain ⟨db', h⟩ := @appendAudit_runs joined now auditID grantedBy "collection.member.add"
    ("collection:" ++ collectionID) [("userId", userID), ("role", role.text)] hid (refersTo_iff.mp hr).2.2
  exact ⟨db', _, _, rfl, (), _, if_pos hr, h⟩

theorem fulfilGrant_runs (now : Time) {auditID sealedKey actorID : String} {m : Membership}
    (hg : g ∈ db.pendingGrants) (hdb : db.Grounded) (hm : db.memberships.get? (g.collectionID, actorID) = some m)
    (hid : ∀ e ∈ db.auditLog, e.id ≠ auditID) (hk : sealedKey ≠ "") :
    (fulfilGrant now auditID g.collectionID g.userID sealedKey actorID db).1 = .ok () := by
  have hactor : db.hasUser actorID = true := by
    obtain ⟨hmem, hkey⟩ := Table.get?_eq_some.mp hm
    have := (refersTo_iff.mp (hdb.memberships m hmem)).2.1
    rwa [show m.userID = actorID from congrArg Prod.snd hkey] at this
  have hrefers : refersTo db g.collectionID g.userID actorID = true := by
    obtain ⟨hc, hu, -⟩ := refersTo_iff.mp (hdb.pendingGrants g hg)
    exact refersTo_iff.mpr ⟨hc, hu, hactor⟩
  obtain ⟨role, hrole⟩ := Option.isSome_iff_exists.mp (hdb.roles g hg)
  obtain ⟨db', hadd⟩ := addMemberTx_runs now sealedKey role hrefers hid
  have hget : db.pendingGrants.get? (g.collectionID, g.userID) = some g := Table.get?_eq_some.mpr ⟨hg, rfl⟩
  unfold fulfilGrant
  rw [if_neg hk]
  have hexec : (fulfilGrantTx now auditID g.collectionID g.userID sealedKey actorID).exec db =
      .ok ((), (deletePendingGrantRow g.collectionID g.userID db').2) := by
    simp only [fulfilGrantTx, Prog.exec_bind, Prog.exec_query, hget, hrole, hadd]
    rfl
  rw [Prog.transact_of_exec hexec]

theorem accepts_iff {now : Time} {auditID sealedKey : String} (hg : g ∈ db.pendingGrants) (hdb : db.Grounded)
    (hid : ∀ e ∈ db.auditLog, e.id ≠ auditID) (hk : sealedKey ≠ "") :
    accepts now auditID userID g sealedKey db ↔
      (db.memberships.get? (g.collectionID, userID)).any (·.role = .manager) = true := by
  unfold accepts handleFulfilGrant membershipFor
  cases hm : db.memberships.get? (g.collectionID, userID) with
  | none => simp
  | some m =>
    simp only [Option.any_some, decide_eq_true_eq]
    by_cases hr : m.role = .manager
    · have hrun := fulfilGrant_runs now hg hdb hm hid hk
      rw [if_neg (not_not.mpr hr)]
      cases hf : fulfilGrant now auditID g.collectionID g.userID sealedKey userID db with
      | mk r db' =>
        rw [hf] at hrun
        cases hrun
        simp [hr]
    · rw [if_pos hr]
      simp [hr]

/-- A grant is offered to those who may fulfil it, except that it is also
offered to the plain members of its collection. -/
theorem grant_offered_iff {s : Server} (hs : Lts.Reachable Server.init Server.step s) (hg : g ∈ s.db.pendingGrants)
    (userID : Id) (now : Time) {auditID sealedKey : String} (ha : Server.Draws s.issued [auditID])
    (hk : sealedKey ≠ "") :
    (s.db.offers userID g ↔ accepts now auditID userID g sealedKey s.db) ↔
      (s.db.memberships.get? (g.collectionID, userID)).all (·.role = .manager) = true := by
  have hgr := reachable_grounded hs
  have hid : ∀ e ∈ s.db.auditLog, e.id ≠ auditID := by
    intro e he heq
    exact (ha.2 auditID (List.mem_singleton_self _)).2 (heq ▸ hgr.auditLog e he)
  rw [offers_iff hg hgr.db, accepts_iff hg hgr.db hid hk]
  cases s.db.memberships.get? (g.collectionID, userID) with
  | none => simp
  | some m => simp

/-- Ann manages the family's collection, Bob is a member, Carol waits for access. -/
def carolWaits : List Command := enrolls "ann" "user" ++ enrolls "bob" "user" ++ enrolls "carol" "user" ++ [
  .createCollection 0 "family" "audit-1" "Family" "ann" "sealed-to-ann",
  .fulfilGrantOrAdd 0 "audit-2" "family" "bob" "sealed-to-bob" "member" "ann",
  .createPendingGrant 0 "audit-3" "family" "carol" "member" "ann"]

def carolsGrant : PendingGrant := ⟨"family", "carol", "member", "ann", 0⟩

theorem grant_offered_to_ann :
    (Server.fresh.script carolWaits).db.offers "ann" carolsGrant ↔
      accepts 0 "audit-4" "ann" carolsGrant "sealed-to-carol" (Server.fresh.script carolWaits).db :=
  (grant_offered_iff (Server.reachable_script (by decide)) (by decide) "ann" 0 (by decide) (by decide)).mpr
    (by decide)

/-- Bob is offered Carol's grant and refused. -/
theorem member_offered_refused :
    ¬ ∀ s g userID now auditID key, Lts.Reachable Server.init Server.step s → g ∈ s.db.pendingGrants →
      Server.Draws s.issued [auditID] → key ≠ "" →
      (s.db.offers userID g ↔ accepts now auditID userID g key s.db) := by
  intro h
  have hreach : Lts.Reachable Server.init Server.step (Server.fresh.script carolWaits) :=
    Server.reachable_script (by decide)
  have hiff := h _ carolsGrant "bob" 0 "audit-4" "sealed-to-carol" hreach (by decide) (by decide) (by decide)
  have hrefused : ¬ accepts 0 "audit-4" "bob" carolsGrant "sealed-to-carol"
    (Server.fresh.script carolWaits).db := by
    decide
  exact hrefused (hiff.mp (by decide))

end Http

end Keyhole
