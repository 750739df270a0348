import Keyhole.Http.Items
import Keyhole.Store.Removal

/-!
# One visibility rule

The rule of the sync query, of `CanAccessItem` and of `checkCollectionTarget`,
and what follows for a request whose checks and write meet one database:
it leaves nothing its user saw out of their sight.
-/

namespace Keyhole.Http
open Sql Store

/-- The checks still ahead of a request all pass on `db`. -/
inductive Clears (db : Db) (userID : Id) (call : ItemCall) : Progress → Prop
  | write : Clears db userID call (.targets [])
  | step {p q : Progress} (h : call.advance db userID p = .ok q) (hq : Clears db userID call q) :
      Clears db userID call p

def Allowed (db : Db) (userID : Id) (call : ItemCall) : Prop :=
  ∃ p, call.received = .ok p ∧ Clears db userID call p

/-- What the user sees of `db` is seen after the write, and so is every row the write wrote. -/
structure InSight (userID : Id) (db db' : Db) : Prop where
  kept : ∀ item ∈ db.items, db.visibleItemsClause userID item = true →
    ∃ row ∈ db'.items, row.id = item.id ∧ db'.visibleItemsClause userID row = true
  written : ∀ row ∈ db'.items, row ∉ db.items → db'.visibleItemsClause userID row = true

variable {db : Db} {userID : Id}

/-! ## The target of a write -/

theorem checkCollectionTarget_iff {c : Id} (hc : c ≠ "") :
    checkCollectionTarget db c userID = .ok () ↔ db.isMember userID c = true := by
  have hcount : isCollectionMember db c userID = db.isMember userID c := by
    rw [Bool.eq_iff_iff, isMember_iff]
    unfold isCollectionMember
    rw [decide_eq_true_eq, gt_iff_lt, Nat.pos_iff_ne_zero, Ne, Table.count_eq_zero]
    simp
  unfold checkCollectionTarget
  rw [if_neg hc, hcount]
  cases db.isMember userID c <;> simp

theorem target_iff_visible {c : Id} (hc : c ≠ "") {item : Item} (hi : item.collectionID = some c) :
    checkCollectionTarget db c userID = .ok () ↔ db.visibleItemsClause userID item = true := by
  rw [checkCollectionTarget_iff hc, visible_iff, hi]
  simp

/-! ## What the checks say -/

theorem clears_targets {call : ItemCall} {left : List String} (h : Clears db userID call (.targets left)) :
    ∀ target ∈ left, checkCollectionTarget db target userID = .ok () := by
  induction left with
  | nil => exact fun _ h => absurd h List.not_mem_nil
  | cons target left ih =>
    cases h with
    | step h hq =>
      simp only [ItemCall.advance] at h
      cases hc : checkCollectionTarget db target userID with
      | error r => simp [hc] at h
      | ok u =>
        rw [hc] at h
        cases h
        intro x hx
        rcases List.mem_cons.mp hx with rfl | hx
        · exact hc
        · exact ih hq x hx

theorem clears_loading {call : ItemCall} (h : Clears db userID call .loading) :
    (∃ existing, db.items.get? call.id = some existing ∧ db.visibleItemsClause userID existing = true) ∧
      ∀ target ∈ call.targetsLeft, checkCollectionTarget db target userID = .ok () := by
  cases h with
  | step h hq =>
    unfold ItemCall.advance itemByID at h
    cases hg : db.items.get? call.id with
    | none => simp [hg] at h
    | some existing =>
      simp only [hg, Except.ok.injEq] at h
      subst h
      cases hq with
      | step h hq =>
        simp only [ItemCall.advance] at h
        split at h
        · rename_i ha
          cases h
          rw [canAccessItem_eq] at ha
          exact ⟨⟨existing, rfl, ha⟩, clears_targets hq⟩
        · cases h

theorem visible_at_target {inp : ItemInput} (hv : inp.validate = .ok ()) {c : Id} (hc : inp.collectionID = some c)
    (ht : checkCollectionTarget db (inp.collectionID.getD "") userID = .ok ()) : db.isMember userID c = true := by
  have hne : c ≠ "" := by
    rintro rfl
    unfold ItemInput.validate at hv
    rw [hc, if_pos rfl] at hv
    split at hv
    · cases hv
    · split at hv <;> cases hv
  rw [hc] at ht
  exact (checkCollectionTarget_iff hne).mp ht

/-! ## One write -/

theorem InSight.refl (userID : Id) (db : Db) : InSight userID db db :=
  ⟨fun item hi hv => ⟨item, hi, rfl, hv⟩, fun _ hr hn => absurd hr hn⟩

theorem insight_created {db' : Db} {new : List Item} (hm : db'.memberships = db.memberships)
    (hi : ∀ x, x ∈ db'.items ↔ x ∈ db.items ∨ x ∈ new)
    (hv : ∀ row ∈ new, db.visibleItemsClause userID row = true) : InSight userID db db' := by
  have hsame : ∀ item, db'.visibleItemsClause userID item = db.visibleItemsClause userID item := by
    intro item
    unfold Vault.visibleItemsClause Vault.isMember
    rw [hm]
  constructor
  · intro item hitem hvis
    exact ⟨item, (hi item).mpr (Or.inl hitem), rfl, by rw [hsame]; exact hvis⟩
  · intro row hrow hn
    rw [hsame]
    exact hv row (((hi row).mp hrow).resolve_left hn)

theorem insight_replaced {db' : Db} {current : Item} (row : Item) (hm : db'.memberships = db.memberships)
    (hg : db.items.get? row.id = some current) (hi : db'.items = db.items.upsert row)
    (hv : db.visibleItemsClause userID row = true) : InSight userID db db' := by
  have hsame : ∀ item, db'.visibleItemsClause userID item = db.visibleItemsClause userID item := by
    intro item
    unfold Vault.visibleItemsClause Vault.isMember
    rw [hm]
  constructor
  · intro item hitem hvis
    by_cases hid : item.id = row.id
    · refine ⟨row, ?_, hid.symm, by rw [hsame]; exact hv⟩
      rw [hi]
      exact Table.mem_upsert.mpr (Or.inr rfl)
    · refine ⟨item, ?_, rfl, by rw [hsame]; exact hvis⟩
      rw [hi]
      exact Table.mem_upsert.mpr (Or.inl ⟨hitem, hid⟩)
  · intro x hx hn
    rw [hi] at hx
    rcases Table.mem_upsert.mp hx with ⟨hx, -⟩ | rfl
    · exact absurd hx hn
    · rw [hsame]
      exact hv

theorem validate_of_all {ins : List ItemInput} (h : validateAll ins = .ok ()) :
    ∀ inp ∈ ins, inp.validate = .ok () := by
  induction ins with
  | nil => exact fun _ h => absurd h List.not_mem_nil
  | cons inp ins ih =>
    unfold validateAll at h
    split at h
    · rename_i hv
      intro x hx
      rcases List.mem_cons.mp hx with rfl | hx
      · exact hv
      · exact ih h x hx
    · cases h

theorem insight_createItemsBulk {now : Time} {ids : List Id} {ins : List ItemInput}
    (ht : ∀ inp ∈ ins, checkCollectionTarget db (inp.collectionID.getD "") userID = .ok ()) :
    InSight userID db (createItemsBulk now ids userID ins db).2 := by
  refine left_of_outcome (P := InSight userID db) (.refl userID db) (fun _ _ => createItemsBulk_error) ?_
  intro items db' h
  obtain ⟨hvalid, hins⟩ := createItemsBulk_ok h
  obtain ⟨t, rfl, -, rfl, hm, -⟩ := insertItems_ok hins
  refine insight_created rfl hm fun row hrow => ?_
  obtain ⟨id, -, inp, hinp, r, -, -, rfl⟩ := mem_createdItems hrow
  rw [visible_iff]
  cases hc : inp.collectionID with
  | none => exact Or.inl ⟨rfl, hc⟩
  | some c => exact Or.inr ⟨c, hc, visible_at_target (validate_of_all hvalid inp hinp) hc (ht inp hinp)⟩

theorem insight_updateItem {now : Time} {id : Id} {expected : Int} {inp : ItemInput} {existing : Item}
    (hg : db.items.get? id = some existing) (hv : db.visibleItemsClause userID existing = true)
    (ht : checkCollectionTarget db (inp.collectionID.getD "") userID = .ok ()) :
    InSight userID db (updateItem now id expected inp db).2 := by
  refine left_of_outcome (P := InSight userID db) (.refl userID db) (fun _ _ => updateItem_error) ?_
  intro item db' h
  obtain ⟨current, hg', -, -, -, rfl, rfl⟩ := updateItemTx_ok (updateItem_ok h).2
  rw [hg, Option.some.injEq] at hg'
  subst hg'
  obtain ⟨-, rfl⟩ := Table.get?_eq_some.mp hg
  refine insight_replaced (existing.updated now (db.revisionSequence + 1) inp) rfl hg rfl ?_
  rw [visible_iff] at hv ⊢
  cases hc : inp.collectionID with
  | none => simpa [Item.updated, hc] using hv
  | some c =>
    refine Or.inr ⟨c, by simp [Item.updated, hc], visible_at_target (updateItem_ok h).1 hc ht⟩

theorem insight_deleteItem {now : Time} {id : Id} {existing : Item} (hg : db.items.get? id = some existing)
    (hv : db.visibleItemsClause userID existing = true) : InSight userID db (deleteItem now id db).2 := by
  refine left_of_outcome (P := InSight userID db) (.refl userID db) (fun _ _ => deleteItem_error) ?_
  intro item db' h
  obtain ⟨current, hg', -, rfl, rfl⟩ := deleteItemTx_ok (deleteItem_ok h)
  rw [hg, Option.some.injEq] at hg'
  subst hg'
  obtain ⟨-, rfl⟩ := Table.get?_eq_some.mp hg
  exact insight_replaced (existing.deleted now (db.revisionSequence + 1)) rfl hg rfl hv

theorem allowed_insight {call : ItemCall} (h : Allowed db userID call) (now : Time) (ids : List Id) :
    InSight userID db ((call.command now ids userID).run db) := by
  obtain ⟨p, hp, hc⟩ := h
  cases call with
  | create req =>
    cases hp
    simp only [ItemCall.command, Command.run]
    rw [createItem_vault]
    refine insight_createItemsBulk fun inp hinp => ?_
    rw [List.mem_singleton.mp hinp]
    exact clears_targets hc _ (List.mem_singleton_self _)
  | bulk items =>
    simp only [ItemCall.received] at hp
    split at hp
    · cases hp
    · split at hp
      · cases hp
      · cases hp
        refine insight_createItemsBulk fun inp hinp => ?_
        obtain ⟨req, hreq, rfl⟩ := List.mem_map.mp hinp
        exact clears_targets hc _ (List.mem_map.mpr ⟨req, hreq, rfl⟩)
  | update id req =>
    cases hp
    obtain ⟨⟨existing, hg, hv⟩, ht⟩ := clears_loading hc
    exact insight_updateItem hg hv (ht _ (List.mem_singleton_self _))
  | delete id =>
    cases hp
    obtain ⟨⟨existing, hg, hv⟩, -⟩ := clears_loading hc
    exact insight_deleteItem hg hv

/-- The access check, the sync query and the check of a target are one rule,
on any database whose items have revisions of the sequence. -/
theorem one_visibility_rule (db : Db) (userID : Id) (hr : ∀ item ∈ db.items, 0 < item.revision) :
    (∀ item ∈ db.items,
      (db.canAccessItem userID item = true ↔ db.visibleItemsClause userID item = true) ∧
      (db.canAccessItem userID item = true ↔ item ∈ (db.syncSince userID 0).items)) ∧
    (∀ c, c ≠ "" → ∀ item : Item, item.collectionID = some c →
      (checkCollectionTarget db c userID = .ok () ↔ db.visibleItemsClause userID item = true)) ∧
    ∀ call now ids, Allowed db userID call → InSight userID db ((call.command now ids userID).run db) := by
  refine ⟨fun item hi => ?_, fun c hc item => target_iff_visible hc,
    fun call now ids h => allowed_insight h now ids⟩
  rw [canAccessItem_eq, mem_syncItems]
  refine ⟨Iff.rfl, fun hv => ⟨hi, hv, Or.inl (hr item hi)⟩, fun h => h.2.1⟩

/-- Ann has a collection, and an item of her own that she then shares. -/
def annShares : List Command := enrolls "ann" "user" ++ [
  .createCollection 0 "family" "audit-1" "Family" "ann" "sealed-to-ann",
  .createItem 0 "wifi" "ann" ⟨none, "ciphertext", "wrapped-key"⟩]

def wifi : Item := ⟨"wifi", "ann", none, "ciphertext", "wrapped-key", 2, 0, 0, none⟩

def shareWifi : ItemCall := .update "wifi" ⟨some "family", "ciphertext", "wrapped-key", 2⟩

theorem one_visibility_rule_shared : InSight "ann" (Server.fresh.script annShares).db
    ((shareWifi.command 0 [] "ann").run (Server.fresh.script annShares).db) := by
  refine (one_visibility_rule (Server.fresh.script annShares).db "ann" (by decide)).2.2 _ 0 [] ⟨.loading, rfl, ?_⟩
  refine .step (q := .loaded wifi) (by decide) ?_
  exact .step (q := .targets ["family"]) (by decide) (.step (q := .targets []) (by decide) .write)

end Keyhole.Http
