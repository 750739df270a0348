import Keyhole.Http.Access

/-!
# A target that is gone when the write comes

Requests whose checks passed, and a deletion of the collection they name
before they write. An INSERT classifies the broken foreign key; the UPDATE of
`UpdateItem` wraps it.
-/

namespace Keyhole

namespace Store
open Sql

def Db.vanished (db : Db) (inp : ItemInput) : Bool := inp.collectionID.any fun c => !db.hasCollection c

variable {db : Db} {now : Time}

theorem insertItem_fresh {row : Item} (hf : ∀ item ∈ db.items, item.id ≠ row.id) :
    (∃ items, db.items.insert? row = some items ∧ row.collectionID.all db.hasCollection = true ∧
      insertItem row db = .ok ((), { db with items })) ∨
    insertItem row db = .error .foreignKey := by
  unfold insertItem
  cases hi : db.items.insert? row with
  | none =>
    obtain ⟨item, hitem, hk⟩ := Table.get?_isSome.mp (Table.insert?_eq_none.mp hi)
    exact absurd hk (hf item hitem)
  | some items =>
    by_cases hc : (db.hasUser row.ownerUserID && row.collectionID.all db.hasCollection) = true
    · left
      refine ⟨items, rfl, ?_, if_pos hc⟩
      rw [Bool.and_eq_true] at hc
      exact hc.2
    · exact Or.inr (if_neg hc)

/-- Under new ids the only constraint an insert can break is a foreign key. -/
theorem insertItems_vanished {owner : Id} {ids : List Id} {ins : List ItemInput} (hnodup : ids.Nodup)
    (hfresh : ∀ id ∈ ids, ∀ item ∈ db.items, item.id ≠ id) (hlen : ins.length ≤ ids.length)
    (hv : ∃ inp ∈ ins, db.vanished inp = true) :
    (insertItems now owner ids ins).exec db = .error (classifyItemInsertError .foreignKey) := by
  induction ins generalizing ids db with
  | nil =>
    obtain ⟨inp, hinp, -⟩ := hv
    exact absurd hinp List.not_mem_nil
  | cons inp ins ih =>
    cases ids with
    | nil => simp at hlen
    | cons id ids =>
      obtain ⟨hid, hnodup⟩ := List.nodup_cons.mp hnodup
      simp only [insertItems, Prog.exec_bind, exec_nextRevision, sql, Prog.exec]
      rcases @insertItem_fresh { db with revisionSequence := db.revisionSequence + 1 }
        (Item.created now owner (db.revisionSequence + 1) id inp) (hfresh id List.mem_cons_self) with
        ⟨items, hi, hc, hrow⟩ | hrow
      · have htail : ∃ x ∈ ins, db.vanished x = true := by
          obtain ⟨x, hx, hvx⟩ := hv
          rcases List.mem_cons.mp hx with rfl | hx
          · -- the head went in, so its collection is there
            unfold Db.vanished at hvx
            obtain ⟨c, hcol, hgone⟩ := (Option.any_eq_true _ _).mp hvx
            simp only [Item.created, hcol, Option.all_some] at hc
            rw [show db.hasCollection c = true from hc] at hgone
            cases hgone
          · exact ⟨x, hx, hvx⟩
        have hrest := @ih { db with revisionSequence := db.revisionSequence + 1, items } ids hnodup ?_
          (by simpa using hlen) htail
        · rw [hrow]
          simp only [hrest]
        · intro id' hid' item hitem
          rcases (Table.mem_insert? hi).mp hitem with hitem | rfl
          · exact hfresh id' (List.mem_cons_of_mem _ hid') item hitem
          · exact fun heq : id = id' => hid (heq ▸ hid')
      · rw [hrow]

theorem validate_error {inp : ItemInput} {e : StoreError} (h : inp.validate = .error e) :
    ∃ field message, e = .validation field message := by
  unfold ItemInput.validate at h
  split at h
  · cases h
    exact ⟨_, _, rfl⟩
  · split at h
    · cases h
      exact ⟨_, _, rfl⟩
    · split at h <;> cases h
      exact ⟨_, _, rfl⟩

theorem validateAll_error {ins : List ItemInput} {e : StoreError} (h : validateAll ins = .error e) :
    ∃ field message, e = .validation field message := by
  induction ins with
  | nil => cases h
  | cons inp ins ih =>
    unfold validateAll at h
    split at h
    · exact ih h
    · rename_i e' hv
      cases h
      exact validate_error hv

theorem createItemsBulk_vanished {owner : Id} {ids : List Id} {ins : List ItemInput} (hnodup : ids.Nodup)
    (hfresh : ∀ id ∈ ids, ∀ item ∈ db.items, item.id ≠ id) (hlen : ins.length ≤ ids.length)
    (hv : ∃ inp ∈ ins, db.vanished inp = true) :
    ∃ field message, createItemsBulk now ids owner ins db = (.error (.validation field message), db) := by
  have hne : ins ≠ [] := by
    rintro rfl
    obtain ⟨inp, hinp, -⟩ := hv
    exact List.not_mem_nil hinp
  unfold createItemsBulk
  rw [if_neg hne]
  cases hvalid : validateAll ins with
  | error e =>
    obtain ⟨field, message, rfl⟩ := validateAll_error hvalid
    exact ⟨field, message, rfl⟩
  | ok u => exact ⟨_, _, Prog.transact_of_error (insertItems_vanished hnodup hfresh hlen hv)⟩

theorem createItem_vanished {owner id : Id} {inp : ItemInput} (hfresh : ∀ item ∈ db.items, item.id ≠ id)
    (hv : db.vanished inp = true) :
    ∃ field message, createItem now id owner inp db = (.error (.validation field message), db) := by
  obtain ⟨field, message, h⟩ := @createItemsBulk_vanished db now owner [id] [inp] (List.nodup_singleton id)
    (fun x hx => List.mem_singleton.mp hx ▸ hfresh) (le_refl 1) ⟨inp, List.mem_singleton_self inp, hv⟩
  refine ⟨field, message, ?_⟩
  unfold createItem
  rw [h]

theorem updateItem_vanished {id : Id} {expected : Int} {inp : ItemInput} {current : Item}
    (hvalid : inp.validate = .ok ()) (hg : db.items.get? id = some current) (hd : current.deletedAt = none)
    (hr : current.revision = expected) (hv : db.vanished inp = true) :
    updateItem now id expected inp db = (.error (.internal "update item"), db) := by
  have hgone : inp.collectionID.all db.hasCollection = false := by
    obtain ⟨c, hc, hgone⟩ := (Option.any_eq_true _ _).mp hv
    simpa [hc] using hgone
  have hcount : db.items.count
    (fun item => item.id = id && item.revision = expected && item.deletedAt.isNone) ≠ 0 := by
    intro h0
    obtain ⟨hmem, hid⟩ := Table.get?_eq_some.mp hg
    have := Table.count_eq_zero.mp h0 current hmem
    simp [hid, hr, hd] at this
  unfold updateItem
  rw [hvalid]
  apply Prog.transact_of_error
  simp only [updateItemTx, Prog.exec_bind, exec_nextRevision, Prog.exec_query, hg, exec_require, hd, hr,
    sql, Prog.exec,
    updateItemRow, Option.isNone_none, if_true, decide_true]
  have hfk : ¬ ((inp.collectionID.all db.hasCollection ||
      decide (db.items.count (fun item => item.id = id && item.revision = expected && item.deletedAt.isNone) = 0)) =
        true) := by
    rw [hgone, Bool.false_or, decide_eq_true_eq]
    exact hcount
  rw [show Vault.hasCollection { db.toVault with revisionSequence := db.revisionSequence + 1 } = db.hasCollection
    from rfl]
  rw [if_neg hfk]
  rfl

end Store

namespace Http
open Sql Store

def Response.refusesInput : Response → Bool
  | .error status code _ => status = 400 && code = "bad_request"
  | _ => false

def Response.isInternal : Response → Bool
  | .error status _ _ => status = 500
  | _ => false

def ItemCall.targetGone (db : Db) (call : ItemCall) : Bool := call.requests.any fun req => db.vanished req.input

/-- An INSERT, or an update that `validate` refuses before it opens a transaction. -/
def ItemCall.classified : ItemCall → Bool
  | create _ | bulk _ => true
  | update _ req => !req.input.validate.isOk
  | delete _ => false

/-- An update that reaches its UPDATE: valid, of a live row still at the revision it names. -/
def ItemCall.overwrites (db : Db) : ItemCall → Bool
  | update id req => req.input.validate.isOk &&
      (db.items.get? id).any fun item => item.deletedAt.isNone && item.revision = req.revision
  | create _ | bulk _ | delete _ => false

namespace Access

theorem server_step {s s' : State} {e : Event} (h : step s e s') :
    s'.server = s.server ∨ ∃ c, Server.step s.server c s'.server := by
  obtain ⟨he, rfl⟩ := h
  cases e with
  | receive userID call =>
    simp only [next]
    split <;> exact Or.inl rfl
  | advance ticket =>
    simp only [next]
    split
    · exact Or.inl rfl
    · split <;> exact Or.inl rfl
  | write ticket now ids =>
    simp only [next]
    cases hg : s.requests.get? ticket with
    | none => exact Or.inl rfl
    | some r =>
      simp only [enabled, hg, Option.any_some, Bool.and_eq_true, decide_eq_true_eq] at he
      exact Or.inr ⟨_, he.2, rfl⟩
  | drop ticket => exact Or.inl rfl
  | other c => exact Or.inr ⟨c, he, rfl⟩

theorem known_reachable {s : State} (h : Lts.Reachable init step s) : s.server.Known := by
  refine Lts.Reachable.inv (P := fun s : State => s.server.Known) ?_ ?_ h
  · rintro _ rfl
    exact reachable_known ⟨_, [], rfl, .nil _⟩
  · intro s e s' hstep hk
    rcases server_step hstep with h | ⟨c, h⟩
    · rw [h]
      exact hk
    · exact step_known h hk

/-- The write is answered as a fault of its input and changes nothing. -/
def Refused (s : State) (r : Request) (now : Time) (ids : List Id) : Prop :=
  (r.call.reply now ids r.userID s.server.db).refusesInput = true ∧
    (r.call.command now ids r.userID).run s.server.db = s.server.db

section
variable {db : Db} {now : Time} {userID : Id}

theorem reply_bulk {ids : List Id} {items : List ItemRequest} {field message : String}
    (h : createItemsBulk now ids userID (items.map ItemRequest.input) db =
      (.error (.validation field message), db)) :
    ItemCall.reply now ids userID db (.bulk items) = writeStoreError (.validation field message) ∧
      (ItemCall.command now ids userID (.bulk items)).run db = db := by
  simp only [ItemCall.reply, ItemCall.command, Command.run, h, and_self]

theorem reply_create {ids : List Id} {req : ItemRequest} {field message : String}
    (h : createItem now (ids.headD "") userID req.input db = (.error (.validation field message), db)) :
    ItemCall.reply now ids userID db (.create req) = writeStoreError (.validation field message) ∧
      (ItemCall.command now ids userID (.create req)).run db = db := by
  simp only [ItemCall.reply, ItemCall.command, Command.run, h, and_self]

theorem reply_update {id : Id} {req : ItemRequest} (hv : db.vanished req.input = true) (ids : List Id) :
    (ItemCall.command now ids userID (.update id req)).run db = db ∧
      ((ItemCall.reply now ids userID db (.update id req)).refusesInput = !req.input.validate.isOk) ∧
      (ItemCall.reply now ids userID db (.update id req)).isInternal = ItemCall.overwrites db (.update id req) := by
  simp only [ItemCall.reply, ItemCall.command, Command.run, ItemCall.overwrites]
  cases hvalid : req.input.validate with
  | error e =>
    obtain ⟨field, message, rfl⟩ := validate_error hvalid
    have hu : updateItem now id req.revision req.input db = (.error (.validation field message), db) := by
      unfold updateItem
      rw [hvalid]
    rw [hu]
    exact ⟨rfl, rfl, rfl⟩
  | ok u =>
    cases hg : db.items.get? id with
    | none =>
      rw [updateItem_notFound hvalid (fun current h => by rw [hg] at h; cases h)]
      exact ⟨rfl, rfl, rfl⟩
    | some current =>
      by_cases hd : current.deletedAt = none
      · by_cases hr : current.revision = req.revision
        · rw [updateItem_vanished hvalid hg hd hr hv]
          exact ⟨rfl, rfl, by simp [writeStoreError, Response.isInternal, Except.isOk, Except.toBool, hd, hr]⟩
        · rw [updateItem_conflict hvalid hg hd hr]
          exact ⟨rfl, rfl, by simp [Response.isInternal, hr]⟩
      · rw [updateItem_notFound hvalid (fun row h => by rw [hg, Option.some.injEq] at h; exact h ▸ hd)]
        refine ⟨rfl, rfl, ?_⟩
        have hnone : current.deletedAt.isNone = false :=
          Option.isNone_eq_false_iff.mpr (Option.isSome_iff_ne_none.mpr hd)
        simp [writeStoreError, Response.isInternal, hnone]

end

/-- The write of a request whose target is gone changes nothing, whatever was
deleted since its checks. It is refused for its input on the paths that
classify the failure, and is an internal error where an update gets as far as
its UPDATE. -/
theorem vanished_target_iff {s : State} (hs : Lts.Reachable init step s) {ticket : Nat} {now : Time} {ids : List Id}
    {r : Request} (hr : s.requests.get? ticket = some r) (he : enabled s (.write ticket now ids))
    (hids : r.call.requests.length ≤ ids.length) (hgone : r.call.targetGone s.server.db = true) :
    (Refused s r now ids ↔ r.call.classified = true) ∧
    (next s (.write ticket now ids)).server.db = s.server.db ∧
    ((r.call.reply now ids r.userID s.server.db).isInternal = r.call.overwrites s.server.db) := by
  have hk := known_reachable hs
  simp only [enabled, hr, Option.any_some, Bool.and_eq_true, decide_eq_true_eq] at he
  obtain ⟨-, hdraws⟩ := he
  have hnext : (next s (.write ticket now ids)).server.db = (r.call.command now ids r.userID).run s.server.db := by
    simp only [next, hr]
    rfl
  rw [hnext]
  have hfresh : ∀ id ∈ (r.call.command now ids r.userID).draws, ∀ item ∈ s.server.db.items, item.id ≠ id := by
    intro id hid item hitem heq
    exact (hdraws.2 id hid).2 (heq ▸ hk.items item hitem)
  unfold Refused
  cases hc : r.call with
  | create req =>
    simp only [hc, ItemCall.targetGone, ItemCall.requests, List.any_cons, List.any_nil, Bool.or_false] at hgone
    simp only [hc, ItemCall.command, Command.draws] at hfresh
    obtain ⟨field, message, h⟩ := createItem_vanished (hfresh _ (List.mem_singleton_self _)) hgone
    obtain ⟨hreply, hdb⟩ := reply_create h
    rw [hreply]
    exact ⟨⟨fun _ => rfl, fun _ => ⟨rfl, hdb⟩⟩, hdb, rfl⟩
  | bulk items =>
    simp only [hc, ItemCall.targetGone, ItemCall.requests, List.any_eq_true] at hgone hids
    simp only [hc, ItemCall.command, Command.draws] at hfresh hdraws
    obtain ⟨req, hreq, hv⟩ := hgone
    obtain ⟨field, message, h⟩ := createItemsBulk_vanished hdraws.1 hfresh (by simpa using hids)
      ⟨req.input, List.mem_map.mpr ⟨req, hreq, rfl⟩, hv⟩
    obtain ⟨hreply, hdb⟩ := reply_bulk h
    rw [hreply]
    exact ⟨⟨fun _ => rfl, fun _ => ⟨rfl, hdb⟩⟩, hdb, rfl⟩
  | update id req =>
    simp only [hc, ItemCall.targetGone, ItemCall.requests, List.any_cons, List.any_nil, Bool.or_false] at hgone
    obtain ⟨hdb, hrefused, hinternal⟩ := reply_update hgone ids
    refine ⟨?_, hdb, hinternal⟩
    rw [hrefused]
    exact and_iff_left hdb
  | delete id => simp [hc, ItemCall.targetGone, ItemCall.requests] at hgone

/-- Ann's request names "work" and passes its checks; her collection goes before it writes. -/
def workGoes (checks : Nat) (call : ItemCall) : List Event := (enrolls "ann" "user").map .other ++ [
  .other (.createCollection 0 "work" "audit-1" "Work" "ann" "sealed-to-ann"),
  .other (.createItem 0 "wifi" "ann" ⟨none, "ciphertext", "wrapped-key"⟩),
  .receive "ann" call] ++ List.replicate checks (.advance 0) ++ [.other (.deleteCollection "work")]

def newAtWork : State :=
  (workGoes 1 (.create ⟨some "work", "ciphertext", "wrapped-key", 0⟩)).foldl next start

def wifiToWork : State :=
  (workGoes 3 (.update "wifi" ⟨some "work", "ciphertext", "wrapped-key", 2⟩)).foldl next start

theorem newAtWork_reachable : Lts.Reachable init step newAtWork := ⟨start, _, rfl, Lts.run_script (by decide)⟩

theorem wifiToWork_reachable : Lts.Reachable init step wifiToWork := ⟨start, _, rfl, Lts.run_script (by decide)⟩

def creating : Request := (newAtWork.requests.get? 0).get (by decide)

def updating : Request := (wifiToWork.requests.get? 0).get (by decide)

theorem vanished_target_created : Refused newAtWork creating 0 ["new"] :=
  (@vanished_target_iff _ newAtWork_reachable 0 0 ["new"] creating (Option.some_get _).symm (by decide) (by decide)
    (by decide)).1.mpr (by decide)

/-- The update is answered 500. -/
theorem update_fails_internally :
    ¬ ∀ s ticket now ids r, Lts.Reachable init step s → s.requests.get? ticket = some r →
      enabled s (.write ticket now ids) → r.call.requests.length ≤ ids.length →
      r.call.targetGone s.server.db = true → Refused s r now ids := by
  intro h
  have hrefused := h wifiToWork 0 0 ["new"] updating wifiToWork_reachable (Option.some_get _).symm (by decide)
    (by decide) (by decide)
  have hinternal : (updating.call.reply 0 ["new"] updating.userID wifiToWork.server.db).refusesInput = false := by
    decide
  rw [hrefused.1] at hinternal
  cases hinternal

end Access

end Http

end Keyhole
