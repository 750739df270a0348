import Keyhole.Store.Statement

/-!
# Foreign keys in every state

A membership and a pending grant name a collection and users that exist, and
a pending grant a role `validRole` knows: the statements check it where they
write, and the cascades take the rows whose references go.
-/

namespace Keyhole.Store
open Sql

structure Db.Grounded (db : Db) : Prop where
  memberships : ∀ m ∈ db.memberships, refersTo db m.collectionID m.userID m.grantedBy = true
  pendingGrants : ∀ g ∈ db.pendingGrants, refersTo db g.collectionID g.userID g.requestedBy = true
  roles : ∀ g ∈ db.pendingGrants, (validRole g.role).isSome = true

theorem refersTo_iff {db : Db} {c u by_ : Id} :
    refersTo db c u by_ = true ↔ db.hasCollection c = true ∧ db.hasUser u = true ∧ db.hasUser by_ = true := by
  simp [refersTo, and_assoc]

theorem refersTo_mono {a b : Db} (hc : ∀ id, a.hasCollection id = true → b.hasCollection id = true)
    (hu : ∀ id, a.hasUser id = true → b.hasUser id = true) {c u by_ : Id} (h : refersTo a c u by_ = true) :
    refersTo b c u by_ = true := by
  rw [refersTo_iff] at h ⊢
  exact ⟨hc _ h.1, hu _ h.2.1, hu _ h.2.2⟩

theorem Db.Grounded.mono {a b : Db} (h : a.Grounded) (hm : b.memberships = a.memberships)
    (hg : b.pendingGrants = a.pendingGrants) (hc : ∀ id, a.hasCollection id = true → b.hasCollection id = true)
    (hu : ∀ id, a.hasUser id = true → b.hasUser id = true) : b.Grounded where
  memberships m hmem := refersTo_mono hc hu (h.memberships m (hm ▸ hmem))
  pendingGrants g hmem := refersTo_mono hc hu (h.pendingGrants g (hg ▸ hmem))
  roles g hmem := h.roles g (hg ▸ hmem)

/-! ## What the cascades leave -/

theorem hasCollection_cascade {db : Db} {id c : Id} (h : db.hasCollection c = true) (hne : c ≠ id) :
    (cascadeCollection id db).hasCollection c = true := by
  obtain ⟨row, hrow, rfl⟩ := Table.get?_isSome.mp h
  exact Table.get?_isSome.mpr ⟨row, Table.mem_delete.mpr ⟨hrow, by simpa using hne⟩, rfl⟩

theorem hasUser_cascade {db : Db} {userID u : Id} (h : db.hasUser u = true) (hne : u ≠ userID) :
    (cascadeUser userID db).hasUser u = true := by
  obtain ⟨row, hrow, rfl⟩ := Table.get?_isSome.mp h
  exact Table.get?_isSome.mpr ⟨row, Table.mem_delete.mpr ⟨hrow, by simpa using hne⟩, rfl⟩

theorem grounded_uncollected {db : Db} (h : db.Grounded) (id : Id) : (cascadeCollection id db).Grounded := by
  have hkeep : ∀ {c u by_ : Id}, refersTo db c u by_ = true → c ≠ id →
      refersTo (cascadeCollection id db) c u by_ = true := by
    intro c u by_ hr hne
    rw [refersTo_iff] at hr ⊢
    exact ⟨hasCollection_cascade hr.1 hne, hr.2.1, hr.2.2⟩
  constructor
  · intro m hm
    obtain ⟨hm, hne⟩ := Table.mem_delete.mp hm
    exact hkeep (h.memberships m hm) (of_decide_eq_false hne)
  · intro g hg
    obtain ⟨hg, hne⟩ := Table.mem_delete.mp hg
    exact hkeep (h.pendingGrants g hg) (of_decide_eq_false hne)
  · exact fun g hg => h.roles g (Table.mem_delete.mp hg).1

theorem grounded_departed {db : Db} (h : db.Grounded) {userID : Id}
    (hr : userReferenced userID (cascadeUser userID db) = false) : (cascadeUser userID db).Grounded := by
  simp only [userReferenced, Bool.or_eq_false_iff, Table.any_eq_false, decide_eq_false_iff_not] at hr
  obtain ⟨⟨-, hgranted⟩, hrequested⟩ := hr
  have hkeep : ∀ {c u by_ : Id}, refersTo db c u by_ = true → u ≠ userID → by_ ≠ userID →
      refersTo (cascadeUser userID db) c u by_ = true := by
    intro c u by_ hr hu hby
    rw [refersTo_iff] at hr ⊢
    exact ⟨hr.1, hasUser_cascade hr.2.1 hu, hasUser_cascade hr.2.2 hby⟩
  constructor
  · intro m hm
    obtain ⟨hmem, hne⟩ := Table.mem_delete.mp hm
    exact hkeep (h.memberships m hmem) (of_decide_eq_false hne) (hgranted m hm)
  · intro g hg
    obtain ⟨hmem, hne⟩ := Table.mem_delete.mp hg
    exact hkeep (h.pendingGrants g hmem) (of_decide_eq_false hne) (hrequested g hg)
  · exact fun g hg => h.roles g (Table.mem_delete.mp hg).1

/-! ## One statement -/

variable {ids : List Id} {a b : Db}

theorem AccountWrite.grounded (h : AccountWrite ids a b) (hg : a.Grounded) : b.Grounded := by
  cases h with
  | still => exact hg
  | accounts a' hu => exact hg.mono rfl rfl (fun _ h => h) hu
  | audited => exact hg.mono rfl rfl (fun _ h => h) fun _ h => h

theorem Statement.grounded (h : Statement ids a b) (hg : a.Grounded) : b.Grounded := by
  cases h with
  | account h => exact h.grounded hg
  | counted | rows => exact hg.mono rfl rfl (fun _ h => h) fun _ h => h
  | @collected row collections hi =>
    refine hg.mono rfl rfl (fun id h => ?_) fun _ h => h
    obtain ⟨c, hc, rfl⟩ := Table.get?_isSome.mp h
    exact Table.get?_isSome.mpr ⟨c, (Table.mem_insert? hi).mpr (Or.inl hc), rfl⟩
  | joined memberships hm =>
    refine ⟨fun m hmem => ?_, hg.pendingGrants, hg.roles⟩
    rcases hm m hmem with h | h
    · exact hg.memberships m h
    · exact h
  | requested g hr hg' =>
    refine ⟨hg.memberships, fun x hx => ?_, fun x hx => ?_⟩
    · rcases Table.mem_upsert.mp hx with ⟨hx, -⟩ | rfl
      · exact hg.pendingGrants x hx
      · exact hg'
    · rcases Table.mem_upsert.mp hx with ⟨hx, -⟩ | rfl
      · exact hg.roles x hx
      · exact hr
  | settled p =>
    exact ⟨hg.memberships, fun g h => hg.pendingGrants g (Table.mem_delete.mp h).1,
      fun g h => hg.roles g (Table.mem_delete.mp h).1⟩
  | uncollected id => exact grounded_uncollected hg id
  | departed userID hr => exact grounded_departed hg hr

def Audited (ids : List Id) (a b : Db) : Prop :=
  ∀ e ∈ b.auditLog, e.id ∈ ids ∨ ∃ e' ∈ a.auditLog, e'.id = e.id

theorem Audited.refl (a : Db) : Audited ids a a := fun e he => Or.inr ⟨e, he, rfl⟩

theorem Audited.trans (a b c : Db) (h : Audited ids a b) (h' : Audited ids b c) : Audited ids a c := by
  intro e he
  rcases h' e he with h' | ⟨e', he', hid⟩
  · exact Or.inl h'
  · rw [← hid]
    exact h e' he'

theorem Statement.audited (h : Statement ids a b) : Audited ids a b := by
  cases h with
  | account h =>
    cases h with
    | still | accounts => exact .refl _
    | audited hi hid =>
      intro e he
      rcases (Table.mem_insert? hi).mp he with he | rfl
      · exact Or.inr ⟨e, he, rfl⟩
      · exact Or.inl hid
  | departed userID hr =>
    intro e he
    change e ∈ a.auditLog.update _ (fun entry => { entry with actorUserID := none }) fun _ => rfl at he
    rcases Table.mem_update.mp he with ⟨he, -⟩ | ⟨e', he', -, rfl⟩
    · exact Or.inr ⟨e, he, rfl⟩
    · exact Or.inr ⟨e', he', rfl⟩
  | _ => exact .refl _

/-! ## Every run -/

structure Server.Grounded (s : Server) : Prop where
  db : s.db.Grounded
  auditLog : ∀ e ∈ s.db.auditLog, e.id ∈ s.issued

theorem step_grounded {s s' : Server} {c : Command} (h : Server.step s c s') (hg : s.Grounded) : s'.Grounded := by
  obtain ⟨-, rfl⟩ := h
  constructor
  · exact command_keeps (R := fun a b => a.Grounded → b.Grounded) (fun _ _ h => h.grounded) (fun _ h => h)
      (fun _ _ _ h h' hg => h' (h hg)) s.db hg.db
  · intro e he
    have ha : Audited c.draws s.db (c.run s.db) := command_keeps (fun _ _ h => h.audited) .refl .trans s.db
    rcases ha e he with hid | ⟨e', he', hid⟩
    · exact List.mem_append_left _ hid
    · exact List.mem_append_right _ (hid ▸ hg.auditLog e' he')

theorem reachable_grounded {s : Server} (h : Lts.Reachable Server.init Server.step s) : s.Grounded := by
  refine Lts.Reachable.inv (P := Server.Grounded) ?_ (fun _ _ _ => step_grounded) h
  rintro s rfl
  exact ⟨⟨fun m h => absurd h (Table.mem_empty m), fun g h => absurd h (Table.mem_empty g),
    fun g h => absurd h (Table.mem_empty g)⟩, fun e h => absurd h (Table.mem_empty e)⟩

end Keyhole.Store
