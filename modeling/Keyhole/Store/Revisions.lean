import Keyhole.Store.Atomic
import Keyhole.Store.Evolves
import Keyhole.Store.Statement

/-!
# The revision sequence

Every statement leaves the sequence alone or moves it by one, so what the
operations of a run commit to it are consecutive integers. A run here is any
list of mutations, each under a fault of its own.
-/

namespace Keyhole.Store
open Sql Operation

structure Attempt where
  mutation : Mutation
  fault : Fault
  lost : StoreError

def Db.attempt (db : Db) (a : Attempt) : Db := (a.mutation.op.run a.lost a.fault db).2

def Db.attempts (db : Db) (a : Attempt) (db' : Db) : Prop := db' = db.attempt a

/-- What `nextRevision` handed to the writes an attempt committed. -/
def Db.numbers (db : Db) (a : Attempt) : List Int :=
  a.mutation.op.changes (·.revisionSequence) a.lost a.fault db

def Db.handedOut (db : Db) : List Attempt → List Int
  | [] => []
  | a :: as => db.numbers a ++ (db.attempt a).handedOut as

/-! ## Every statement counts -/

abbrev Counted : Db → Db → Prop := Counts (·.revisionSequence)

theorem statement_counts {ids : List Id} {a b : Db} (h : Statement ids a b) : Counted a b := by
  cases h with
  | account h => exact Or.inl (congrArg Vault.revisionSequence h.vault)
  | counted => exact Or.inr rfl
  | _ => exact Or.inl rfl

theorem mutation_counts (m : Mutation) : m.op.Keeps Counted := by
  obtain ⟨ids, h⟩ := mutation_statements m
  exact h.mono fun _ _ => statement_counts

/-! ## Along a run -/

theorem attempt_counts (db : Db) (a : Attempt) : db.revisionSequence ≤ (db.attempt a).revisionSequence ∧
    db.numbers a = consecutive db.revisionSequence (db.attempt a).revisionSequence :=
  changes_eq a.lost (mutation_counts a.mutation) a.fault db

theorem run_counts {db db' : Db} {as : List Attempt} (h : Lts.Run Db.attempts db as db') :
    db.revisionSequence ≤ db'.revisionSequence ∧
      db.handedOut as = consecutive db.revisionSequence db'.revisionSequence := by
  induction h with
  | nil db => exact ⟨le_refl _, (consecutive_self _).symm⟩
  | cons ha _ ih =>
    cases ha
    obtain ⟨hle, heq⟩ := attempt_counts _ _
    refine ⟨hle.trans ih.1, ?_⟩
    rw [Db.handedOut, heq, ih.2, consecutive_append hle ih.1]

theorem attempt_evolves (db : Db) (a : Attempt) : Evolves db.toVault (db.attempt a).toVault := by
  rcases mutation_tables a.mutation a.lost a.fault db with h | ⟨c, h⟩
  · rw [show (db.attempt a).toVault = db.toVault from congrArg Prod.fst h]
    exact Evolves.refl _
  · rw [show (db.attempt a).toVault = (c.run db).toVault from congrArg Prod.fst h]
    exact effect_evolves (command_effect c db)

theorem attempts_evolve {db db' : Db} {as : List Attempt} (h : Lts.Run Db.attempts db as db') :
    Evolves db.toVault db'.toVault := by
  refine Lts.Run.rel (R := fun a b : Db => Evolves a.toVault b.toVault) (fun db => Evolves.refl db.toVault)
    (fun _ _ _ => Evolves.trans) ?_ h
  intro a e b he
  cases he
  exact attempt_evolves a e

theorem attempts_bounded {db : Db} (h : Lts.Reachable (· = Db.fresh) Db.attempts db) : db.toVault.Bounded := by
  obtain ⟨_, as, rfl, hr⟩ := h
  exact bounded_of_fresh (attempts_evolve hr)

theorem reachable_attempts {s : Server} (h : Lts.Reachable Server.init Server.step s) :
    Lts.Reachable (· = Db.fresh) Db.attempts s.db := by
  refine Lts.Reachable.inv (P := fun s : Server => Lts.Reachable (· = Db.fresh) Db.attempts s.db) ?_ ?_ h
  · rintro _ rfl
    exact ⟨Db.fresh, [], rfl, .nil _⟩
  · intro s c s' hc hs
    have hstep : Db.attempts s.db ⟨.command c, none, .notFound⟩ s'.db := by
      rw [hc.2]
      exact (run_op .notFound s.db c).symm
    exact hs.run (.cons hstep (.nil _))

/-! ## Rows -/

/-- A row that is in both tables under one key is the same row or has a later revision. -/
def Later {κ ρ : Type} {key : ρ → κ} (revision : ρ → Int) (t t' : Table key) : Prop :=
  ∀ r ∈ t, ∀ r' ∈ t', key r' = key r → r' = r ∨ revision r < revision r'

theorem later_of_wrote {κ ρ : Type} {key : ρ → κ} {revision : ρ → Int} {n n' : Int} {t t' : Table key}
    (hw : Wrote revision n n' t t') (hb : ∀ r ∈ t, revision r ≤ n) : Later revision t t' := by
  intro r hr r' hr' hk
  rcases hw r' hr' with h | h
  · exact Or.inl (Table.eq_of_key h hr hk)
  · exact Or.inr (lt_of_le_of_lt (hb r hr) h.1)

theorem later_upsert {κ ρ : Type} [DecidableEq κ] {key : ρ → κ} {revision : ρ → Int} {t : Table key}
    {k : κ} {r x : ρ} (hg : t.get? k = some r) (hk : key x = k) (hr : revision r < revision x) :
    Later revision t (t.upsert x) := by
  intro y hy y' hy' hkey
  rcases Table.mem_upsert.mp hy' with ⟨h, -⟩ | rfl
  · exact Or.inl (Table.eq_of_key h hy hkey)
  · obtain ⟨hmem, hrk⟩ := Table.get?_eq_some.mp hg
    rw [Table.eq_of_key hy hmem (hkey.symm.trans (hk.trans hrk.symm))]
    exact Or.inr hr

theorem later_refl {κ ρ : Type} {key : ρ → κ} (revision : ρ → Int) (t : Table key) : Later revision t t :=
  fun _ hr _ hr' hk => Or.inl (Table.eq_of_key hr' hr hk)

theorem account_later {db : Db} {c : Command} {mark : Option Mark} {a : Accounts} (h : AccountEffect db c mark a) :
    Later User.revision db.users a.users := by
  cases h with
  | userCreated row hid hs hi hk =>
    intro r hr r' hr' hkey
    rcases (Table.mem_insert? hi).mp hr' with h | rfl
    · exact Or.inl (Table.eq_of_key h hr hkey)
    · exact absurd hkey.symm (Table.get?_eq_none.mp (Table.insert?_fresh hi) r hr)
  | enrolled hi hused hu hs =>
    exact later_upsert hu (Table.get?_eq_some.mp hu).2 (Int.lt_succ _)
  | passwordRotated hu hs hv => exact later_upsert hu (Table.get?_eq_some.mp hu).2 (Int.lt_succ _)
  | recoveryRotated hu hs hv => exact later_upsert hu (Table.get?_eq_some.mp hu).2 (Int.lt_succ _)
  | recovered ht hused hu hs =>
    refine later_upsert hu (Table.get?_eq_some.mp hu).2 ?_
    simp only [User.recoveryRotated, User.passwordRotated]
    omega
  | enabled hu hp => exact later_upsert hu (Table.get?_eq_some.mp hu).2 (Int.lt_succ _)
  | disabled hu hadmin => exact later_upsert hu (Table.get?_eq_some.mp hu).2 (Int.lt_succ _)
  | reset hu hi => exact later_upsert hu (Table.get?_eq_some.mp hu).2 (Int.lt_succ _)
  | userDeleted hd => exact fun r hr r' hr' hk => Or.inl (Table.eq_of_key (Table.mem_delete.mp hr').1 hr hk)
  | still | inviteCreated | sessionCreated | sessionRotated | sessionTouched | sessionsRevoked | tokenCreated =>
    exact later_refl _ _

theorem attempt_users (db : Db) (a : Attempt) : Later User.revision db.users (db.attempt a).users := by
  rcases mutation_tables a.mutation a.lost a.fault db with h | ⟨c, h⟩
  · rw [show (db.attempt a).users = db.users from congrArg (fun t => t.2.users) h]
    exact later_refl _ _
  · rw [show (db.attempt a).users = (c.run db).users from congrArg (fun t => t.2.users) h]
    exact account_later (account_effect c db)

/-! ## Failures -/

theorem trailing_sequence {m : Mutation} (h : m.trails = true) :
    m.op.Keeps (SameView fun db => db.revisionSequence) := by
  have hmem : ∀ {id : Id}, id ∈ [id] := List.mem_singleton_self _
  have hvault : ∀ {α : Type} {ids : List Id} {p : Txn α}, p.Keeps (AccountWrite ids) →
      p.Keeps (SameView fun db => db.revisionSequence) :=
    fun hp => hp.mono fun _ _ h => congrArg Vault.revisionSequence h.vault
  cases m with
  | command c =>
    cases c with
    | createPendingUser =>
      simp only [Mutation.op, Command.op]
      split
      · exact keeps_done _
      · split
        · exact keeps_done _
        · split
          · exact keeps_done _
          · exact keeps_plain (@hvault _ [] _ (createPendingUserProg_keeps _ _ _ _))
    | createInvite => exact keeps_plain (@hvault _ [] _ (createInviteProg_keeps _ _ _ _))
    | createPendingGrant =>
      simp only [Mutation.op, Command.op]
      split
      · exact keeps_done _
      · refine keeps_plain ((createPendingGrantProg_tables _ _ _ _ _ _).mono fun _ _ h => ?_)
        exact congrArg (fun t => t.1.revisionSequence) h
    | rotateRecovery => exact keeps_checked (keeps_plain (hvault (rotateRecoveryProg_keeps hmem _ _)))
    | purgeTombstones =>
      refine ⟨Prog.keeps_bind (keeps_write fun _ => rfl) fun _ =>
        Prog.keeps_bind (keeps_write fun _ => rfl) fun _ => Prog.keeps_pure _, ?_⟩
      intro total
      unfold purgeLogged
      split
      · exact keeps_plain (hvault (appendAudit_keeps hmem _ _ _ _))
      · exact keeps_done _
    | _ => cases h
  | _ => cases h

theorem failure_keeps_sequence (db : Db) (a : Attempt) {e : StoreError}
    (h : (a.mutation.op.run a.lost a.fault db).1 = .error e) :
    (db.attempt a).revisionSequence = db.revisionSequence := by
  cases ht : a.mutation.trails with
  | false => exact congrArg (fun db : Db => db.revisionSequence) (mutation_atomic ht a.lost a.fault db e h)
  | true => exact run_keeps a.lost SameView.refl SameView.trans (trailing_sequence ht) a.fault db

/-! ## A bulk create -/

theorem createdItems_revisions (now : Time) (owner : Id) (n : Int) {ids : List Id} {ins : List ItemInput}
    (hl : ins.length ≤ ids.length) :
    (createdItems now owner n ids ins).map Item.revision = consecutive n (n + ins.length) := by
  induction ins generalizing n ids with
  | nil => cases ids <;> simp [createdItems]
  | cons inp ins ih =>
    cases ids with
    | nil => simp at hl
    | cons id ids =>
      have hlen : n + 1 + (ins.length : Int) = n + (inp :: ins).length := by
        simp only [List.length_cons]
        omega
      rw [createdItems, List.map_cons, ih (n + 1) (by simpa using hl), hlen,
        ← consecutive_append (show n ≤ n + 1 by omega) (by simp only [List.length_cons]; omega), consecutive_succ]
      rfl

theorem createdItems_inputs (now : Time) (owner : Id) (n : Int) {ids : List Id} {ins : List ItemInput}
    (hl : ins.length ≤ ids.length) :
    (createdItems now owner n ids ins).map
        (fun item => (⟨item.collectionID, item.ciphertext, item.wrappedItemKey⟩ : ItemInput))
      = ins := by
  induction ins generalizing n ids with
  | nil => cases ids <;> rfl
  | cons inp ins ih =>
    cases ids with
    | nil => simp at hl
    | cons id ids =>
      rw [createdItems, List.map_cons, ih (n + 1) (by simpa using hl)]
      rfl

theorem createItemsBulk_numbers {now : Time} {ids : List Id} {owner : Id} {ins : List ItemInput} {db db' : Db}
    {items : List Item} (h : createItemsBulk now ids owner ins db = (.ok items, db')) (lost : StoreError) :
    items.map Item.revision = db.numbers ⟨.command (.createItemsBulk now ids owner ins), none, lost⟩ ∧
      items.map (fun item => (⟨item.collectionID, item.ciphertext, item.wrappedItemKey⟩ : ItemInput)) = ins := by
  obtain ⟨t, rfl, hl, hdb', -, -⟩ := insertItems_ok (createItemsBulk_ok h).2
  refine ⟨?_, createdItems_inputs now owner _ hl⟩
  rw [(attempt_counts db _).2, createdItems_revisions now owner _ hl]
  have hattempt : db.attempt ⟨.command (.createItemsBulk now ids owner ins), none, lost⟩ = db' := by
    refine (run_op lost db (.createItemsBulk now ids owner ins)).trans ?_
    simp only [Command.run, h]
  rw [hattempt, hdb']

/-! ## The discipline -/

/-- The counter is ahead of every row, numbers its writes with consecutive
integers in commit order, and moves only with a commit. -/
theorem revision_discipline {db db' : Db} {as : List Attempt} (h₀ : Lts.Reachable (· = Db.fresh) Db.attempts db)
    (h : Lts.Run Db.attempts db as db') :
    db'.toVault.Bounded ∧
      (db.handedOut as = consecutive db.revisionSequence db'.revisionSequence ∧
        (db.handedOut as).Pairwise (· < ·)) ∧
      ((∀ item ∈ db'.items, item ∈ db.items ∨ item.revision ∈ db.handedOut as) ∧
        (∀ folder ∈ db'.folders, folder ∈ db.folders ∨ folder.revision ∈ db.handedOut as) ∧
        ∀ m ∈ db'.memberships, m ∈ db.memberships ∨ m.grantedRevision ∈ db.handedOut as) ∧
      (Later Item.revision db.items db'.items ∧ Later Folder.revision db.folders db'.folders ∧
        Later Membership.grantedRevision db.memberships db'.memberships ∧
        ∀ a, Later User.revision db'.users (db'.attempt a).users) ∧
      (∀ now ids owner ins items db'' lost, createItemsBulk now ids owner ins db' = (.ok items, db'') →
        items.map Item.revision = db'.numbers ⟨.command (.createItemsBulk now ids owner ins), none, lost⟩ ∧
        (items.map Item.revision).Pairwise (· < ·) ∧
        items.map (fun item => (⟨item.collectionID, item.ciphertext, item.wrappedItemKey⟩ : ItemInput)) = ins) ∧
      ∀ (a : Attempt) (e : StoreError), (a.mutation.op.run a.lost a.fault db').1 = .error e →
        (db'.attempt a).revisionSequence = db'.revisionSequence := by
  have hb := attempts_bounded h₀
  have he := attempts_evolve h
  obtain ⟨-, hnumbers⟩ := run_counts h
  refine ⟨attempts_bounded (h₀.run h), ⟨hnumbers, ?_⟩, ⟨?_, ?_, ?_⟩, ⟨?_, ?_, ?_, ?_⟩, ?_, ?_⟩
  · rw [hnumbers]
    exact consecutive_sorted _ _
  · intro item hi
    rw [hnumbers, mem_consecutive]
    exact he.items item hi
  · intro folder hf
    rw [hnumbers, mem_consecutive]
    exact he.folders folder hf
  · intro m hm
    rw [hnumbers, mem_consecutive]
    exact he.memberships m hm
  · exact later_of_wrote he.items fun item hi => (hb.items item hi).2
  · exact later_of_wrote he.folders fun folder hf => (hb.folders folder hf).2
  · exact later_of_wrote he.memberships fun m hm => (hb.memberships m hm).2
  · exact fun a => attempt_users db' a
  · intro now ids owner ins items db'' lost hc
    obtain ⟨hrev, hins⟩ := createItemsBulk_numbers hc lost
    refine ⟨hrev, ?_, hins⟩
    rw [hrev, (attempt_counts db' _).2]
    exact consecutive_sorted _ _
  · exact fun a e hfail => failure_keeps_sequence db' a hfail

/-- Two items at once, between a create whose commit fails and an update. -/
def annImports : List Attempt := [
  ⟨.command (.createPendingUser 0 "ann" "ann@home" "Ann" "user"), none, .notFound⟩,
  ⟨.command (.createItem 0 "lost" "ann" ⟨none, "c", "k"⟩), some 4, .internal "commit"⟩,
  ⟨.command (.createItemsBulk 0 ["bank", "mail"] "ann" [⟨none, "c-1", "k-1"⟩, ⟨none, "c-2", "k-2"⟩]),
    none, .notFound⟩,
  ⟨.command (.updateItem 0 "bank" 1 ⟨none, "c-3", "k-3"⟩), none, .notFound⟩]

theorem revision_discipline_annImports :
    Db.fresh.handedOut annImports = [1, 2, 3] ∧ (Db.fresh.handedOut annImports).Pairwise (· < ·) :=
  have hrun : Lts.Run Db.attempts Db.fresh annImports _ := .cons rfl (.cons rfl (.cons rfl (.cons rfl (.nil _))))
  ⟨by decide, (revision_discipline ⟨Db.fresh, [], rfl, .nil _⟩ hrun).2.1.2⟩

end Keyhole.Store
