import Keyhole.Store.Operation

/-!
# All or nothing

An operation that is one transaction, or one statement and nothing that can
fail after it, reports an error only over the database it found. Five
operations have one more statement after something is committed; for each of
them the states and faults that leave the commit behind an error.
-/

namespace Keyhole.Store
open Sql Operation

/-! ## One transaction, or one statement -/

/-- A statement that can still fail follows what the operation has committed. -/
def Command.trails : Command → Bool
  | createPendingUser .. | createInvite .. | createPendingGrant .. | rotateRecovery .. | purgeTombstones .. => true
  | _ => false

def Mutation.trails : Mutation → Bool
  | command c => c.trails
  | _ => false

theorem atomic_checked {valid : Except StoreError Unit} {op : Op} (h : op.Atomic) : (checked valid op).Atomic := by
  cases valid with
  | error e => exact atomic_done _
  | ok _ => exact h

theorem atomic_found {β : Type} {find : Db → Except StoreError β} {k : β → Op} (h : ∀ b, (k b).Atomic) :
    (lookup find k).Atomic := by
  apply atomic_lookup
  intro found
  cases found with
  | error e => exact atomic_done _
  | ok b => exact h b

theorem atomic_guarded {s : Db → Nat × Db} {e : StoreError} (hs : ∀ db, (s db).1 = 0 → (s db).2 = db) :
    (plain (write s >>= fun n => require (n ≠ 0) e)).Atomic := by
  apply atomic_plain
  intro db n db' h
  have hrow : s db = (n, db') := Except.ok.inj h
  by_cases hn : n = 0
  · have hsame := hs db (by rw [hrow]; exact hn)
    rw [hrow] at hsame
    exact Or.inr ⟨e, by simp [Prog.bind, require, hn], hsame⟩
  · exact Or.inl ⟨(), by simp [Prog.bind, require, hn]; rfl⟩

theorem atomic_insert {β : Type} {w : SqlError → StoreError} {s : Db → Except SqlError (Unit × Db)} (b : β) :
    (plain (do sql w s; return b : Txn β)).Atomic :=
  atomic_plain fun _ _ _ _ => Or.inl ⟨b, rfl⟩

theorem deleteCollectionRow_zero (id : Id) (db : Db) (h : (deleteCollectionRow id db).1 = 0) :
    (deleteCollectionRow id db).2 = db := by
  unfold deleteCollectionRow at h ⊢
  split at h
  · cases h
  · rename_i hc
    rw [if_neg hc]

theorem revokeSessions_zero (now : Time) (which : Session → Bool) (db : Db)
    (h : (revokeSessions now which db).1 = 0) :
    (revokeSessions now which db).2 = db :=
  congrArg (fun sessions => { db with sessions }) (Table.update_of_count h)

theorem atomic_rotateSession (now : Time) (session : Session) (refresh access' refresh' : String) :
    (plain (rotateSessionTx now session refresh access' refresh')).Atomic := by
  apply atomic_plain
  intro db n db' h
  by_cases hn : n = 0
  · refine Or.inr ⟨.notFound, by simp [Prog.bind, require, hn, bind], ?_⟩
    unfold rotateSessionRow at h
    simp only at h
    split at h
    · rename_i r hr
      split at hr
      · simp only [Except.ok.injEq] at h hr
        subst h
        obtain ⟨hc, rfl⟩ := Prod.mk.inj hr
        exact congrArg (fun sessions => { db with sessions }) (Table.update_of_count (hc.trans hn))
      · cases hr
    · cases h
  · exact Or.inl ⟨_, by simp [Prog.bind, require, hn, bind, pure]; rfl⟩

theorem atomic_createItemsBulkOp (now : Time) (ids : List Id) (owner : Id) (ins : List ItemInput) :
    (createItemsBulkOp now ids owner ins).Atomic := by
  unfold createItemsBulkOp
  split
  · exact atomic_done _
  · exact atomic_checked (atomic_once _)

theorem command_atomic {c : Command} (h : c.trails = false) : c.op.Atomic := by
  cases c with
  | createPendingUser | createInvite | createPendingGrant | rotateRecovery | purgeTombstones => cases h
  | createItem now id owner inp => exact atomic_createItemsBulkOp now [id] owner [inp]
  | createItemsBulk now ids owner ins => exact atomic_createItemsBulkOp now ids owner ins
  | updateItem => exact atomic_checked (atomic_once _)
  | rotatePassword => exact atomic_checked (atomic_once _)
  | createFolder | updateFolder | fulfilGrant =>
    simp only [Command.op]
    split
    · exact atomic_done _
    · exact atomic_once _
  | createCollection =>
    simp only [Command.op]
    split
    · exact atomic_done _
    · split
      · exact atomic_done _
      · exact atomic_once _
  | fulfilGrantOrAdd =>
    simp only [Command.op]
    split
    · exact atomic_done _
    · split
      · exact atomic_done _
      · exact atomic_once _
  | setUserStatus =>
    simp only [Command.op]
    split
    · exact atomic_done _
    · exact atomic_once _
  | deleteItem | deleteFolder | removeMember | resetUser | deleteUser | completeEnrollment | completeRecovery =>
    exact atomic_once _
  | deleteCollection id => exact atomic_guarded (deleteCollectionRow_zero id)
  | revokeSession now id => exact atomic_guarded (revokeSessions_zero now _)
  | revokeSessionForUser now id u => exact atomic_guarded (revokeSessions_zero now _)
  | createSession => exact atomic_insert _
  | createRecoveryToken => exact atomic_insert _
  | touchSession => exact atomic_plain_stmt _
  | rotateSession now session refresh access' refresh' =>
    exact atomic_rotateSession now session refresh access' refresh'

theorem mutation_atomic {m : Mutation} (h : m.trails = false) : m.op.Atomic := by
  cases m with
  | command c => exact command_atomic h
  | completeEnrollment => exact atomic_checked (atomic_found fun _ => atomic_once _)
  | completeRecovery => exact atomic_checked (atomic_checked (atomic_found fun _ => atomic_once _))
  | rotateSession now => exact atomic_found fun session => atomic_rotateSession now session _ _ _
  | appendAudit => exact atomic_plain_stmt _

/-! ## Where a commit is left behind an error -/

def Db.auditTaken (db : Db) (auditID : Id) : Bool := (db.auditLog.get? auditID).isSome

def Db.admitsUser (db : Db) (id : Id) (email : String) : Bool :=
  !db.users.any (fun user => user.email = email) && !db.hasUser id

def Db.admitsInvite (db : Db) (id : Id) (token : String) (userID : Id) : Bool :=
  !db.invites.any (fun inv => inv.tokenHash = hashToken token) && !(db.invites.get? id).isSome && db.hasUser userID

def Db.hasExpired (db : Db) (cutoff : Time) : Bool :=
  db.items.any (fun item => expiredTombstone cutoff item.deletedAt) ||
    db.folders.any fun folder => expiredTombstone cutoff folder.deletedAt

/-- The states and faults under which an operation reports an error over
something it has committed. -/
def Command.Strands (db : Db) (fault : Fault) : Command → Prop
  | createPendingUser _ id email name role =>
    (parseRole role).isSome ∧ (email ≠ "" ∧ '@' ∈ email.toList) ∧ Go.trimSpace name ≠ "" ∧
      db.admitsUser id email ∧ Strikes fault 1 False
  | createInvite _ id token u _ => db.admitsInvite id token u ∧ Strikes fault 1 False
  | createPendingGrant now auditID c u role by_ =>
    (validRole role).isSome ∧ refersTo db c u by_ ∧
      db.pendingGrants.get? (c, u) ≠
        some { collectionID := c, userID := u, role, requestedBy := by_, createdAt := stamp now } ∧
      Strikes fault 1 (db.auditTaken auditID)
  | rotateRecovery _ auditID u inp =>
    inp.validate = .ok () ∧ (db.users.get? u).any (·.status = .active) ∧ Strikes fault 1 (db.auditTaken auditID)
  | purgeTombstones now auditID olderThan =>
    db.hasExpired (stamp (now - olderThan)) ∧ Strikes fault 4 (db.auditTaken auditID)
  | _ => False

def Mutation.Strands (db : Db) (fault : Fault) : Mutation → Prop
  | command c => c.Strands db fault
  | _ => False

section
variable (lost : StoreError)

theorem appendAudit_last (now : Time) (id : Id) (actor action target : String) (md : List (String × String))
    (db : Db) : Last (appendAudit id now actor action target md) db :=
  ⟨_, _, _, rfl, fun _ _ _ => ⟨(), rfl⟩⟩

theorem appendAudit_refused {now : Time} {id : Id} {actor action target : String} {md : List (String × String)}
    {db : Db} (h : actor = "" ∨ db.hasUser actor = true) :
    (∃ e, (appendAudit id now actor action target md).exec db = .error e) ↔ db.auditTaken id = true := by
  have hactor : (if actor = "" then none else some actor : Option Id).all db.hasUser = true := by
    by_cases hn : actor = ""
    · simp [hn]
    · simpa [hn] using h
  unfold Db.auditTaken
  simp only [appendAudit, sql, Prog.exec, insertAudit, hactor]
  cases hi : db.auditLog.insert? _ with
  | none => simpa using Table.insert?_eq_none.mp hi
  | some t => simpa using Table.insert?_fresh hi

theorem refuse_faithful (e : StoreError) (fault : Fault) (db : Db) : (refuse e).Faithful lost fault db :=
  atomic_done _ lost fault db

theorem insertUser_admits (db : Db) (row : User) :
    (∃ users, db.users.insert? row = some users ∧ insertUser row db = .ok ((), { db with users })) ∧
      db.admitsUser row.id row.email = true ∨
    (∃ e, insertUser row db = .error e) ∧ db.admitsUser row.id row.email = false := by
  unfold insertUser Db.admitsUser Accounts.hasUser
  by_cases hu : (db.users.any fun user => user.email = row.email) = true
  · rw [if_pos hu, hu]
    exact Or.inr ⟨⟨_, rfl⟩, rfl⟩
  · rw [if_neg hu]
    rw [Bool.not_eq_true] at hu
    rw [hu]
    cases hi : db.users.insert? row with
    | none => exact Or.inr ⟨⟨_, rfl⟩, by simpa using Table.insert?_eq_none.mp hi⟩
    | some users =>
      refine Or.inl ⟨⟨users, rfl, rfl⟩, ?_⟩
      simp [Table.insert?_fresh hi]

theorem createPendingUser_faithful (now : Time) (id : Id) (email name : String) (role : UserRole) (fault : Fault)
    (db : Db) : (plain (createPendingUserProg now id email name role)).Faithful lost fault db ↔
      ¬ (db.admitsUser id email = true ∧ Strikes fault 1 False) := by
  rcases insertUser_admits db (pendingUser now id email name role) with
    ⟨⟨users, hi, hrow⟩, hadmit⟩ | ⟨⟨e, hrow⟩, hadmit⟩
  · have hget : users.get? id = some (pendingUser now id email name role) :=
      Table.get?_eq_some.mpr ⟨(Table.mem_insert? hi).mpr (Or.inr rfl), rfl⟩
    have hne : ({ db with users } : Db) ≠ db := fun h => Table.insert?_ne hi (congrArg (·.users) h)
    refine (show _ ↔ ¬ (_ ∧ Strikes fault 1 False) from
      faithful_trailing lost (by rw [hrow]) ⟨_, _, _, rfl, ?_⟩ ?_ fault).trans ?_
    · intro found db'' h
      cases h
      exact ⟨_, by simp [userByID, hget]; rfl⟩
    · simp [Prog.bind, Prog.exec_bind, userByID, hget]
    · simp [hne, show db.admitsUser id email = true from hadmit]
  · refine iff_of_true (faithful_refused lost (Or.inl ⟨_, by rw [hrow]⟩) fault) ?_
    rw [show db.admitsUser id email = false from hadmit]
    simp

theorem insertInvite_admits (db : Db) (row : Invite) {token : String} (ht : row.tokenHash = hashToken token) :
    (∃ invites, db.invites.insert? row = some invites ∧ insertInvite row db = .ok ((), { db with invites })) ∧
      db.admitsInvite row.id token row.userID = true ∨
    (∃ e, insertInvite row db = .error e) ∧ db.admitsInvite row.id token row.userID = false := by
  unfold insertInvite Db.admitsInvite
  rw [ht]
  by_cases hu : (db.invites.any fun inv => inv.tokenHash = hashToken token) = true
  · rw [if_pos hu, hu]
    exact Or.inr ⟨⟨_, rfl⟩, rfl⟩
  · rw [if_neg hu]
    rw [Bool.not_eq_true] at hu
    rw [hu]
    cases hi : db.invites.insert? row with
    | none => exact Or.inr ⟨⟨_, rfl⟩, by simp [Table.insert?_eq_none.mp hi]⟩
    | some invites =>
      simp only
      by_cases hx : db.hasUser row.userID = true
      · rw [if_pos hx]
        exact Or.inl ⟨⟨invites, rfl, rfl⟩, by simp [Table.insert?_fresh hi, hx]⟩
      · rw [if_neg hx]
        exact Or.inr ⟨⟨_, rfl⟩, by simp [hx]⟩

theorem createInvite_faithful (now : Time) (id : Id) (token : String) (u : Id) (ttl : Time) (fault : Fault)
    (db : Db) :
    (plain (createInviteProg now id token u ttl)).Faithful lost fault db ↔
      ¬ (db.admitsInvite id token u = true ∧ Strikes fault 1 False) := by
  rcases insertInvite_admits db (newInvite now id token u ttl) rfl with
    ⟨⟨invites, hi, hrow⟩, hadmit⟩ | ⟨⟨e, hrow⟩, hadmit⟩
  · have hne : ({ db with invites } : Db) ≠ db := fun h => Table.insert?_ne hi (congrArg (·.invites) h)
    have hfind : (invites.find? fun inv => inv.tokenHash = hashToken token) ≠ none := by
      rw [Ne, Table.find?_eq_none]
      intro h
      have := h (newInvite now id token u ttl) ((Table.mem_insert? hi).mpr (Or.inr rfl))
      simp [newInvite] at this
    obtain ⟨inv, hinv⟩ := Option.ne_none_iff_exists'.mp hfind
    refine (show _ ↔ ¬ (_ ∧ Strikes fault 1 False) from
      faithful_trailing lost (by rw [hrow]) ⟨_, _, _, rfl, ?_⟩ ?_ fault).trans ?_
    · intro found db'' h
      cases h
      exact ⟨_, by simp [hinv]; rfl⟩
    · simp [Prog.bind, pure, Prog.exec_bind, Prog.exec, hinv]
    · simp [hne, show db.admitsInvite id token u = true from hadmit]
  · refine iff_of_true (faithful_refused lost (Or.inl ⟨_, by rw [hrow]⟩) fault) ?_
    rw [show db.admitsInvite id token u = false from hadmit]
    simp

theorem createPendingGrant_faithful (now : Time) (auditID c u role by_ : Id) (fault : Fault) (db : Db) :
    (plain (createPendingGrantProg now auditID c u role by_)).Faithful lost fault db ↔
      ¬ (refersTo db c u by_ = true ∧ db.pendingGrants.get? (c, u) ≠
          some { collectionID := c, userID := u, role, requestedBy := by_, createdAt := stamp now } ∧
        Strikes fault 1 (db.auditTaken auditID = true)) := by
  by_cases hr : refersTo db c u by_ = true
  · have hby : db.hasUser by_ = true := by
      unfold refersTo at hr
      simp only [Bool.and_eq_true] at hr
      exact hr.2
    have hsame : ({ db with pendingGrants := db.pendingGrants.upsert ⟨c, u, role, by_, stamp now⟩ } : Db) = db ↔
        db.pendingGrants.get? (c, u) = some ⟨c, u, role, by_, stamp now⟩ := by
      refine Iff.trans ?_ (Table.upsert_eq_self (t := db.pendingGrants) (r := ⟨c, u, role, by_, stamp now⟩))
      exact ⟨congrArg Db.pendingGrants, fun h => congrArg (fun pendingGrants => { db with pendingGrants }) h⟩
    have hrow : upsertPendingGrant ⟨c, u, role, by_, stamp now⟩ db = .ok ((), _) := if_pos hr
    refine (show _ ↔ ¬ (_ ∧ Strikes fault 1 (db.auditTaken auditID = true)) from
      faithful_trailing lost (by rw [hrow]) ?_ ?_ fault).trans ?_
    · exact appendAudit_last _ _ _ _ _ _ _
    · exact appendAudit_refused (Or.inr hby)
    rw [and_iff_right hr]
    exact not_congr (and_congr_left' (not_congr hsame))
  · have hrow : upsertPendingGrant ⟨c, u, role, by_, stamp now⟩ db = .error .foreignKey := if_neg hr
    refine iff_of_true (faithful_refused lost (Or.inl ⟨_, by rw [hrow]⟩) fault) ?_
    exact fun h => hr h.1

theorem rotateRecovery_faithful (now : Time) (auditID u : Id) (inp : RecoveryRotation) (fault : Fault) (db : Db) :
    (plain (rotateRecoveryProg now auditID u inp)).Faithful lost fault db ↔
      ¬ ((db.users.get? u).any (fun user => user.status = .active) = true ∧
        Strikes fault 1 (db.auditTaken auditID = true)) := by
  have hf : ∀ user : User, (user.recoveryRotated now inp).id = user.id := fun _ => rfl
  cases hrow : updateUserRow (fun user => user.id = u && user.status = .active)
    (·.recoveryRotated now inp) hf db with
  | mk n db' =>
  by_cases hn : n = 0
  · subst hn
    have hsame := updateUserRow_zero db _ _ hf (congrArg Prod.fst hrow)
    rw [hrow] at hsame
    cases hsame
    refine iff_of_true (faithful_refused lost (Or.inr ⟨0, .notFound, by rw [hrow], rfl⟩) fault) ?_
    rintro ⟨hactive, -⟩
    rw [Option.any_eq_true] at hactive
    obtain ⟨user, hu, hs⟩ := hactive
    have hzero := Table.count_eq_zero.mp (congrArg Prod.fst hrow) user (Table.get?_eq_some.mp hu).1
    simp [(Table.get?_eq_some.mp hu).2, of_decide_eq_true hs] at hzero
  · obtain ⟨user, hu, hp, hdb'⟩ := updateUserRow_ok u hrow hn (by simp +contextual)
    simp only [Bool.and_eq_true, decide_eq_true_eq] at hp
    have hactive : (db.users.get? u).any (fun user => user.status = .active) = true := by simp [hu, hp.2]
    have hget : db'.users.get? u = some (user.recoveryRotated now inp) := by
      rw [hdb']
      exact Table.get?_upsert.trans (if_pos hp.1)
    have hne : db' ≠ db := by
      intro h
      rw [h, hu] at hget
      have := congrArg User.revision (Option.some.inj hget)
      simp only [User.recoveryRotated] at this
      omega
    have hactor : db'.hasUser u = true := by simp [Accounts.hasUser, hget]
    have hpass : ((Prog.done n : Txn Nat).bind fun affected => require (decide (affected ≠ 0)) StoreError.notFound)
      =
        .done () := by
      simp [Prog.bind, require, hn]
      rfl
    refine (show _ ↔ ¬ (_ ∧ Strikes fault 1 (db'.auditTaken auditID = true)) from
      faithful_trailing lost (by rw [hrow]) ?_ ?_ fault).trans ?_
    · simp only [hpass]
      exact appendAudit_last _ _ _ _ _ _ _
    · simp only [hpass]
      exact appendAudit_refused (Or.inr hactor)
    · rw [show db'.auditTaken auditID = db.auditTaken auditID by rw [hdb']; rfl]
      exact not_congr (and_congr_left' (iff_of_true hne hactive))

theorem purge_unchanged (cutoff : Time) (db : Db) :
    (purgeFolders cutoff (purgeItems cutoff db).2).2 = db ↔ db.hasExpired cutoff = false := by
  unfold Db.hasExpired
  rw [Bool.or_eq_false_iff, ← Table.delete_eq_self, ← Table.delete_eq_self]
  constructor
  · intro h
    exact ⟨congrArg (fun db : Db => db.items) h, congrArg (fun db : Db => db.folders) h⟩
  · intro h
    simp only [purgeItems, purgeFolders, h.1, h.2]

theorem purge_total (cutoff : Time) (db : Db) :
    (purgeItems cutoff db).1 + (purgeFolders cutoff (purgeItems cutoff db).2).1 > 0 ↔
      db.hasExpired cutoff = true := by
  unfold Db.hasExpired
  have hcount : ∀ {κ ρ : Type} {key : ρ → κ} (t : Table key) (p : ρ → Bool), 0 < t.count p ↔
    t.any p = true := by
    intro κ ρ key t p
    rw [Nat.pos_iff_ne_zero, Ne, Table.count_eq_zero, Table.any_eq_true]
    simp
  rw [Bool.or_eq_true, ← hcount, ← hcount]
  simp only [purgeItems, purgeFolders]
  omega

theorem run_purge_reaches (now : Time) (auditID : Id) (olderThan : Time) {fault : Fault}
    (h : fault.reaches 4 = true) (db : Db) :
    ∃ fault' : Fault, (∀ refused, Strikes fault 4 refused ↔ Strikes fault' 0 refused) ∧
      (Command.purgeTombstones now auditID olderThan).op.run lost fault db =
        (purgeLogged now auditID ((purgeItems (stamp (now - olderThan)) db).1 +
          (purgeFolders (stamp (now - olderThan)) (purgeItems (stamp (now - olderThan)) db).2).1)).run lost fault'
          (purgeFolders (stamp (now - olderThan)) (purgeItems (stamp (now - olderThan)) db).2).2 := by
  rcases fault with _ | _ | _ | _ | _ | n
  · exact ⟨none, fun _ => by simp [Strikes, Fault.reaches], rfl⟩
  · cases h
  · cases h
  · cases h
  · cases h
  · exact ⟨some n, fun _ => by simp [Strikes, Fault.reaches], rfl⟩

theorem run_purge_short (now : Time) (auditID : Id) (olderThan : Time) {fault : Fault} (h : fault.reaches 4 = false)
    (db : Db) : (Command.purgeTombstones now auditID olderThan).op.run lost fault db = (.error lost, db) := by
  rcases fault with _ | _ | _ | _ | _ | n
  · cases h
  · rfl
  · rfl
  · rfl
  · rfl
  · simp [Fault.reaches] at h

theorem purgeTombstones_faithful (now : Time) (auditID : Id) (olderThan : Time) (fault : Fault) (db : Db) :
    (Command.purgeTombstones now auditID olderThan).op.Faithful lost fault db ↔
      ¬ (db.hasExpired (stamp (now - olderThan)) = true ∧ Strikes fault 4 (db.auditTaken auditID = true)) := by
  unfold Faithful
  cases hf : fault.reaches 4 with
  | false =>
    rw [run_purge_short lost now auditID olderThan hf db]
    simp [Strikes, hf]
  | true =>
    obtain ⟨fault', hs, hrun⟩ := run_purge_reaches lost now auditID olderThan hf db
    rw [hrun, hs]
    have htotal := purge_total (stamp (now - olderThan)) db
    have hsame := purge_unchanged (stamp (now - olderThan)) db
    generalize (purgeItems (stamp (now - olderThan)) db).1 + _ = total at htotal ⊢
    have htaken : (purgeFolders (stamp (now - olderThan)) (purgeItems (stamp (now - olderThan)) db).2).2.auditTaken
      auditID =
      db.auditTaken auditID := rfl
    generalize (purgeFolders (stamp (now - olderThan)) (purgeItems (stamp (now - olderThan)) db).2).2 = db'
      at hsame htaken ⊢
    unfold purgeLogged
    by_cases hpos : total > 0
    · have hx := htotal.mp hpos
      have hne : db' ≠ db := by
        intro h
        rw [hsame.mp h] at hx
        cases hx
      have hrefused : (∃ e, (purgeAudit now auditID total).exec db' = .error e) ↔ db.auditTaken auditID = true := by
        rw [← htaken]
        exact appendAudit_refused (Or.inl rfl)
      rw [if_pos hpos, ← hrefused]
      rcases run_last lost (show Last (purgeAudit now auditID total) db' from appendAudit_last _ _ _ _ _ _ _)
        fault' with
        ⟨⟨e, he⟩, hs'⟩ | ⟨⟨s'', hok⟩, hs'⟩
      · simp [he, hs', hx, hne]
      · simp [hok, hs']
    · rw [if_neg hpos]
      have hx : ¬ db.hasExpired (stamp (now - olderThan)) = true := fun h => hpos (htotal.mpr h)
      simp [run, hx]

theorem command_faithful (c : Command) (fault : Fault) (db : Db) (ht : c.trails = true) :
    c.op.Faithful lost fault db ↔ ¬ c.Strands db fault := by
  cases c with
  | createPendingUser now id email name role =>
    simp only [Command.op, Command.Strands]
    cases parseRole role with
    | none => exact iff_of_true (refuse_faithful lost _ fault db) (by simp)
    | some role =>
      by_cases hemail : (email = "" || '@' ∉ email.toList) = true
      · simp only [if_pos hemail]
        refine iff_of_true (refuse_faithful lost _ fault db) ?_
        rintro ⟨-, h, -⟩
        simp only [Bool.or_eq_true, decide_eq_true_eq] at hemail
        exact hemail.elim h.1 (fun h' => h' h.2)
      · simp only [if_neg hemail]
        have hok : email ≠ "" ∧ '@' ∈ email.toList := by
          simpa only [Bool.or_eq_true, decide_eq_true_eq, not_or, not_not] using hemail
        by_cases hname : Go.trimSpace name = ""
        · rw [if_pos hname]
          exact iff_of_true (refuse_faithful lost _ fault db) (by simp [hname])
        · rw [if_neg hname]
          refine (createPendingUser_faithful lost now id email (Go.trimSpace name) role fault db).trans ?_
          simp [hok, hname]
  | createInvite now id token u ttl => exact createInvite_faithful lost now id token u ttl fault db
  | createPendingGrant now auditID c u role by_ =>
    simp only [Command.op, Command.Strands]
    cases validRole role with
    | none => exact iff_of_true (refuse_faithful lost _ fault db) (by simp)
    | some r =>
      refine (createPendingGrant_faithful lost now auditID c u role by_ fault db).trans ?_
      simp
  | rotateRecovery now auditID u inp =>
    simp only [Command.op, Command.Strands]
    cases inp.validate with
    | error e => exact iff_of_true (refuse_faithful lost _ fault db) (by simp)
    | ok _ =>
      refine (rotateRecovery_faithful lost now auditID u inp fault db).trans ?_
      simp
  | purgeTombstones now auditID olderThan => exact purgeTombstones_faithful lost now auditID olderThan fault db
  | _ => cases ht

/-- A failed operation leaves the database as it found it, except where one of
the five has committed something and its trailing statement is the one that fails. -/
theorem failure_leaves_database_iff (m : Mutation) (fault : Fault) (db : Db) :
    m.op.Faithful lost fault db ↔ ¬ m.Strands db fault := by
  cases ht : m.trails with
  | false =>
    refine iff_of_true (mutation_atomic ht lost fault db) ?_
    cases m with
    | command c => cases c <;> first | exact id | cases ht
    | _ => exact id
  | true =>
    cases m with
    | command c => exact command_faithful lost c fault db ht
    | _ => cases ht

end

def annEnrolled : List Command := [
  .createPendingUser 0 "ann" "ann@home" "Ann" "user",
  .createInvite 0 "invite-1" "link" "ann" inviteTTL,
  .completeEnrollment 0 (newInvite 0 "invite-1" "link" "ann" inviteTTL) {
    kdfSalt := "salt", kdfParams := defaultKDFParamsJSON, authHash := .argon2id "s" "password"
    protectedUserKey := "key-under-password", publicKey := "public", encryptedPrivateKey := "private"
    recoverySalt := "recovery-salt", recoveryProtectedUserKey := "key-under-code"
    recoveryKDFParams := defaultKDFParamsJSON, recoveryAuthHash := .argon2id "s" "code" }]

/-- Ann asks for a new recovery code; the code is stored and its audit entry is not. -/
def newCode : Command := .rotateRecovery 0 "audit-1" "ann" {
  recoverySalt := "recovery-salt-2", recoveryKDFParams := defaultKDFParamsJSON
  recoveryProtectedUserKey := "key-under-code-2", recoveryAuthHash := .argon2id "s" "code-2" }

theorem audit_failure_keeps_new_code :
    ¬ ∀ (s : Server) (m : Mutation) (lost e : StoreError) (fault : Fault),
      Lts.Reachable Server.init Server.step s →
      (m.op.run lost fault s.db).1 = .error e → (m.op.run lost fault s.db).2 = s.db := by
  intro h
  have hs : Lts.Reachable Server.init Server.step (Server.fresh.script annEnrolled) :=
    Server.reachable_script (by decide)
  have hlost := h _ (.command newCode) (.internal "lost") (.internal "lost") (some 1) hs (by decide)
  have hcode := congrArg (fun db : Db => (db.users.get? "ann").map (·.recoveryAuthHash)) hlost
  revert hcode
  decide

end Keyhole.Store
