import Keyhole.Store.AccountEffect

/-!
# Where keys are handed on

The server holds the public keys that collection keys are sealed to and the
sealed keys themselves. A commit writes of either what it was sent, on the row
it was sent for, or takes rows away.
-/

namespace Keyhole.Store
open Sql Prog

structure DirectoryEntry where
  id : Id
  name : String
  email : String
  publicKey : String
  deriving DecidableEq, Repr

/-- Of the active accounts those with a public key, by name. -/
def Accounts.directory (a : Accounts) : List DirectoryEntry :=
  (a.users.rows.filterMap fun user =>
    if user.status = .active then
      user.publicKey.map fun publicKey => ⟨user.id, user.name, user.email, publicKey⟩
    else none).insertionSort fun x y => x.name ≤ y.name

/-- Some row of the account has this public key. -/
def Keyed (users : Table User.id) (id : Id) (publicKey : String) : Prop :=
  ∃ user ∈ users, user.id = id ∧ user.publicKey = some publicKey

instance (users : Table User.id) (id : Id) (publicKey : String) : Decidable (Keyed users id publicKey) :=
  inferInstanceAs (Decidable (∃ user ∈ users.rows, _))

theorem keyed_of_directory {a : Accounts} {entry : DirectoryEntry} (h : entry ∈ a.directory) :
    Keyed a.users entry.id entry.publicKey := by
  unfold Accounts.directory at h
  rw [List.mem_insertionSort, List.mem_filterMap] at h
  obtain ⟨user, hu, h⟩ := h
  split at h
  · obtain ⟨publicKey, hp, rfl⟩ := Option.map_eq_some_iff.mp h
    exact ⟨user, hu, rfl, hp⟩
  · cases h

/-! ## Sealed keys -/

def Membership.handed (m : Membership) : Id × Id × String := (m.collectionID, m.userID, m.sealedCollectionKey)

/-- The sealed key a command brings, and the membership it is for. -/
def Command.hands : Command → Option (Id × Id × String)
  | createCollection _ id _ _ createdBy sealedKey => some (id, createdBy, sealedKey)
  | fulfilGrantOrAdd _ _ collectionID userID sealedKey _ _ => some (collectionID, userID, sealedKey)
  | fulfilGrant _ _ collectionID userID sealedKey _ => some (collectionID, userID, sealedKey)
  | _ => none

/-- Every membership of the second was in the first, or is the one that was handed in. -/
def Hands (handed : Id × Id × String) (a b : Db) : Prop :=
  ∀ m ∈ b.memberships, m ∈ a.memberships ∨ m.handed = handed

section
variable {handed : Id × Id × String} {now : Time}

theorem Hands.refl (a : Db) : Hands handed a a := fun _ hm => .inl hm

theorem Hands.trans (a b c : Db) (hab : Hands handed a b) (hbc : Hands handed b c) : Hands handed a c := by
  intro m hm
  rcases hbc m hm with hm | he
  · exact hab m hm
  · exact .inr he

theorem Hands.of_eq {a b : Db} (h : b.memberships = a.memberships) : Hands handed a b := by
  intro m hm
  rw [h] at hm
  exact .inl hm

theorem appendAudit_hands (id : Id) (actor action target : String) (md : List (String × String)) :
    (appendAudit id now actor action target md).Keeps (Hands handed) :=
  (appendAudit_keeps (List.mem_singleton_self id) actor action target md).mono fun _ _ h =>
    .of_eq (congrArg Vault.memberships h.vault)

theorem nextRevision_hands : nextRevision.Keeps (Hands handed) :=
  keeps_bind (keeps_write fun _ => .of_eq rfl) fun _ => keeps_query Hands.refl _

theorem createCollectionTx_hands (id auditID : Id) (name : String) (createdBy : Id) (sealedKey : String) :
    (createCollectionTx now id auditID name createdBy sealedKey).Keeps (Hands (id, createdBy, sealedKey)) := by
  refine keeps_bind (keeps_sql fun db u db' h => ?_) fun _ => keeps_bind nextRevision_hands fun n => ?_
  · obtain ⟨collections, -, -, rfl⟩ := insertCollection_ok h
    exact .of_eq rfl
  · refine keeps_bind (keeps_sql fun db u db' h => ?_) fun _ => ?_
    · obtain ⟨memberships, hi, -, rfl⟩ := insertMembership_ok h
      intro m hm
      rcases (Table.mem_insert? hi).mp hm with hm | rfl
      · exact .inl hm
      · exact .inr rfl
    · exact keeps_bind (appendAudit_hands _ _ _ _ _) fun _ => keeps_pure _

theorem addMemberTx_hands (auditID collectionID userID : Id) (sealedKey : String) (role : MemberRole) (by_ : Id) :
    (addMemberTx now auditID collectionID userID sealedKey role by_).Keeps
      (Hands (collectionID, userID, sealedKey)) := by
  refine keeps_bind nextRevision_hands fun n => keeps_bind (keeps_sql fun db u db' h => ?_) fun _ =>
    appendAudit_hands _ _ _ _ _
  unfold upsertMembership at h
  split at h
  · cases h
    intro m hm
    rcases Table.mem_upsert.mp hm with ⟨hm, -⟩ | rfl
    · exact .inl hm
    · exact .inr rfl
  · cases h

theorem fulfilGrantTx_hands (auditID collectionID userID : Id) (sealedKey : String) (by_ : Id) :
    (fulfilGrantTx now auditID collectionID userID sealedKey by_).Keeps
      (Hands (collectionID, userID, sealedKey)) := by
  refine keeps_bind (keeps_query Hands.refl _) fun found => ?_
  cases found with
  | none => exact keeps_fail _
  | some grant =>
    simp only
    split
    · exact keeps_fail _
    · exact keeps_bind (addMemberTx_hands _ _ _ _ _ _) fun _ => keeps_write fun _ => .of_eq rfl

variable (db : Db)

theorem createCollection_hands (id auditID : Id) (name : String) (createdBy : Id) (sealedKey : String) :
    Hands (id, createdBy, sealedKey) db (createCollection now id auditID name createdBy sealedKey db).2 := by
  unfold createCollection
  split
  · exact Hands.refl db
  · split
    · exact Hands.refl db
    · exact transact_keeps Hands.refl Hands.trans (createCollectionTx_hands _ _ _ _ _) db

theorem createCollection_failed {id auditID : Id} {name : String} {createdBy : Id} {sealedKey : String} {db : Db}
    (h : ¬(createCollection now id auditID name createdBy sealedKey db).1.isOk = true) :
    (createCollection now id auditID name createdBy sealedKey db).2 = db := by
  cases hres : createCollection now id auditID name createdBy sealedKey db with
  | mk r db' =>
    cases r with
    | ok row =>
      rw [hres] at h
      exact absurd rfl h
    | error e => exact createCollection_error hres

theorem fulfilGrantOrAdd_hands (auditID collectionID userID : Id) (sealedKey role : String) (by_ : Id) :
    Hands (collectionID, userID, sealedKey) db
      (fulfilGrantOrAdd now auditID collectionID userID sealedKey role by_ db).2 := by
  unfold fulfilGrantOrAdd
  split
  · exact Hands.refl db
  · split
    · exact Hands.refl db
    · exact transact_keeps Hands.refl Hands.trans (addMemberTx_hands _ _ _ _ _ _) db

theorem fulfilGrant_hands (auditID collectionID userID : Id) (sealedKey : String) (by_ : Id) :
    Hands (collectionID, userID, sealedKey) db
      (fulfilGrant now auditID collectionID userID sealedKey by_ db).2 := by
  unfold fulfilGrant
  split
  · exact Hands.refl db
  · exact transact_keeps Hands.refl Hands.trans (fulfilGrantTx_hands _ _ _ _ _) db

end

theorem memberships_of_effect {db : Db} {c : Command} {v : Vault} (h : Effect db c v) (hc : c.hands = none) :
    ∀ m ∈ v.memberships, m ∈ db.memberships := by
  intro m hm
  cases h with
  | still | itemUpdated | itemDeleted | folderCreated | folderUpdated | folderDeleted | purged => exact hm
  | created new hv =>
    rw [hv] at hm
    exact hm
  | collectionCreated => cases hc
  | collectionDeleted | memberRemoved | reset | userDeleted => exact (Table.mem_delete.mp hm).1
  | memberAdded row hr ha =>
    cases c with
    | fulfilGrantOrAdd | fulfilGrant => cases hc
    | _ => exact ha.elim

theorem membership_after (c : Command) (db : Db) :
    ∀ m ∈ (c.run db).memberships, m ∈ db.memberships ∨ c.hands = some m.handed := by
  intro m hm
  cases hc : c.hands with
  | none => exact .inl (memberships_of_effect (command_effect c db) hc m hm)
  | some handed =>
    have hands : Hands handed db (c.run db) := by
      cases c with
      | createCollection => cases hc; exact createCollection_hands db _ _ _ _ _
      | fulfilGrantOrAdd => cases hc; exact fulfilGrantOrAdd_hands db _ _ _ _ _ _
      | fulfilGrant => cases hc; exact fulfilGrant_hands db _ _ _ _ _
      | _ => cases hc
    rcases hands m hm with hm | he
    · exact .inl hm
    · exact .inr (he ▸ rfl)

theorem mem_collectionsForUser {v : Vault} {userID : Id} {row : CollectionWithMembership}
    (h : row ∈ v.collectionsForUser userID) :
    ∃ m ∈ v.memberships, m.userID = userID ∧ m.collectionID = row.id ∧
      m.sealedCollectionKey = row.sealedCollectionKey := by
  unfold Vault.collectionsForUser at h
  rw [List.mem_insertionSort, List.mem_filterMap] at h
  obtain ⟨m, hm, h⟩ := h
  split at h
  · rename_i hu
    obtain ⟨c, hc, rfl⟩ := Option.map_eq_some_iff.mp h
    exact ⟨m, hm, hu, (Table.get?_eq_some.mp hc).2.symm, rfl⟩
  · cases h

/-! ## Public keys -/

theorem createPendingUser_keyless (now : Time) (id : Id) (email name role : String) (db : Db) :
    ∀ user ∈ (createPendingUser now id email name role db).2.users, user ∈ db.users ∨
      user.publicKey = none := by
  intro user hu
  have kept : ∀ row : User, row.publicKey = none →
      (do sql classifyUserInsertError (insertUser row); return row : Txn User).Keeps fun a b =>
        ∀ user ∈ b.users, user ∈ a.users ∨ user.publicKey = none := by
    intro row hrow
    refine keeps_bind (keeps_sql fun db u db' h => ?_) fun _ => keeps_pure _
    unfold insertUser at h
    split at h
    · cases h
    · split at h
      · cases h
      · rename_i users hi
        cases h
        intro user hu
        rcases (Table.mem_insert? hi).mp hu with hu | rfl
        · exact .inl hu
        · exact .inr hrow
  unfold createPendingUser at hu
  split at hu
  · exact .inl hu
  · split at hu
    · exact .inl hu
    · split at hu
      · exact .inl hu
      · refine autocommit_keeps (fun _ _ hu => .inl hu) ?_ (kept _ rfl) db user hu
        intro a b c hab hbc user hu
        rcases hbc user hu with hu | hn
        · exact hab user hu
        · exact .inr hn

section
variable {db : Db} {c : Command} {user : User} {publicKey : String}

theorem keyed_of_upsert {u u' : User} (hin : db.users.get? u.id = some u) (hid : u'.id = u.id)
    (hkey : u'.publicKey = some publicKey → u.publicKey = some publicKey) (hu : user ∈ db.users.upsert u')
    (hp : user.publicKey = some publicKey) : Keyed db.users user.id publicKey := by
  rcases Table.mem_upsert.mp hu with ⟨hu, -⟩ | rfl
  · exact ⟨user, hu, rfl, hp⟩
  · exact ⟨u, (Table.get?_eq_some.mp hin).1, hid.symm, hkey hp⟩

theorem get?_self {id : Id} {u : User} (h : db.users.get? id = some u) : db.users.get? u.id = some u := by
  rwa [(Table.get?_eq_some.mp h).2]

theorem publicKey_of_effect {mark : Option Mark} {a : Accounts} (h : AccountEffect db c mark a)
    (hc : ∀ now id email name role, c ≠ .createPendingUser now id email name role) (hu : user ∈ a.users)
    (hp : user.publicKey = some publicKey) : Keyed db.users user.id publicKey ∨
      ∃ now invite inp, c = .completeEnrollment now invite inp ∧ user.id = invite.userID ∧
        inp.publicKey = publicKey ∧ mark = some (.enrolled invite.userID invite.id) := by
  cases h with
  | still | inviteCreated | sessionCreated | sessionRotated | sessionTouched | sessionsRevoked | tokenCreated =>
    exact .inl ⟨user, hu, rfl, hp⟩
  | userCreated => exact absurd rfl (hc _ _ _ _ _)
  | @enrolled now invite inv inp u hi hused hget hs =>
    rcases Table.mem_upsert.mp hu with ⟨hu, -⟩ | rfl
    · exact .inl ⟨user, hu, rfl, hp⟩
    · exact .inr ⟨now, invite, inp, rfl, (Table.get?_eq_some.mp hget).2, Option.some.inj hp, rfl⟩
  | passwordRotated hget | recoveryRotated hget | recovered _ _ hget | enabled hget | disabled hget =>
    refine .inl (keyed_of_upsert (get?_self hget) ?_ ?_ hu hp)
    · rfl
    · exact id
  | reset hget =>
    refine .inl (keyed_of_upsert (get?_self hget) ?_ ?_ hu hp)
    · rfl
    · intro h
      cases h
  | userDeleted => exact .inl ⟨user, (Table.mem_delete.mp hu).1, rfl, hp⟩

/-- Only an enrollment gives an account a public key. -/
theorem publicKey_after (c : Command) (db : Db) (hu : user ∈ (c.run db).users)
    (hp : user.publicKey = some publicKey) :
    Keyed db.users user.id publicKey ∨
      ∃ now invite inp, c = .completeEnrollment now invite inp ∧ user.id = invite.userID ∧
        inp.publicKey = publicKey ∧ c.mark db = some (.enrolled invite.userID invite.id) := by
  by_cases hc : ∀ now id email name role, c ≠ .createPendingUser now id email name role
  · exact publicKey_of_effect (account_effect c db) hc hu hp
  · push Not at hc
    obtain ⟨now, id, email, name, role, rfl⟩ := hc
    rcases createPendingUser_keyless now id email name role db user hu with hu | hn
    · exact .inl ⟨user, hu, rfl, hp⟩
    · rw [hn] at hp
      cases hp

end

end Keyhole.Store
