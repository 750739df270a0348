import Keyhole.Store.AccountEffect

/-!
# The last administrator

`SetUserStatus` and `DeleteUser` count the active administrators that would
be left, inside their transactions. `ResetUser` returns an account to pending
and counts nobody.
-/

namespace Keyhole.Store
open Sql

def User.isActiveAdmin (u : User) : Prop := u.role = .admin ∧ u.status = .active

def Accounts.hasAdmin (a : Accounts) : Prop := ∃ u ∈ a.users, u.isActiveAdmin

instance (u : User) : Decidable u.isActiveAdmin := inferInstanceAs (Decidable (_ ∧ _))

instance (a : Accounts) : Decidable a.hasAdmin := inferInstanceAs (Decidable (∃ u ∈ a.users.rows, _))

/-- A reset of an active administrator leaves another one. -/
def Command.SparesAdmin (db : Db) : Command → Prop
  | resetUser _ _ _ _ userID _ =>
    ∀ user ∈ db.users.get? userID, user.isActiveAdmin → remainingAdmins userID db ≠ 0
  | _ => True

instance (db : Db) : (c : Command) → Decidable (c.SparesAdmin db)
  | .resetUser .. => inferInstanceAs (Decidable (∀ user ∈ _, _))
  | .createItem .. | .createItemsBulk .. | .updateItem .. | .deleteItem .. | .createFolder .. | .updateFolder ..
  | .deleteFolder .. | .createCollection .. | .deleteCollection .. | .fulfilGrantOrAdd .. | .removeMember ..
  | .createPendingGrant .. | .fulfilGrant .. | .setUserStatus .. | .deleteUser .. | .purgeTombstones ..
  | .createPendingUser .. | .createInvite .. | .completeEnrollment .. | .createSession .. | .rotateSession ..
  | .touchSession .. | .revokeSession .. | .revokeSessionForUser .. | .rotatePassword .. | .rotateRecovery ..
  | .createRecoveryToken .. | .completeRecovery .. => inferInstanceAs (Decidable True)

variable {db : Db} {c : Command} {m : Option Mark} {a : Accounts}

theorem other_admin {userID : Id} (h : remainingAdmins userID db ≠ 0) :
    ∃ u ∈ db.users, u.isActiveAdmin ∧ u.id ≠ userID := by
  unfold remainingAdmins at h
  rw [Ne, Table.count_eq_zero] at h
  simp only [not_forall, Bool.not_eq_false, Bool.and_eq_true, decide_eq_true_eq] at h
  obtain ⟨u, hu, ⟨hrole, hstatus⟩, hne⟩ := h
  exact ⟨u, hu, ⟨hrole, hstatus⟩, hne⟩

theorem admin_upsert {k : Id} {u u' : User} (hu : db.users.get? k = some u) (hid : u'.id = u.id)
    (hk : u.isActiveAdmin → u'.isActiveAdmin ∨ remainingAdmins k db ≠ 0) (h : db.hasAdmin) :
    ∃ x ∈ db.users.upsert u', x.isActiveAdmin := by
  obtain ⟨hmem, hkey⟩ := Table.get?_eq_some.mp hu
  have hkeep : ∀ x ∈ db.users, x.isActiveAdmin → x.id ≠ k →
    ∃ x ∈ db.users.upsert u', x.isActiveAdmin := by
    intro x hx hadmin hne
    refine ⟨x, Table.mem_upsert.mpr (Or.inl ⟨hx, ?_⟩), hadmin⟩
    rw [hid, hkey]
    exact hne
  obtain ⟨x, hx, hadmin⟩ := h
  by_cases hxk : x.id = k
  · have hxu : x = u := Table.eq_of_key hx hmem (hxk.trans hkey.symm)
    subst hxu
    rcases hk hadmin with hadmin' | hothers
    · exact ⟨u', Table.mem_upsert.mpr (Or.inr rfl), hadmin'⟩
    · obtain ⟨y, hy, hya, hyne⟩ := other_admin hothers
      exact hkeep y hy hya hyne
  · exact hkeep x hx hadmin hxk

theorem deletable_spares {userID actorID : Id} (h : deletable userID actorID db = true) {u : User}
    (hu : db.users.get? userID = some u) (hrole : u.role = .admin) : remainingAdmins userID db ≠ 0 := by
  unfold deletable at h
  simp only [hu, hrole, Bool.and_eq_true, Option.any_some, decide_true, Bool.true_and, Bool.not_eq_true',
    decide_eq_false_iff_not] at h
  exact h.1.1

theorem AccountEffect.hasAdmin (h : AccountEffect db c m a) (hs : c.SparesAdmin db) (ha : db.hasAdmin) :
    a.hasAdmin := by
  cases h with
  | userCreated row hid hst hi =>
    obtain ⟨x, hx, hadmin⟩ := ha
    exact ⟨x, (Table.mem_insert? hi).mpr (Or.inl hx), hadmin⟩
  | enrolled hi hused hu hst =>
    refine admin_upsert hu rfl ?_ ha
    intro hadmin
    exact Or.inl ⟨hadmin.1, rfl⟩
  | passwordRotated hu hst => exact admin_upsert hu rfl (fun hadmin => Or.inl hadmin) ha
  | recoveryRotated hu hst => exact admin_upsert hu rfl (fun hadmin => Or.inl hadmin) ha
  | recovered ht hused hu hst => exact admin_upsert hu rfl (fun hadmin => Or.inl hadmin) ha
  | enabled hu => exact admin_upsert hu rfl (fun hadmin => Or.inl ⟨hadmin.1, rfl⟩) ha
  | disabled hu hothers => exact admin_upsert hu rfl (fun hadmin => Or.inr (hothers hadmin.1)) ha
  | reset hu hi => exact admin_upsert hu rfl (fun hadmin => Or.inr (hs _ hu hadmin)) ha
  | @userDeleted now auditID userID actorID hd =>
    obtain ⟨x, hx, hadmin⟩ := ha
    by_cases hxu : x.id = userID
    · have hothers := deletable_spares hd (Table.get?_eq_some.mpr ⟨hx, hxu⟩) hadmin.1
      obtain ⟨y, hy, hya, hyne⟩ := other_admin hothers
      exact ⟨y, Table.mem_delete.mpr ⟨hy, by simpa using hyne⟩, hya⟩
    · exact ⟨x, Table.mem_delete.mpr ⟨hx, by simpa using hxu⟩, hadmin⟩
  | _ => exact ha

/-- From any state with an active administrator, every state reached has one,
as long as the only one is not reset. -/
theorem last_admin_survives {s t : Server} {cs : List Command} (hs : s.db.hasAdmin)
    (h : Lts.Run (Lts.Guarded Server.step fun s c => c.SparesAdmin s.db) s cs t) : t.db.hasAdmin := by
  refine h.inv (P := fun s => s.db.hasAdmin) ?_ hs
  intro s c s' hstep ha
  obtain ⟨⟨-, rfl⟩, hspares⟩ := hstep
  exact (account_effect c s.db).hasAdmin hspares ha

def annAndBob : Server := Server.fresh.script (enrolls "ann" "admin" ++ enrolls "bob" "admin")

/-- Ann disables bob, who deletes her at the same moment: the second of the two is refused. -/
theorem last_admin_survives_race : (annAndBob.script [
    .setUserStatus 0 "audit-1" "bob" "disabled" "ann", .deleteUser 0 "audit-2" "ann" "bob"]).db.hasAdmin :=
  last_admin_survives (s := annAndBob) (by decide) (Lts.run_guarded_script (by decide))

def annAlone : Server := Server.fresh.script (enrolls "ann" "admin")

def annResetsHerself : Command := .resetUser 0 "invite-2" "audit-1" "link-2" "ann" "ann"

theorem reset_takes_last_admin :
    ¬ ∀ s t cs, Lts.Reachable Server.init Server.step s → s.db.hasAdmin → Lts.Run Server.step s cs t →
      t.db.hasAdmin := by
  intro h
  have hs : Lts.Reachable Server.init Server.step annAlone := Server.reachable_script (by decide)
  have hrun : Lts.Run Server.step annAlone [annResetsHerself] (annAlone.after annResetsHerself) :=
    .cons ⟨by decide, rfl⟩ (.nil _)
  obtain ⟨u, hu, hadmin⟩ := h _ _ _ hs (by decide) hrun
  have hnone : ∀ u ∈ (annAlone.after annResetsHerself).db.users, ¬ u.isActiveAdmin := by decide
  exact hnone u hu hadmin

end Keyhole.Store
