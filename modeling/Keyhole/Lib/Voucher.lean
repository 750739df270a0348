import Mathlib.Data.List.Nodup

/-!
# Histories and vouchers

What a log has held since some point of it; vouchers that are redeemed at
most once; vouchers a later event supersedes.
-/

namespace History

variable {α : Type} {log new : List α} {n : Nat} {p : α → Bool}

/-- An entry that satisfies `p` stands in the log at `n` or after it. -/
def since (log : List α) (n : Nat) (p : α → Bool) : Bool := (log.drop n).any p

theorem since_length : since log log.length p = false := by
  simp [since]

theorem since_append (h : since (log ++ new) n p = true) : since log n p = true ∨ new.any p = true := by
  unfold since at h ⊢
  rw [List.drop_append, List.any_append, Bool.or_eq_true] at h
  rcases h with h | h
  · exact Or.inl h
  · right
    rw [List.any_eq_true] at h ⊢
    obtain ⟨x, hx, hp⟩ := h
    exact ⟨x, List.mem_of_mem_drop hx, hp⟩

theorem not_since_append (h : since log n p = false) (hnew : ∀ x ∈ new, p x = false) :
    since (log ++ new) n p = false := by
  by_contra hs
  rw [Bool.not_eq_false] at hs
  rcases since_append hs with hs | hs
  · simp [h] at hs
  · obtain ⟨x, hx, hp⟩ := List.any_eq_true.mp hs
    simp [hnew x hx] at hp

theorem since_append_left (h : since log n p = true) : since (log ++ new) n p = true := by
  unfold since at h ⊢
  rw [List.drop_append, List.any_append, h, Bool.true_or]

theorem since_append_right (hn : n ≤ log.length) (h : new.any p = true) : since (log ++ new) n p = true := by
  unfold since
  rw [List.drop_append_of_le_length hn, List.any_append, h, Bool.or_true]

end History

/-! ## Single use -/

/-- What has been redeemed was redeemed once and is dead; a live voucher and a
redeemed one have both been issued. -/
structure SingleUse {κ : Type} (live : κ → Prop) (redeemed issued : List κ) : Prop where
  nodup : redeemed.Nodup
  dead : ∀ k ∈ redeemed, ¬ live k
  known : ∀ k, live k ∨ k ∈ redeemed → k ∈ issued

namespace SingleUse

variable {κ : Type} {live live' : κ → Prop} {redeemed issued drawn : List κ}

theorem keep (h : SingleUse live redeemed issued) (hd : ∀ k ∈ drawn, k ∉ issued)
    (hl : ∀ k, live' k → live k ∨ k ∈ drawn) : SingleUse live' redeemed (drawn ++ issued) := by
  refine ⟨h.nodup, ?_, ?_⟩
  · intro k hk hk'
    rcases hl k hk' with hlive | hnew
    · exact h.dead k hk hlive
    · exact hd k hnew (h.known k (Or.inr hk))
  · intro k hk
    rw [List.mem_append]
    rcases hk with hk | hk
    · rcases hl k hk with hlive | hnew
      · exact Or.inr (h.known k (Or.inl hlive))
      · exact Or.inl hnew
    · exact Or.inr (h.known k (Or.inr hk))

theorem redeem (h : SingleUse live redeemed issued) (hd : ∀ k ∈ drawn, k ∉ issued)
    (hl : ∀ k, live' k → live k ∨ k ∈ drawn) {k : κ} (hk : live k) (hk' : ¬ live' k) :
    SingleUse live' (redeemed ++ [k]) (drawn ++ issued) := by
  have hkeep := h.keep hd hl
  refine ⟨?_, ?_, ?_⟩
  · rw [List.nodup_append]
    refine ⟨h.nodup, by simp, ?_⟩
    intro x hx y hy hxy
    rw [List.mem_singleton] at hy
    exact h.dead x hx (by rw [hxy, hy]; exact hk)
  · intro x hx
    rcases List.mem_append.mp hx with hx | hx
    · exact hkeep.dead x hx
    · rw [List.mem_singleton.mp hx]
      exact hk'
  · intro x hx
    rcases hx with hx | hx
    · exact hkeep.known x (Or.inl hx)
    · rcases List.mem_append.mp hx with hx | hx
      · exact hkeep.known x (Or.inr hx)
      · rw [List.mem_singleton.mp hx, List.mem_append]
        exact Or.inr (h.known k (Or.inl hk))

theorem log {μ : Type} {p : μ → Option κ} {log : List μ} {m : Option μ}
    (h : SingleUse live (log.filterMap p) issued) (hd : ∀ k ∈ drawn, k ∉ issued)
    (hl : ∀ k, live' k → live k ∨ k ∈ drawn) (hm : ∀ k, m.bind p = some k → live k ∧ ¬ live' k) :
    SingleUse live' ((log ++ m.toList).filterMap p) (drawn ++ issued) := by
  cases m with
  | none =>
    rw [Option.toList_none, List.append_nil]
    exact h.keep hd hl
  | some x =>
    rw [Option.toList_some, List.filterMap_append]
    cases hx : p x with
    | none =>
      rw [List.filterMap_cons_none hx, List.filterMap_nil, List.append_nil]
      exact h.keep hd hl
    | some k =>
      rw [List.filterMap_cons_some hx, List.filterMap_nil]
      exact h.redeem hd hl (hm k hx).1 (hm k hx).2

end SingleUse

/-! ## Superseded vouchers -/

/-- A voucher that is live and stale has expired, and nobody has looked it up. -/
def Retired {ρ : Type} (expires : ρ → Nat) (live stale held : ρ → Prop) (clock : Nat) : Prop :=
  ∀ r, live r → stale r → expires r < clock ∧ ¬ held r

/-- Time goes on, nothing is issued stale, what goes stale is retired with it,
and only what has not expired is looked up. -/
theorem Retired.step {ρ : Type} {expires : ρ → Nat} {live stale held live' stale' held' : ρ → Prop}
    {clock clock' : Nat} (h : Retired expires live stale held clock) (hc : clock ≤ clock')
    (hl : ∀ r, live' r → stale' r → live r)
    (hs : ∀ r, live r → live' r → stale' r → stale r ∨ (expires r < clock' ∧ ¬ held' r))
    (hh : ∀ r, live r → held' r → held r ∨ clock' ≤ expires r) :
    Retired expires live' stale' held' clock' := by
  intro r hr hst
  have hlive := hl r hr hst
  rcases hs r hlive hr hst with hold | hnew
  · obtain ⟨hexp, hheld⟩ := h r hlive hold
    refine ⟨by omega, ?_⟩
    intro hr'
    rcases hh r hlive hr' with hr' | hr'
    · exact hheld hr'
    · omega
  · exact hnew

/-- What is held is the one live voucher of its key. -/
def Pinned {κ ρ : Type} (key : ρ → κ) (live held : ρ → Prop) (issued : List κ) : Prop :=
  ∀ r, held r → key r ∈ issued ∧ ∀ r', live r' → key r' = key r → r' = r

theorem Pinned.step {κ ρ : Type} {key : ρ → κ} {live held live' held' : ρ → Prop} {issued issued' : List κ}
    (h : Pinned key live held issued) (hi : ∀ k ∈ issued, k ∈ issued')
    (hk : ∀ r r', live r → live r' → key r' = key r → r' = r) (hlive : ∀ r, live r → key r ∈ issued)
    (hl : ∀ r, live' r → live r ∨ key r ∉ issued) (hh : ∀ r, held' r → held r ∨ live r) :
    Pinned key live' held' issued' := by
  intro r hr
  have hold : key r ∈ issued ∧ ∀ r', live r' → key r' = key r → r' = r := by
    rcases hh r hr with hr | hr
    · exact h r hr
    · exact ⟨hlive r hr, fun r' => hk r r' hr⟩
  refine ⟨hi _ hold.1, ?_⟩
  intro r' hr' hkey
  rcases hl r' hr' with hr' | hfresh
  · exact hold.2 r' hr' hkey
  · exact absurd hold.1 (hkey ▸ hfresh)
