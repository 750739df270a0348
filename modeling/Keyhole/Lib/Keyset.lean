import Mathlib.Data.List.Sort

/-!
# Paging by key

Pages of a growing collection, from the last key down. The cursor of a page
is the key of the last row of the page before it, so what is added between
two calls moves no row that was there already.
-/

namespace Keyset

variable {ρ κ : Type} [LinearOrder κ] (key : ρ → κ)

/-- The rows below the cursor, from the last key down, no more than `limit`. -/
def page (limit : Nat) (cursor : Option κ) (rows : List ρ) : List ρ :=
  ((rows.filter fun r => cursor.all (key r < ·)).insertionSort fun r s => key s ≤ key r).take limit

/-- The pages of successive calls, each with its limit and the rows it finds, up to an empty one. -/
def walk : List (Nat × List ρ) → Option κ → List (List ρ)
  | [], _ => []
  | (limit, rows) :: calls, cursor =>
    page key limit cursor rows ::
      match (page key limit cursor rows).getLast? with
      | none => []
      | some last => walk calls (some (key last))

/-! ## One page -/

variable {key} {limit : Nat} {cursor : Option κ} {rows : List ρ}

theorem mem_of_mem_page {r : ρ} (h : r ∈ page key limit cursor rows) :
    r ∈ rows ∧ ∀ k ∈ cursor, key r < k := by
  have hs := List.mem_of_mem_take h
  rw [List.mem_insertionSort, List.mem_filter] at hs
  refine ⟨hs.1, fun k hk => ?_⟩
  rw [Option.mem_def.mp hk] at hs
  simpa using hs.2

theorem sorted_desc (hn : (rows.map key).Nodup) (p : ρ → Bool) :
    ((rows.filter p).insertionSort fun r s => key s ≤ key r).Pairwise fun r s => key s < key r := by
  have hle : ((rows.filter p).insertionSort fun r s => key s ≤ key r).Pairwise fun r s => key s ≤ key r := by
    have : Std.Total fun r s : ρ => key s ≤ key r := ⟨fun r s => le_total (key s) (key r)⟩
    have : IsTrans ρ fun r s : ρ => key s ≤ key r := ⟨fun _ _ _ h₁ h₂ => le_trans h₂ h₁⟩
    exact List.pairwise_insertionSort _ _
  have hne : ((rows.filter p).insertionSort fun r s => key s ≤ key r).Pairwise fun r s => key r ≠ key s := by
    rw [← List.pairwise_map (f := key) (R := fun k l => k ≠ l)]
    exact ((List.perm_insertionSort _ (rows.filter p)).map key).nodup_iff.mpr
      (hn.sublist (List.filter_sublist.map key))
  exact (hle.and hne).imp fun h => lt_of_le_of_ne h.1 (Ne.symm h.2)

theorem page_desc (hn : (rows.map key).Nodup) (limit : Nat) (cursor : Option κ) :
    (page key limit cursor rows).Pairwise fun r s => key s < key r :=
  (sorted_desc hn _).sublist (List.take_sublist limit _)

theorem mem_page_or_below (hn : (rows.map key).Nodup) (hl : 0 < limit) {r : ρ} (hr : r ∈ rows)
    (hc : ∀ k ∈ cursor, key r < k) :
    r ∈ page key limit cursor rows ∨ ∃ last ∈ (page key limit cursor rows).getLast?, key r < key last := by
  have hs : r ∈ (rows.filter fun r => cursor.all (key r < ·)).insertionSort fun r s => key s ≤ key r := by
    rw [List.mem_insertionSort, List.mem_filter]
    refine ⟨hr, ?_⟩
    cases cursor with
    | none => rfl
    | some k => simpa using hc k rfl
  have hd := sorted_desc hn fun r => cursor.all (key r < ·)
  unfold page
  generalize (rows.filter fun r => cursor.all (key r < ·)).insertionSort (fun r s => key s ≤ key r) = l at hs hd
  rw [← List.take_append_drop limit l] at hs hd
  rcases List.mem_append.mp hs with hs | hs
  · exact .inl hs
  · right
    cases hlast : (l.take limit).getLast? with
    | none =>
      have hnil : l.take limit = [] := List.getLast?_eq_none_iff.mp hlast
      rcases List.take_eq_nil_iff.mp hnil with h | h
      · omega
      · rw [h] at hs
        simp at hs
    | some last => exact ⟨last, rfl, (List.pairwise_append.mp hd).2.2 last (List.mem_of_getLast? hlast) r hs⟩

/-! ## Any number of pages -/

theorem walk_below {calls : List (Nat × List ρ)} {r : ρ} (h : r ∈ (walk key calls cursor).flatten) :
    ∀ k ∈ cursor, key r < k := by
  induction calls generalizing cursor with
  | nil => simp [walk] at h
  | cons c calls ih =>
    rw [walk, List.flatten_cons, List.mem_append] at h
    rcases h with h | h
    · exact (mem_of_mem_page h).2
    · cases hlast : (page key c.1 cursor c.2).getLast? with
      | none =>
        rw [hlast] at h
        cases h
      | some last =>
        rw [hlast] at h
        intro k hk
        exact lt_trans (ih h _ rfl) ((mem_of_mem_page (List.mem_of_getLast? hlast)).2 k hk)

theorem walk_desc {calls : List (Nat × List ρ)} (hn : ∀ c ∈ calls, (c.2.map key).Nodup) (cursor : Option κ) :
    (walk key calls cursor).flatten.Pairwise fun r s => key s < key r := by
  induction calls generalizing cursor with
  | nil => exact .nil
  | cons c calls ih =>
    have hd := page_desc (hn c List.mem_cons_self) c.1 cursor
    rw [walk, List.flatten_cons, List.pairwise_append]
    cases hlast : (page key c.1 cursor c.2).getLast? with
    | none => exact ⟨hd, .nil, fun _ _ _ hs => nomatch hs⟩
    | some last =>
      refine ⟨hd, ih (fun d hd => hn d (List.mem_cons_of_mem _ hd)) _, fun r hr s hs => ?_⟩
      have hle : key last ≤ key r := by
        obtain ⟨init, hinit⟩ := List.getLast?_eq_some_iff.mp hlast
        rw [hinit] at hr hd
        rcases List.mem_append.mp hr with hr | hr
        · exact le_of_lt ((List.pairwise_append.mp hd).2.2 r hr last (by simp))
        · rw [List.mem_singleton.mp hr]
      exact lt_of_lt_of_le (walk_below hs _ rfl) hle

theorem walk_mem {calls : List (Nat × List ρ)} {r : ρ} (h : r ∈ (walk key calls cursor).flatten) :
    ∃ c ∈ calls, r ∈ c.2 := by
  induction calls generalizing cursor with
  | nil => simp [walk] at h
  | cons c calls ih =>
    rw [walk, List.flatten_cons, List.mem_append] at h
    rcases h with h | h
    · exact ⟨c, List.mem_cons_self, (mem_of_mem_page h).1⟩
    · cases hlast : (page key c.1 cursor c.2).getLast? with
      | none =>
        rw [hlast] at h
        cases h
      | some last =>
        rw [hlast] at h
        obtain ⟨d, hd, hr⟩ := ih h
        exact ⟨d, List.mem_cons_of_mem _ hd, hr⟩

/-- A row that every call finds has been returned once a page comes back empty. -/
theorem walk_complete {calls : List (Nat × List ρ)} (hn : ∀ c ∈ calls, (c.2.map key).Nodup)
    (hl : ∀ c ∈ calls, 0 < c.1) {r : ρ} (hr : ∀ c ∈ calls, r ∈ c.2) (hend : [] ∈ walk key calls cursor)
    (hc : ∀ k ∈ cursor, key r < k) : r ∈ (walk key calls cursor).flatten := by
  induction calls generalizing cursor with
  | nil => simp [walk] at hend
  | cons c calls ih =>
    have hhead : c ∈ c :: calls := List.mem_cons_self
    have hor := mem_page_or_below (hn c hhead) (hl c hhead) (hr c hhead) hc
    rw [walk] at hend ⊢
    rw [List.flatten_cons, List.mem_append]
    rcases hor with hor | ⟨last, hlast, hlt⟩
    · exact .inl hor
    · right
      rw [Option.mem_def.mp hlast] at hend ⊢
      rcases List.mem_cons.mp hend with hnil | hend
      · rw [← hnil] at hlast
        cases hlast
      · exact ih (fun d hd => hn d (List.mem_cons_of_mem _ hd)) (fun d hd => hl d (List.mem_cons_of_mem _ hd))
          (fun d hd => hr d (List.mem_cons_of_mem _ hd)) hend fun k hk => Option.mem_some_iff.mp hk ▸ hlt

theorem length_le_walk {calls : List (Nat × List ρ)} (h : [] ∉ walk key calls cursor) :
    calls.length ≤ (walk key calls cursor).flatten.length := by
  induction calls generalizing cursor with
  | nil => exact Nat.zero_le _
  | cons c calls ih =>
    rw [walk] at h ⊢
    rw [List.mem_cons, not_or] at h
    rw [List.flatten_cons, List.length_append, List.length_cons]
    have hne : page key c.1 cursor c.2 ≠ [] := Ne.symm h.1
    have hpos := List.length_pos_iff.mpr hne
    cases hlast : (page key c.1 cursor c.2).getLast? with
    | none => exact absurd (List.getLast?_eq_none_iff.mp hlast) hne
    | some last =>
      rw [hlast] at h
      have := ih h.2
      simp only at this ⊢
      omega

/-- More calls than there are rows reach an empty page. -/
theorem walk_ends {calls : List (Nat × List ρ)} (hn : ∀ c ∈ calls, (c.2.map key).Nodup)
    (all : List ρ) (hall : ∀ c ∈ calls, c.2 ⊆ all) (hlen : all.length < calls.length) (cursor : Option κ) :
    [] ∈ walk key calls cursor := by
  by_contra h
  have hnodup : (walk key calls cursor).flatten.Nodup := by
    refine (walk_desc hn cursor).imp ?_
    rintro r s hlt rfl
    exact lt_irrefl _ hlt
  have hsub : (walk key calls cursor).flatten ⊆ all := by
    intro r hr
    obtain ⟨c, hc, hr⟩ := walk_mem hr
    exact hall c hc hr
  have := (List.subperm_of_subset hnodup hsub).length_le
  have := length_le_walk h
  omega

end Keyset
