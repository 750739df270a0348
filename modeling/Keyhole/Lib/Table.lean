import Mathlib.Data.List.Nodup
import Mathlib.Data.List.Sort

/-!
# Tables with a primary key

A table is a list of rows, no two of which share a key. The statements of
SQL are list operations on it; each keeps the key unique, so a table with a
duplicate key cannot be built. The same structure is an insertion-ordered
map of records that carry their own key.
-/

namespace Sql

structure Table {κ ρ : Type} (key : ρ → κ) where
  rows : List ρ
  nodup : (rows.map key).Nodup

namespace Table

variable {κ ρ : Type} {key : ρ → κ}

@[ext] theorem ext {s t : Table key} (h : s.rows = t.rows) : s = t := by
  cases s; cases t; cases h; rfl

instance [DecidableEq ρ] : DecidableEq (Table key) := fun s t =>
  decidable_of_iff (s.rows = t.rows) ⟨ext, fun h => h ▸ rfl⟩

instance : Membership ρ (Table key) := ⟨fun t r => r ∈ t.rows⟩

instance [DecidableEq ρ] (r : ρ) (t : Table key) : Decidable (r ∈ t) :=
  inferInstanceAs (Decidable (r ∈ t.rows))

instance (t : Table key) (p : ρ → Prop) [DecidablePred p] : Decidable (∀ r ∈ t, p r) :=
  inferInstanceAs (Decidable (∀ r ∈ t.rows, p r))

instance : EmptyCollection (Table key) := ⟨⟨[], List.nodup_nil⟩⟩

@[simp] theorem mem_empty (r : ρ) : ¬ r ∈ (∅ : Table key) := List.not_mem_nil

theorem eq_of_key {t : Table key} {r r' : ρ} (h : r ∈ t) (h' : r' ∈ t) (hk : key r = key r') : r = r' :=
  List.inj_on_of_nodup_map t.nodup h h' hk

/-! ## Reading -/

def find? (t : Table key) (p : ρ → Bool) : Option ρ := t.rows.find? p

def count (t : Table key) (p : ρ → Bool) : Nat := t.rows.countP p

def any (t : Table key) (p : ρ → Bool) : Bool := t.rows.any p

def filter (t : Table key) (p : ρ → Bool) : List ρ := t.rows.filter p

theorem mem_of_find? {t : Table key} {p : ρ → Bool} {r : ρ} (h : t.find? p = some r) : r ∈ t :=
  List.mem_of_find?_eq_some h

theorem prop_of_find? {t : Table key} {p : ρ → Bool} {r : ρ} (h : t.find? p = some r) : p r = true :=
  List.find?_some h

theorem find?_eq_none {t : Table key} {p : ρ → Bool} : t.find? p = none ↔ ∀ r ∈ t, p r = false := by
  unfold find?
  rw [List.find?_eq_none]
  simp only [Bool.not_eq_true]
  rfl

theorem find?_eq_some {t : Table key} {p : ρ → Bool} {r : ρ} (hr : r ∈ t)
    (hp : ∀ x ∈ t, p x = true ↔ x = r) :
    t.find? p = some r := by
  cases h : t.find? p with
  | none =>
    have hn := find?_eq_none.mp h r hr
    rw [(hp r hr).mpr rfl] at hn
    cases hn
  | some x => rw [(hp x (mem_of_find? h)).mp (prop_of_find? h)]

theorem any_eq_true {t : Table key} {p : ρ → Bool} : t.any p = true ↔ ∃ r ∈ t, p r = true :=
  List.any_eq_true

theorem any_eq_false {t : Table key} {p : ρ → Bool} : t.any p = false ↔ ∀ r ∈ t, p r = false := by
  simp only [any, List.any_eq_false, Bool.not_eq_true]
  exact Iff.rfl

theorem mem_filter {t : Table key} {p : ρ → Bool} {r : ρ} : r ∈ t.filter p ↔ r ∈ t ∧ p r = true :=
  List.mem_filter

theorem count_eq_zero {t : Table key} {p : ρ → Bool} : t.count p = 0 ↔ ∀ r ∈ t, p r = false := by
  unfold count
  rw [List.countP_eq_zero]
  simp only [Bool.not_eq_true]
  rfl

theorem count_ne_zero {t : Table key} {p : ρ → Bool} {r : ρ} (hr : r ∈ t) (hp : p r = true) :
    t.count p ≠ 0 := by
  intro h
  rw [count_eq_zero.mp h r hr] at hp
  cases hp

theorem exists_ne_of_count {t : Table key} {p : ρ → Bool} (h : 1 < t.count p) (r : ρ) :
    ∃ x ∈ t, p x = true ∧ x ≠ r := by
  by_contra hne
  have hall : ∀ x ∈ t.rows.filter p, x = r := by
    intro x hx
    by_contra hxr
    exact hne ⟨x, (List.mem_filter.mp hx).1, (List.mem_filter.mp hx).2, hxr⟩
  have hnodup : (t.rows.filter p).Nodup := (List.Nodup.of_map key t.nodup).filter p
  have heq := List.eq_replicate_of_mem hall
  rw [heq, List.nodup_replicate, ← List.countP_eq_length_filter] at hnodup
  exact absurd h (Nat.not_lt.mpr hnodup)

section
variable [DecidableEq κ]

def get? (t : Table key) (k : κ) : Option ρ := t.find? fun r => key r = k

theorem get?_eq_some {t : Table key} {k : κ} {r : ρ} : t.get? k = some r ↔ r ∈ t ∧ key r = k := by
  constructor
  · intro h
    exact ⟨mem_of_find? h, by simpa using prop_of_find? h⟩
  · rintro ⟨hr, hk⟩
    cases h : t.get? k with
    | none => simpa [hk] using find?_eq_none.mp h r hr
    | some r' =>
      have hk' : key r' = k := by simpa using prop_of_find? h
      rw [eq_of_key (mem_of_find? h) hr (hk'.trans hk.symm)]

theorem get?_eq_none {t : Table key} {k : κ} : t.get? k = none ↔ ∀ r ∈ t, key r ≠ k := by
  unfold get?
  rw [find?_eq_none]
  simp

theorem get?_isSome {t : Table key} {k : κ} : (t.get? k).isSome = true ↔ ∃ r ∈ t, key r = k := by
  rw [Option.isSome_iff_exists]
  exact exists_congr fun r => get?_eq_some

/-- The rows that do not satisfy `p` are not looked at for a key whose row does. -/
theorem get?_of_filter {t t' : Table key} {p : ρ → Bool} (h : t.filter p = t'.filter p) {k : κ}
    (hk : ∀ r, key r = k → p r = true) : t.get? k = t'.get? k := by
  have hfilter : ∀ u : Table key, u.get? k = (u.filter p).find? fun r => key r = k := by
    intro u
    unfold get? find? filter
    rw [List.find?_filter]
    congr 1
    funext r
    by_cases hr : key r = k <;> simp [hr, hk]
  rw [hfilter, hfilter, h]


end

/-! ## Writing -/

/-- `UPDATE … SET f WHERE p`; a statement never assigns the key. -/
def update (t : Table key) (p : ρ → Bool) (f : ρ → ρ) (hf : ∀ r, key (f r) = key r := by intro _; rfl) :
    Table key where
  rows := t.rows.map fun r => if p r then f r else r
  nodup := by
    have : (fun r => key (if p r then f r else r)) = key := by
      funext r; split; exact hf r; rfl
    simpa [List.map_map, Function.comp_def, this] using t.nodup

def delete (t : Table key) (p : ρ → Bool) : Table key where
  rows := t.rows.filter fun r => !p r
  nodup := t.nodup.sublist ((List.filter_sublist (p := fun r => !p r)).map key)

theorem mem_update {t : Table key} {p : ρ → Bool} {f : ρ → ρ} {hf : ∀ r, key (f r) = key r} {r : ρ} :
    r ∈ t.update p f hf ↔ (r ∈ t ∧ p r = false) ∨ ∃ r₀ ∈ t, p r₀ = true ∧ f r₀ = r := by
  change r ∈ t.rows.map _ ↔ _
  rw [List.mem_map]
  constructor
  · rintro ⟨r₀, h₀, rfl⟩
    cases hp : p r₀ with
    | true => exact Or.inr ⟨r₀, h₀, hp, by simp⟩
    | false =>
      rw [if_neg (by simp)]
      exact Or.inl ⟨h₀, hp⟩
  · rintro (⟨h, hp⟩ | ⟨r₀, h₀, hp, rfl⟩)
    · exact ⟨r, h, by simp [hp]⟩
    · exact ⟨r₀, h₀, by simp [hp]⟩

/-- A row `p` does not touch, and that no other becomes. -/
theorem mem_update_iff {t : Table key} {p : ρ → Bool} {f : ρ → ρ} {hf : ∀ r, key (f r) = key r} {r : ρ}
    (hp : p r = false) (hr : ∀ r₀, p r₀ = true → f r₀ ≠ r) : r ∈ t.update p f hf ↔ r ∈ t := by
  rw [mem_update]
  constructor
  · rintro (⟨h, -⟩ | ⟨r₀, -, h₀, h⟩)
    · exact h
    · exact absurd h (hr r₀ h₀)
  · exact fun h => .inl ⟨h, hp⟩

theorem mem_delete {t : Table key} {p : ρ → Bool} {r : ρ} : r ∈ t.delete p ↔ r ∈ t ∧ p r = false := by
  change r ∈ t.rows.filter _ ↔ _
  rw [List.mem_filter, Bool.not_eq_true']
  rfl

theorem find?_delete {t : Table key} {p q : ρ → Bool} (h : ∀ r, q r = true → p r = false) :
    (t.delete p).find? q = t.find? q := by
  change (t.rows.filter _).find? q = t.rows.find? q
  rw [List.find?_filter]
  congr 1
  funext r
  cases hq : q r with
  | true => simp [h r hq]
  | false => simp

theorem delete_eq_self {t : Table key} {p : ρ → Bool} : t.delete p = t ↔ t.any p = false := by
  rw [any_eq_false]
  constructor
  · intro h r hr
    rw [← h] at hr
    exact (mem_delete.mp hr).2
  · intro h
    apply ext
    change t.rows.filter _ = t.rows
    rw [List.filter_eq_self]
    intro r hr
    simpa using h r hr

theorem update_of_count {t : Table key} {p : ρ → Bool} {f : ρ → ρ} {hf : ∀ r, key (f r) = key r}
    (h : t.count p = 0) :
    t.update p f hf = t := by
  apply ext
  have hid : t.rows.map (fun r => if p r then f r else r) = t.rows.map id := by
    apply List.map_congr_left
    intro r hr
    simp [count_eq_zero.mp h r hr]
  exact hid.trans (List.map_id _)

section
variable [DecidableEq κ]

/-- `INSERT`: `none` when the key is taken. -/
def insert? (t : Table key) (r : ρ) : Option (Table key) :=
  if h : key r ∈ t.rows.map key then none
  else some ⟨t.rows ++ [r], by
    rw [List.map_append, List.nodup_append]
    refine ⟨t.nodup, by simp, ?_⟩
    intro a ha b hb hab
    simp only [List.map_cons, List.map_nil, List.mem_singleton] at hb
    exact h (hb ▸ hab ▸ ha)⟩

theorem insert?_rows {t t' : Table key} {r : ρ} (h : t.insert? r = some t') : t'.rows = t.rows ++ [r] := by
  unfold insert? at h
  split at h
  · cases h
  · cases h
    rfl

theorem mem_insert? {t t' : Table key} {r x : ρ} (h : t.insert? r = some t') : x ∈ t' ↔ x ∈ t ∨ x = r := by
  change x ∈ t'.rows ↔ _
  rw [insert?_rows h, List.mem_append, List.mem_singleton]
  rfl

theorem insert?_fresh {t t' : Table key} {r : ρ} (h : t.insert? r = some t') : t.get? (key r) = none := by
  unfold insert? at h
  split at h
  · cases h
  · rename_i hk
    rw [get?_eq_none]
    intro x hx hxk
    exact hk (hxk ▸ List.mem_map_of_mem hx)

theorem insert?_ne {t t' : Table key} {r : ρ} (h : t.insert? r = some t') : t' ≠ t := by
  intro hs
  have hl := congrArg List.length (insert?_rows h)
  simp [hs] at hl

theorem insert?_eq_none {t : Table key} {r : ρ} : t.insert? r = none ↔ (t.get? (key r)).isSome = true := by
  rw [get?_isSome]
  unfold insert?
  split
  · rename_i h
    exact ⟨fun _ => List.mem_map.mp h, fun _ => rfl⟩
  · rename_i h
    simp only [reduceCtorEq, false_iff]
    exact fun hr => h (List.mem_map.mpr hr)

/-- `INSERT … ON CONFLICT (key) DO UPDATE SET` every other column, and the
`set` of an insertion-ordered map: the row keeps its place. -/
def upsert (t : Table key) (r : ρ) : Table key :=
  if h : key r ∈ t.rows.map key then
    ⟨t.rows.map fun x => if key x = key r then r else x, by
      have : (fun x => key (if key x = key r then r else x)) = key := by
        funext x; split <;> simp_all
      simpa [List.map_map, Function.comp_def, this] using t.nodup⟩
  else ⟨t.rows ++ [r], by
    rw [List.map_append, List.nodup_append]
    refine ⟨t.nodup, by simp, ?_⟩
    intro a ha b hb hab
    simp only [List.map_cons, List.map_nil, List.mem_singleton] at hb
    exact h (hb ▸ hab ▸ ha)⟩

theorem mem_upsert {t : Table key} {r x : ρ} : x ∈ t.upsert r ↔ (x ∈ t ∧ key x ≠ key r) ∨ x = r := by
  unfold upsert
  split
  · rename_i hk
    change x ∈ t.rows.map _ ↔ _
    rw [List.mem_map]
    constructor
    · rintro ⟨y, hy, rfl⟩
      by_cases h : key y = key r
      · exact Or.inr (by simp [h])
      · exact Or.inl (by simpa only [h, ite_false] using ⟨hy, h⟩)
    · rintro (⟨hx, h⟩ | rfl)
      · exact ⟨x, hx, by simp [h]⟩
      · obtain ⟨y, hy, hyx⟩ := List.mem_map.mp hk
        exact ⟨y, hy, by simp [hyx]⟩
  · rename_i hk
    change x ∈ t.rows ++ [r] ↔ _
    rw [List.mem_append, List.mem_singleton]
    constructor
    · rintro (hx | rfl)
      · exact Or.inl ⟨hx, fun h => hk (h ▸ List.mem_map_of_mem hx)⟩
      · exact Or.inr rfl
    · rintro (⟨hx, -⟩ | rfl)
      · exact Or.inl hx
      · exact Or.inr rfl

theorem upsert_rows_map {α : Type} {f : ρ → α} {t : Table key} {r : ρ}
    (h : ∀ x ∈ t, key x = key r → f x = f r) :
    (t.upsert r).rows.map f = if key r ∈ t.rows.map key then t.rows.map f else t.rows.map f ++ [f r] := by
  unfold upsert
  by_cases hk : key r ∈ t.rows.map key
  · rw [dif_pos hk, if_pos hk, List.map_map]
    apply List.map_congr_left
    intro x hx
    by_cases he : key x = key r
    · simp [he, h x hx he]
    · simp [he]
  · rw [dif_neg hk, if_neg hk, List.map_append, List.map_singleton]

theorem get?_upsert {t : Table key} {r : ρ} {k : κ} :
    (t.upsert r).get? k = if key r = k then some r else t.get? k := by
  split
  · rename_i h
    exact get?_eq_some.mpr ⟨mem_upsert.mpr (Or.inr rfl), h⟩
  · rename_i h
    cases hg : t.get? k with
    | none =>
      rw [get?_eq_none] at hg ⊢
      intro x hx
      rcases mem_upsert.mp hx with ⟨hx, -⟩ | rfl
      · exact hg x hx
      · exact h
    | some y =>
      obtain ⟨hy, rfl⟩ := get?_eq_some.mp hg
      exact get?_eq_some.mpr ⟨mem_upsert.mpr (Or.inl ⟨hy, Ne.symm h⟩), rfl⟩

/-- Where a row stands already, only its own key changes. -/
theorem upsert_at {t : Table key} {r : ρ} {k : κ} (r' : ρ) (hg : t.get? k = some r) (hk : key r' = key r) :
    (t.upsert r').get? k = some r' ∧ ∀ k', k' ≠ k → (t.upsert r').get? k' = t.get? k' := by
  have hkey : key r' = k := hk.trans (get?_eq_some.mp hg).2
  refine ⟨by rw [get?_upsert, if_pos hkey], fun k' hne => ?_⟩
  rw [get?_upsert, if_neg fun h => hne (h.symm.trans hkey)]

theorem upsert_eq_self {t : Table key} {r : ρ} : t.upsert r = t ↔ t.get? (key r) = some r := by
  constructor
  · intro h
    rw [← h, get?_upsert, if_pos rfl]
  · intro h
    obtain ⟨hr, -⟩ := get?_eq_some.mp h
    apply ext
    unfold upsert
    rw [dif_pos (List.mem_map_of_mem hr)]
    change t.rows.map _ = t.rows
    have hid : t.rows.map (fun x => if key x = key r then r else x) = t.rows.map id := by
      apply List.map_congr_left
      intro x hx
      by_cases hk : key x = key r
      · rw [if_pos hk]
        exact (eq_of_key hx hr hk).symm
      · rw [if_neg hk]
        rfl
    rw [hid, List.map_id]

theorem upsert_upsert {t : Table key} {r r' : ρ} (h : key r = key r') : (t.upsert r).upsert r' = t.upsert r' := by
  have hk : key r' ∈ (t.upsert r).rows.map key :=
    List.mem_map.mpr ⟨r, mem_upsert.mpr (Or.inr rfl), h⟩
  apply ext
  unfold upsert at hk ⊢
  by_cases hm : key r ∈ t.rows.map key
  · have hm' : key r' ∈ t.rows.map key := h ▸ hm
    simp only [dif_pos hm] at hk ⊢
    rw [dif_pos hk, dif_pos hm']
    change (t.rows.map _).map _ = t.rows.map _
    rw [List.map_map]
    apply List.map_congr_left
    intro x hx
    by_cases hx' : key x = key r'
    · simp [hx', h]
    · simp [hx', h]
  · have hm' : ¬ key r' ∈ t.rows.map key := h ▸ hm
    simp only [dif_neg hm] at hk ⊢
    rw [dif_pos hk, dif_neg hm']
    change (t.rows ++ [r]).map _ = t.rows ++ [r']
    rw [List.map_append, List.map_cons, List.map_nil, if_pos h]
    have hid : t.rows.map (fun x => if key x = key r' then r' else x) = t.rows.map id := by
      apply List.map_congr_left
      intro x hx
      exact if_neg fun hx' : key x = key r' => hm' (hx' ▸ List.mem_map_of_mem hx)
    rw [hid, List.map_id]

theorem get?_delete_key {t : Table key} {k k' : κ} :
    (t.delete fun r => key r = k').get? k = if k' = k then none else t.get? k := by
  split
  · rename_i h
    subst h
    rw [get?_eq_none]
    intro x hx
    simpa using (mem_delete.mp hx).2
  · rename_i h
    cases hg : t.get? k with
    | none =>
      rw [get?_eq_none] at hg ⊢
      exact fun x hx => hg x (mem_delete.mp hx).1
    | some y =>
      obtain ⟨hy, rfl⟩ := get?_eq_some.mp hg
      exact get?_eq_some.mpr ⟨mem_delete.mpr ⟨hy, by simpa using Ne.symm h⟩, rfl⟩

theorem eq_iff_of_get? {t : Table key} {p : ρ → Bool} {k : κ} {r : ρ} (hg : t.get? k = some r)
    (hp : p r = true) (hk : ∀ x, p x = true → key x = k) : ∀ x ∈ t, p x = true ↔ x = r := by
  obtain ⟨hr, rfl⟩ := get?_eq_some.mp hg
  intro x hx
  exact ⟨fun h => eq_of_key hx hr (hk x h), fun h => h ▸ hp⟩

theorem update_eq_upsert {t : Table key} {p : ρ → Bool} {r : ρ} (f : ρ → ρ) (hf : ∀ r, key (f r) = key r)
    (hr : r ∈ t) (hp : ∀ x ∈ t, p x = true ↔ x = r) : t.update p f hf = t.upsert (f r) := by
  apply ext
  unfold upsert
  rw [dif_pos (by rw [hf]; exact List.mem_map_of_mem hr)]
  change t.rows.map _ = t.rows.map _
  apply List.map_congr_left
  intro x hx
  by_cases h : x = r
  · subst h
    rw [if_pos ((hp x hx).mpr rfl), if_pos (hf x).symm]
  · have hk : key x ≠ key (f r) := by
      rw [hf]; exact fun hk => h (eq_of_key hx hr hk)
    rw [if_neg (fun hpx => h ((hp x hx).mp hpx)), if_neg hk]

theorem exists_of_count {t : Table key} {p : ρ → Bool} {k : κ} (hk : ∀ x, p x = true → key x = k)
    (hn : t.count p ≠ 0) : ∃ r, t.get? k = some r ∧ p r = true := by
  rw [Ne, count_eq_zero, not_forall] at hn
  obtain ⟨r, hr⟩ := hn
  rw [Classical.not_imp, Bool.not_eq_false] at hr
  exact ⟨r, get?_eq_some.mpr ⟨hr.1, hk r hr.2⟩, hr.2⟩

theorem update_one {t : Table key} {p : ρ → Bool} {f : ρ → ρ} {hf : ∀ r, key (f r) = key r} {k : κ}
    (hk : ∀ x, p x = true → key x = k) (hn : t.count p ≠ 0) :
    ∃ r, t.get? k = some r ∧ p r = true ∧ t.update p f hf = t.upsert (f r) := by
  obtain ⟨r, hg, hp⟩ := exists_of_count hk hn
  exact ⟨r, hg, hp, update_eq_upsert f hf (get?_eq_some.mp hg).1 (eq_iff_of_get? hg hp hk)⟩

end

end Table

end Sql
