import Keyhole.Import.Rows
import Keyhole.Lib.Positions
import Keyhole.Lib.Table
import Mathlib.Data.List.Induction

/-!
# Which rows are accounts the user has

Rows and items are compared on the host of their first address and on the
username. The groups are kept in a map from the text of a key.
-/

namespace Keyhole.Import
open Positions Sql Table

/-! ## Keys -/

/-- What is read of a `URL`. -/
structure Url where
  hostname : Text
  port : Text
  deriving DecidableEq, Repr

structure DuplicateKey where
  host : Text
  username : Text
  deriving DecidableEq, Repr

structure ExistingItem where
  id : Text
  name : Text
  username : Text
  urls : List Text
  deriving DecidableEq, Repr

structure DuplicateGroup where
  key : DuplicateKey
  rows : List Nat
  existing : List ExistingItem
  deriving DecidableEq, Repr

structure DuplicateReport where
  groups : List DuplicateGroup
  unchecked : List Nat
  deriving DecidableEq, Repr

def withoutTrailingDot (s : Text) : Text := if s.getLast? = some 0x2E then s.dropLast else s

def withoutWww (s : Text) : Text := (afterPrefix (ascii "www.") s).getD s

-- `newUrl` is `none` where `new URL(value)` throws.
section
variable (p : Platform) (newUrl : Text → Option Url)

def parseUrl (value : Text) : Option Url := (newUrl value).filter fun parsed => parsed.hostname ≠ []

def matchHost (url : Text) : Option Text :=
  let trimmed := trim url
  if trimmed = [] then none else
    match (parseUrl newUrl trimmed).or (parseUrl newUrl (ascii "https://" ++ trimmed)) with
    | none => none
    | some parsed =>
      let hostname := withoutWww (withoutTrailingDot (p.toLowerCase parsed.hostname))
      if hostname = [] then none
      else if parsed.port = [] then some hostname
      else some (hostname ++ ascii ":" ++ parsed.port)

def matchUsername (username : Text) : Text := p.toLowerCase (trim username)

def keyOf (isNote : Bool) (username : Text) (urls : List Text) : Option DuplicateKey :=
  if isNote then none else
    match urls with
    | [] => none
    | first :: _ => (matchHost p newUrl first).map fun host => ⟨host, matchUsername p username⟩

def rowKey (item : ImportItem) : Option DuplicateKey := keyOf p newUrl (item.type = .note) item.username item.urls

def existingKey (item : ExistingItem) : Option DuplicateKey := keyOf p newUrl false item.username item.urls

def keyText (key : DuplicateKey) : Text := key.host ++ [LF] ++ key.username

/-! ## Groups -/

/-- `Map<string, DuplicateGroup>`. -/
abbrev Groups : Type := Table (Prod.fst : Text × DuplicateGroup → Text)

def addRow (st : Groups × List Nat) (row : ImportItem × Nat) : Groups × List Nat :=
  match rowKey p newUrl row.1 with
  | none => (st.1, st.2 ++ [row.2])
  | some key =>
    let text := keyText key
    let group := ((st.1.get? text).map Prod.snd).getD ⟨key, [], []⟩
    (st.1.upsert (text, { group with rows := group.rows ++ [row.2] }), st.2)

def addExisting (byKey : Groups) (item : ExistingItem) : Groups :=
  match existingKey p newUrl item with
  | none => byKey
  | some key =>
    byKey.update (·.1 = keyText key) fun e => (e.1, { e.2 with existing := e.2.existing ++ [item] })

def findDuplicates (rows : List ImportItem) (existing : List ExistingItem) : DuplicateReport :=
  let (byKey, unchecked) := rows.zipIdx.foldl (addRow p newUrl) (∅, [])
  let byKey := existing.foldl (addExisting p newUrl) byKey
  { groups := (byKey.rows.map Prod.snd).filter fun group => 1 < group.rows.length || 0 < group.existing.length
    unchecked := unchecked }

end

/-! ## Keys and their texts -/

/-- The host of a URL and its port are of one line, and no letter is folded to a line feed. -/
structure OneLine (p : Platform) (newUrl : Text → Option Url) : Prop where
  hostname : ∀ value url, newUrl value = some url → LF ∉ url.hostname ∧ LF ∉ url.port
  toLowerCase : ∀ s, LF ∉ s → LF ∉ p.toLowerCase s

theorem append_separated {u v : Text} {x y : Text} {c : CodeUnit} (hu : c ∉ u) (hv : c ∉ v)
    (h : u ++ [c] ++ x = v ++ [c] ++ y) : u = v ∧ x = y := by
  induction u generalizing v with
  | nil =>
    cases v with
    | nil => simpa using h
    | cons d v =>
      simp only [List.nil_append, List.cons_append, List.cons.injEq] at h
      exact absurd (h.1 ▸ List.mem_cons_self) hv
  | cons d u ih =>
    cases v with
    | nil =>
      simp only [List.nil_append, List.cons_append, List.cons.injEq] at h
      exact absurd (h.1 ▸ List.mem_cons_self) hu
    | cons e v =>
      simp only [List.cons_append, List.cons.injEq] at h
      obtain ⟨rfl, h⟩ := h
      obtain ⟨rfl, rfl⟩ :=
        ih (fun hc => hu (List.mem_cons_of_mem _ hc)) (fun hc => hv (List.mem_cons_of_mem _ hc)) h
      exact ⟨rfl, rfl⟩

theorem keyText_inj {k k' : DuplicateKey} (h : LF ∉ k.host) (h' : LF ∉ k'.host) (he : keyText k = keyText k') :
    k = k' := by
  obtain ⟨hh, hu⟩ := append_separated h h' he
  cases k
  cases k'
  simp only at hh hu
  rw [hh, hu]

section
variable {p : Platform} {newUrl : Text → Option Url}

theorem withoutTrailingDot_lf {s : Text} (h : LF ∉ s) : LF ∉ withoutTrailingDot s := by
  unfold withoutTrailingDot
  split
  · exact fun hm => h (List.dropLast_subset s hm)
  · exact h

theorem withoutWww_lf {s : Text} (h : LF ∉ s) : LF ∉ withoutWww s := by
  unfold withoutWww afterPrefix
  split
  · exact fun hm => h (List.mem_of_mem_drop hm)
  · exact h

theorem matchHost_lf (hp : OneLine p newUrl) {url host : Text} (h : matchHost p newUrl url = some host) :
    LF ∉ host := by
  unfold matchHost at h
  simp only at h
  split at h
  · cases h
  · split at h
    · cases h
    · rename_i parsed hparsed
      have hurl : LF ∉ parsed.hostname ∧ LF ∉ parsed.port := by
        rcases Option.or_eq_some_iff.mp hparsed with hs | ⟨-, hs⟩
        · exact hp.hostname _ _ (Option.filter_eq_some_iff.mp hs).1
        · exact hp.hostname _ _ (Option.filter_eq_some_iff.mp hs).1
      have hname := withoutWww_lf (withoutTrailingDot_lf (hp.toLowerCase _ hurl.1))
      split at h
      · cases h
      · split at h
        · cases h
          exact hname
        · cases h
          have hc : LF ∉ ascii ":" := by decide
          simp [hname, hurl.2, hc]

theorem keyOf_lf (hp : OneLine p newUrl) {isNote : Bool} {username : Text} {urls : List Text} {k : DuplicateKey}
    (h : keyOf p newUrl isNote username urls = some k) : LF ∉ k.host := by
  unfold keyOf at h
  split at h
  · cases h
  · split at h
    · cases h
    · obtain ⟨host, hh, rfl⟩ := Option.map_eq_some_iff.mp h
      exact matchHost_lf hp hh

theorem keyText_eq_iff (hp : OneLine p newUrl) {isNote isNote' : Bool} {username username' : Text}
    {urls urls' : List Text}
    {k k' : DuplicateKey} (h : keyOf p newUrl isNote username urls = some k)
    (h' : keyOf p newUrl isNote' username' urls' = some k') : keyText k = keyText k' ↔ k = k' :=
  ⟨keyText_inj (keyOf_lf hp h) (keyOf_lf hp h'), fun he => by rw [he]⟩

/-! ## What the map holds -/

variable (p newUrl) in
def rowKeys (rows : List ImportItem) : List (Option DuplicateKey) := rows.map (rowKey p newUrl)

def firstRow (e : Text × DuplicateGroup) : Nat := e.2.rows.headD 0

variable (p newUrl) in
/-- After the rows `done` and the items `old`. -/
structure Grouped (done : List ImportItem) (old : List ExistingItem) (byKey : Groups) : Prop where
  text : ∀ e ∈ byKey, e.1 = keyText e.2.key
  rows : ∀ e ∈ byKey, e.2.rows = positions (rowKeys p newUrl done) (some e.2.key) ∧ e.2.rows ≠ []
  existing : ∀ e ∈ byKey, e.2.existing = old.filter fun item => existingKey p newUrl item = some e.2.key
  covered : ∀ k, some k ∈ rowKeys p newUrl done → ∃ e ∈ byKey, e.2.key = k
  order : (byKey.rows.map firstRow).Pairwise (· < ·)

theorem rowKeys_snoc (rows : List ImportItem) (row : ImportItem) :
    rowKeys p newUrl (rows ++ [row]) = rowKeys p newUrl rows ++ [rowKey p newUrl row] := by
  simp [rowKeys]

theorem length_rowKeys (rows : List ImportItem) : (rowKeys p newUrl rows).length = rows.length := by simp [rowKeys]

theorem exists_of_mem_rowKeys {rows : List ImportItem} {k : DuplicateKey} (h : some k ∈ rowKeys p newUrl rows) :
    ∃ row ∈ rows, rowKey p newUrl row = some k := by
  simpa [rowKeys] using h

theorem headD_mem {l : List Nat} (h : l ≠ []) : l.headD 0 ∈ l := by
  cases l with
  | nil => exact absurd rfl h
  | cons a l => exact List.mem_cons_self

theorem headD_append {l : List Nat} (h : l ≠ []) (n : Nat) : (l ++ [n]).headD 0 = l.headD 0 := by
  cases l with
  | nil => exact absurd rfl h
  | cons a l => rfl

section
variable {done : List ImportItem} {old : List ExistingItem} {byKey : Groups}

theorem Grouped.key_of_entry (h : Grouped p newUrl done old byKey) {e : Text × DuplicateGroup} (he : e ∈ byKey) :
    some e.2.key ∈ rowKeys p newUrl done := by
  obtain ⟨hr, hne⟩ := h.rows e he
  rw [hr] at hne
  exact positions_ne_nil.mp hne

theorem Grouped.entry_iff (hp : OneLine p newUrl) (h : Grouped p newUrl done old byKey) {e : Text × DuplicateGroup}
    (he : e ∈ byKey) {isNote : Bool} {username : Text} {urls : List Text} {k : DuplicateKey}
    (hk : keyOf p newUrl isNote username urls = some k) : e.1 = keyText k ↔ e.2.key = k := by
  obtain ⟨row, -, hrow⟩ := exists_of_mem_rowKeys (h.key_of_entry he)
  rw [h.text e he]
  exact keyText_eq_iff hp hrow hk

theorem grouped_unchecked (h : Grouped p newUrl done old byKey) {row : ImportItem}
    (hk : rowKey p newUrl row = none) :
    Grouped p newUrl (done ++ [row]) old byKey where
  text := h.text
  rows e he := by
    obtain ⟨hr, hne⟩ := h.rows e he
    rw [rowKeys_snoc, positions_snoc, hk, if_neg (by simp), List.append_nil]
    exact ⟨hr, hne⟩
  existing := h.existing
  covered k hk' := by
    rw [rowKeys_snoc, hk, List.mem_append] at hk'
    exact h.covered k (hk'.resolve_right (by simp))
  order := h.order

theorem grouped_row (hp : OneLine p newUrl) (h : Grouped p newUrl done [] byKey) {row : ImportItem}
    {k : DuplicateKey} (hk : rowKey p newUrl row = some k) {group : DuplicateGroup}
    (hg : group = ((byKey.get? (keyText k)).map Prod.snd).getD ⟨k, [], []⟩) :
    Grouped p newUrl (done ++ [row]) []
      (byKey.upsert (keyText k, { group with rows := group.rows ++ [done.length] })) := by
  -- the group as it was: of this key, with the rows so far
  have hgroup : group.key = k ∧ group.rows = positions (rowKeys p newUrl done) (some k) ∧ group.existing = [] ∧
      ∀ e ∈ byKey, e.1 = keyText k → e.2 = group := by
    cases hget : byKey.get? (keyText k) with
    | some e =>
      obtain ⟨he, htext⟩ := get?_eq_some.mp hget
      have hkey : e.2.key = k := (h.entry_iff hp he hk).mp htext
      rw [hget] at hg
      subst hg
      refine ⟨hkey, hkey ▸ (h.rows e he).1, h.existing e he, fun e' he' ht => ?_⟩
      exact congrArg Prod.snd (eq_of_key he' he (ht.trans htext.symm))
    | none =>
      rw [hget] at hg
      subst hg
      have hnot := get?_eq_none.mp hget
      refine ⟨rfl, ?_, rfl, fun e he ht => absurd ht (hnot e he)⟩
      by_contra hne
      obtain ⟨e, he, hkey⟩ := h.covered k (positions_ne_nil.mp (Ne.symm hne))
      exact hnot e he ((h.entry_iff hp he hk).mpr hkey)
  obtain ⟨hkey, hrows, hexisting, honly⟩ := hgroup
  have hnew : group.rows ++ [done.length] = positions (rowKeys p newUrl (done ++ [row])) (some k) := by
    rw [rowKeys_snoc, positions_snoc, hk, if_pos rfl, hrows, length_rowKeys]
  refine ⟨?_, ?_, ?_, ?_, ?_⟩
  · intro e he
    rcases mem_upsert.mp he with ⟨he, -⟩ | rfl
    · exact h.text e he
    · exact congrArg keyText hkey.symm
  · intro e he
    rcases mem_upsert.mp he with ⟨he, hne⟩ | rfl
    · have hother : e.2.key ≠ k := fun hek => hne ((h.entry_iff hp he hk).mpr hek)
      rw [rowKeys_snoc, positions_snoc, hk, if_neg (by simpa using hother.symm), List.append_nil]
      exact h.rows e he
    · exact ⟨by simpa [hkey] using hnew, by simp⟩
  · intro e he
    rcases mem_upsert.mp he with ⟨he, -⟩ | rfl
    · exact h.existing e he
    · exact hexisting
  · intro k' hk'
    rw [rowKeys_snoc, hk, List.mem_append, List.mem_singleton] at hk'
    by_cases hkk : k' = k
    · exact ⟨_, mem_upsert.mpr (Or.inr rfl), hkey.trans hkk.symm⟩
    · obtain ⟨e, he, hek⟩ := h.covered k' (hk'.resolve_right (by simpa using hkk))
      refine ⟨e, mem_upsert.mpr (Or.inl ⟨he, fun ht => hkk ?_⟩), hek⟩
      exact hek.symm.trans ((h.entry_iff hp he hk).mp ht)
  · have hfirst : ∀ e ∈ byKey, e.1 = keyText k →
        firstRow e = firstRow (keyText k, { group with rows := group.rows ++ [done.length] }) := by
      intro e he ht
      rw [firstRow, firstRow, ← honly e he ht, headD_append (h.rows e he).2]
    rw [upsert_rows_map hfirst]
    split
    · exact h.order
    · rename_i habsent
      have hnone : group.rows = [] := by
        by_contra hne
        obtain ⟨e, he, hek⟩ := h.covered k (positions_ne_nil.mp (hrows ▸ hne))
        exact habsent (List.mem_map.mpr ⟨e, he, (h.entry_iff hp he hk).mpr hek⟩)
      rw [List.pairwise_append]
      refine ⟨h.order, by simp, ?_⟩
      intro i hi j hj
      obtain ⟨e, he, rfl⟩ := List.mem_map.mp hi
      obtain ⟨hr, hne⟩ := h.rows e he
      have hhead : e.2.rows.headD 0 ∈ e.2.rows := headD_mem hne
      rw [hr] at hhead
      have := positions_lt hhead
      rw [length_rowKeys, ← hr] at this
      rw [List.mem_singleton.mp hj]
      simpa [firstRow, hnone] using this

theorem grouped_existing (hp : OneLine p newUrl) (h : Grouped p newUrl done old byKey) (item : ExistingItem) :
    Grouped p newUrl done (old ++ [item]) (addExisting p newUrl byKey item) := by
  unfold addExisting
  cases hk : existingKey p newUrl item with
  | none =>
    refine ⟨h.text, h.rows, fun e he => ?_, h.covered, h.order⟩
    rw [List.filter_append, List.filter_singleton, hk]
    simpa using h.existing e he
  | some k =>
    have hfilter : ∀ k', ((old ++ [item]).filter fun item => existingKey p newUrl item = some k') =
        (old.filter fun item => existingKey p newUrl item = some k') ++ if k = k' then [item] else [] := by
      intro k'
      by_cases hkk : k = k' <;> simp [hk, hkk]
    have hsame : ∀ e ∈ byKey.update (·.1 = keyText k) fun e =>
      (e.1, { e.2 with existing := e.2.existing ++ [item] }),
        ∃ e₀ ∈ byKey, e.1 = e₀.1 ∧ e.2.key = e₀.2.key ∧ e.2.rows = e₀.2.rows ∧
          e.2.existing = e₀.2.existing ++ if k = e₀.2.key then [item] else [] := by
      intro e he
      rcases mem_update.mp he with ⟨he, hne⟩ | ⟨e₀, he₀, heq, rfl⟩
      · have hother : k ≠ e.2.key := by
          intro hkk
          simp [(h.entry_iff hp he hk).mpr hkk.symm] at hne
        exact ⟨e, he, rfl, rfl, rfl, by simp [hother]⟩
      · have hown : k = e₀.2.key := ((h.entry_iff hp he₀ hk).mp (by simpa using heq)).symm
        exact ⟨e₀, he₀, rfl, rfl, rfl, by simp [← hown]⟩
    refine ⟨?_, ?_, ?_, ?_, ?_⟩
    · intro e he
      obtain ⟨e₀, he₀, h₁, h₂, -, -⟩ := hsame e he
      rw [h₁, h₂]
      exact h.text e₀ he₀
    · intro e he
      obtain ⟨e₀, he₀, -, h₂, h₃, -⟩ := hsame e he
      rw [h₂, h₃]
      exact h.rows e₀ he₀
    · intro e he
      obtain ⟨e₀, he₀, -, h₂, -, h₄⟩ := hsame e he
      rw [h₄, h₂, h.existing e₀ he₀, hfilter]
    · intro k' hk'
      obtain ⟨e, he, hek⟩ := h.covered k' hk'
      by_cases ht : e.1 = keyText k
      · exact ⟨_, mem_update.mpr (Or.inr ⟨e, he, by simpa using ht, rfl⟩), hek⟩
      · exact ⟨e, mem_update.mpr (Or.inl ⟨he, by simpa using ht⟩), hek⟩
    · have : (byKey.update (·.1 = keyText k)
        fun e => (e.1, { e.2 with existing := e.2.existing ++ [item] })).rows.map
          firstRow = byKey.rows.map firstRow := by
        simp only [Table.update, List.map_map]
        apply List.map_congr_left
        intro e _
        simp only [Function.comp_apply]
        split <;> rfl
      simp only [this]
      exact h.order

theorem empty_grouped : Grouped p newUrl [] [] ∅ where
  text e he := absurd he (mem_empty e)
  rows e he := absurd he (mem_empty e)
  existing e he := absurd he (mem_empty e)
  covered k hk := by cases hk
  order := List.Pairwise.nil

end

/-! ## Both loops -/

theorem rows_grouped (hp : OneLine p newUrl) (rows : List ImportItem) :
    Grouped p newUrl rows [] (rows.zipIdx.foldl (addRow p newUrl) (∅, [])).1 ∧
      (rows.zipIdx.foldl (addRow p newUrl) (∅, [])).2 = positions (rowKeys p newUrl rows) none := by
  induction rows using List.reverseRecOn with
  | nil => exact ⟨empty_grouped, rfl⟩
  | append_singleton rows row ih =>
    obtain ⟨hg, hu⟩ := ih
    rw [List.zipIdx_append, List.foldl_append]
    simp only [List.zipIdx_singleton, List.foldl_cons, List.foldl_nil, Nat.zero_add]
    generalize hst : rows.zipIdx.foldl (addRow p newUrl) (∅, []) = st at hg hu ⊢
    unfold addRow
    simp only [rowKeys_snoc, positions_snoc, length_rowKeys]
    cases hk : rowKey p newUrl row with
    | none => exact ⟨grouped_unchecked hg hk, by simp [hu]⟩
    | some k => exact ⟨grouped_row hp hg hk rfl, by simp [hu]⟩

theorem existing_grouped (hp : OneLine p newUrl) {rows : List ImportItem} {byKey : Groups}
    (h : Grouped p newUrl rows [] byKey) (existing : List ExistingItem) :
    Grouped p newUrl rows existing (existing.foldl (addExisting p newUrl) byKey) := by
  induction existing using List.reverseRecOn with
  | nil => exact h
  | append_singleton existing item ih =>
    rw [List.foldl_append]
    exact grouped_existing hp ih item

variable (p newUrl) in
/-- The report accounts for each row once and names, for every key claimed twice, all who claim it. -/
structure TruePartition (rows : List ImportItem) (existing : List ExistingItem) (report : DuplicateReport) :
    Prop where
  unchecked : report.unchecked = positions (rowKeys p newUrl rows) none
  group : ∀ group ∈ report.groups, group.rows = positions (rowKeys p newUrl rows) (some group.key) ∧
    group.existing = existing.filter fun item => existingKey p newUrl item = some group.key
  reported : ∀ i k, (rowKeys p newUrl rows)[i]? = some (some k) →
    ((∃ group ∈ report.groups, i ∈ group.rows) ↔
      (∃ j, j ≠ i ∧ (rowKeys p newUrl rows)[j]? = some (some k)) ∨
        ∃ item ∈ existing, existingKey p newUrl item = some k)
  apart : ∀ group ∈ report.groups, ∀ i ∈ group.rows, i ∉ report.unchecked
  once : report.groups.Pairwise fun group group' => ∀ i ∈ group.rows, i ∉ group'.rows
  order : (report.groups.map (·.rows.headD 0)).Pairwise (· < ·)
  text : ∀ isNote isNote' username username' urls urls' k k', keyOf p newUrl isNote username urls = some k →
    keyOf p newUrl isNote' username' urls' = some k' → keyText k = keyText k' → k = k'

theorem mem_groups {byKey : Groups} {group : DuplicateGroup} :
    (group ∈ (byKey.rows.map Prod.snd).filter fun group => 1 < group.rows.length || 0 < group.existing.length) ↔
      (∃ text, (text, group) ∈ byKey) ∧ (1 < group.rows.length ∨ group.existing ≠ []) := by
  rw [List.mem_filter, List.mem_map, Bool.or_eq_true, decide_eq_true_eq, decide_eq_true_eq, List.length_pos_iff]
  apply and_congr_left'
  constructor
  · rintro ⟨e, he, rfl⟩
    exact ⟨e.1, he⟩
  · intro ⟨text, h⟩
    exact ⟨_, h, rfl⟩

theorem findDuplicates_partition (hp : OneLine p newUrl) (rows : List ImportItem) (existing : List ExistingItem) :
    TruePartition p newUrl rows existing (findDuplicates p newUrl rows existing) := by
  obtain ⟨hg, hu⟩ := rows_grouped hp rows
  have h := existing_grouped hp hg existing
  unfold findDuplicates
  simp only
  generalize existing.foldl (addExisting p newUrl) (rows.zipIdx.foldl (addRow p newUrl) (∅, [])).1 = byKey at h
  have hsub : ((byKey.rows.map Prod.snd).filter fun group =>
      1 < group.rows.length || 0 < group.existing.length).Sublist (byKey.rows.map Prod.snd) := List.filter_sublist
  have horder : ((byKey.rows.map Prod.snd).map fun group => group.rows.headD 0).Pairwise (· < ·) := by
    rw [List.map_map]
    exact h.order
  refine ⟨hu, ?_, ?_, ?_, ?_, horder.sublist (hsub.map _), ?_⟩
  · intro group hgroup
    obtain ⟨⟨text, he⟩, -⟩ := mem_groups.mp hgroup
    exact ⟨(h.rows _ he).1, h.existing _ he⟩
  · intro i k hk
    constructor
    · intro ⟨group, hgroup, hi⟩
      obtain ⟨⟨text, he⟩, hclaim⟩ := mem_groups.mp hgroup
      have hr := (h.rows _ he).1
      simp only at hr
      rw [hr, mem_positions, hk] at hi
      have hkey : k = group.key := by simpa using hi
      rcases hclaim with hlong | hne
      · rw [hr, ← hkey] at hlong
        exact Or.inl ((one_lt_positions hk).mp hlong)
      · rw [h.existing _ he] at hne
        obtain ⟨item, hitem⟩ := List.exists_mem_of_ne_nil _ hne
        obtain ⟨hmem, hek⟩ := List.mem_filter.mp hitem
        exact Or.inr ⟨item, hmem, by simpa [hkey] using hek⟩
    · intro hclaim
      obtain ⟨e, he, hkey⟩ := h.covered k (List.mem_of_getElem? hk)
      have hr := (h.rows e he).1
      rw [hkey] at hr
      refine ⟨e.2, mem_groups.mpr ⟨⟨e.1, he⟩, ?_⟩, by rw [hr, mem_positions, hk]⟩
      rcases hclaim with hother | ⟨item, hitem, hek⟩
      · left
        rw [hr]
        exact (one_lt_positions hk).mpr hother
      · right
        rw [h.existing e he]
        exact List.ne_nil_of_mem (List.mem_filter.mpr ⟨hitem, by simp [hek, hkey]⟩)
  · intro group hgroup i hi hun
    obtain ⟨⟨text, he⟩, -⟩ := mem_groups.mp hgroup
    have hr := (h.rows _ he).1
    simp only at hr
    rw [hr, mem_positions] at hi
    rw [hu, mem_positions, hi] at hun
    simp at hun
  · refine List.Pairwise.imp_of_mem ?_ (List.pairwise_map.mp (horder.sublist (hsub.map _)))
    intro group group' hgroup hgroup' hlt i hi hi'
    obtain ⟨⟨text, he⟩, -⟩ := mem_groups.mp hgroup
    obtain ⟨⟨text', he'⟩, -⟩ := mem_groups.mp hgroup'
    have hr := (h.rows _ he).1
    have hr' := (h.rows _ he').1
    simp only at hr hr'
    rw [hr, mem_positions] at hi
    rw [hr', mem_positions, hi] at hi'
    have hkey : group.key = group'.key := by simpa using hi'
    rw [hr, hr', hkey] at hlt
    exact Nat.lt_irrefl _ hlt
  · intro isNote isNote' username username' urls urls' k k' hk hk'
    exact (keyText_eq_iff hp hk hk').mp

end

/-- The addresses of one site, and nothing else. -/
def oneSite (value : Text) : Option Url :=
  if value = ascii "https://x.test/login" ∨ value = ascii "https://x.test/" then
    some ⟨ascii "x.test", []⟩
  else none

theorem oneSite_oneLine : OneLine asciiPlatform oneSite where
  hostname value url h := by
    unfold oneSite at h
    split at h
    · cases h
      decide
    · cases h
  toLowerCase s h := by
    intro hm
    obtain ⟨c, hc, he⟩ := List.mem_map.mp hm
    by_cases hup : (0x41 ≤ c && c ≤ 0x5A) = true
    · simp only [hup, if_true, LF] at he
      grind
    · simp only [hup] at he
      exact h (he ▸ hc)

theorem findDuplicates_partition_site :
    TruePartition asciiPlatform oneSite
      [{ blankImportItem 2 with username := ascii "Ann", urls := [ascii "https://x.test/login"] },
        { blankImportItem 3 with type := .note }] [⟨ascii "1", [], ascii "ann ", [ascii "https://x.test/"]⟩]
      ⟨[⟨⟨ascii "x.test", ascii "ann"⟩, [0], [⟨ascii "1", [], ascii "ann ", [ascii "https://x.test/"]⟩]⟩],
        [1]⟩ :=
  findDuplicates_partition oneSite_oneLine _ _

end Keyhole.Import
