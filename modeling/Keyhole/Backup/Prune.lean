import Keyhole.Lib.Fallible
import Keyhole.Lib.Newest
import Keyhole.Lib.Numeral
import Mathlib.Data.List.Sort
import Mathlib.Data.Fin.Basic
import Mathlib.Data.Set.List

/-!
# Snapshots and their pruning

The age of a snapshot is read off its name, and a file is taken for a snapshot
by the first and the last few bytes of its name.
-/

namespace Keyhole.Backup
open Fallible Numeral

/-! ## Names -/

abbrev FileName : Type := List (Fin 256)

def bytes (s : String) : FileName := s.toList.map fun c => Fin.ofNat 256 c.toNat

def daysIn (year month : Nat) : Nat :=
  if month = 2 then if year % 4 = 0 ∧ (year % 100 ≠ 0 ∨ year % 400 = 0) then 29 else 28
  else if month ∈ [4, 6, 9, 11] then 30 else 31

/-- A time in UTC, to the second. The layout of a snapshot's name has four digits for the year. -/
structure Stamp where
  year : Nat
  month : Nat
  day : Nat
  hour : Nat
  minute : Nat
  second : Nat
  year_lt : year < 10000
  month_mem : 1 ≤ month ∧ month ≤ 12
  day_mem : 1 ≤ day ∧ day ≤ daysIn year month
  hour_lt : hour < 24
  minute_lt : minute < 60
  second_lt : second < 60

def Stamp.fields (s : Stamp) : List Nat := [s.year, s.month, s.day, s.hour, s.minute, s.second]

def Stamp.Before (s t : Stamp) : Prop := s.fields < t.fields

def digit (n : Nat) : Fin 256 := Fin.ofNat 256 (48 + n)

def twoDigits (n : Nat) : FileName := numeral digit 10 2 n

/-- `snapshotTimeFormat` applied. -/
def Stamp.format (s : Stamp) : FileName :=
  numeral digit 10 4 s.year ++ (twoDigits s.month ++ (twoDigits s.day ++ (bytes "T" ++
    (twoDigits s.hour ++ (twoDigits s.minute ++ (twoDigits s.second ++ bytes "Z"))))))

def snapshotPrefix : FileName := bytes "keyhole-"

def snapshotSuffix : FileName := bytes ".db"

def snapshotName (time : Stamp) : FileName := snapshotPrefix ++ (time.format ++ snapshotSuffix)

/-! ## The directory -/

structure Entry where
  name : FileName
  isDir : Bool
  deriving DecidableEq, Repr

structure Folder where
  entries : List Entry
  nodup : (entries.map Entry.name).Nodup

def Folder.has (dir : Folder) (name : FileName) : Bool := dir.entries.any (·.name = name)

def Folder.remove (dir : Folder) (name : FileName) : Folder where
  entries := dir.entries.filter (·.name ≠ name)
  nodup := dir.nodup.sublist (List.filter_sublist.map _)

def Folder.write (dir : Folder) (name : FileName) : Folder where
  entries := (dir.remove name).entries ++ [{ name, isDir := false }]
  nodup := by
    rw [List.map_append, List.nodup_append]
    refine ⟨(dir.remove name).nodup, by simp, ?_⟩
    intro a ha b hb
    obtain ⟨e, he, rfl⟩ := List.mem_map.mp ha
    have := (List.mem_filter.mp he).2
    simp_all

inductive BackupError
  | createDirectory
  | alreadyExists (name : FileName)
  | stat
  | vacuum
  | readDirectory
  /-- `removed` is what was removed before. -/
  | remove (name : FileName) (removed : List FileName)
  deriving DecidableEq, Repr

/-- Which file operations fail, and whether a copy that fails leaves a file behind. -/
structure Disk where
  mkdirFails : Bool
  statFails : Bool
  vacuumFails : Bool
  vacuumLeaves : Bool
  readDirFails : Bool
  removeFails : FileName → Bool

def snapshot (disk : Disk) (time : Stamp) : Fallible Folder BackupError FileName := do
  if disk.mkdirFails then fail .createDirectory
  let name := snapshotName time
  if disk.statFails then fail .stat
  if ← gets (·.has name) then fail (.alreadyExists name)
  if disk.vacuumFails then do
    if disk.vacuumLeaves then modify (·.write name)
    fail .vacuum
  modify (·.write name)
  pure name

def removeAll (disk : Disk) : (names removed : List FileName) → Fallible Folder BackupError (List FileName)
  | [], removed => pure removed
  | name :: names, removed =>
    if disk.removeFails name then fail (.remove name removed) else do
      modify (·.remove name)
      removeAll disk names (removed ++ [name])

def isCandidate (name : FileName) : Bool := snapshotPrefix.isPrefixOf name && snapshotSuffix.isSuffixOf name

def Folder.candidates (dir : Folder) : List FileName :=
  ((dir.entries.filter (!·.isDir)).map Entry.name).filter isCandidate

def newestFirst (names : List FileName) : List FileName := names.insertionSort (· ≥ ·)

def prune (disk : Disk) (keep : Int) : Fallible Folder BackupError (List FileName) :=
  if keep ≤ 0 then pure [] else if disk.readDirFails then fail .readDirectory else do
    let names := newestFirst (← gets Folder.candidates)
    if names.length ≤ keep then pure [] else removeAll disk (names.drop keep.toNat) []

def defaultBackupKeep : Int := 14

def runBackup (disk : Disk) (keep : Int) (time : Stamp) :
    Fallible Folder BackupError (FileName × List FileName) := do
  let path ← snapshot disk time
  let removed ← prune disk keep
  pure (path, removed)

/-! ## The order of names is that of times -/

theorem digit_lt_iff : ∀ i < 10, ∀ j < 10, digit i < digit j ↔ i < j := by decide

theorem twoDigits_append_lt_iff {n m : Nat} {u v : FileName} (hn : n < 100) (hm : m < 100) :
    twoDigits n ++ u < twoDigits m ++ v ↔ n < m ∨ n = m ∧ u < v :=
  numeral_append_lt_iff digit_lt_iff hn hm

theorem daysIn_lt (year month : Nat) : daysIn year month < 100 := by
  unfold daysIn
  split
  · split <;> omega
  · split <;> omega

theorem append_lt_append_left_iff (p : FileName) {u v : FileName} : p ++ u < p ++ v ↔ u < v := by
  rw [append_lt_append_iff rfl]
  simp

theorem snapshotName_lt_iff (s t : Stamp) : snapshotName s < snapshotName t ↔ s.Before t := by
  have hs := s.month_mem
  have ht := t.month_mem
  have hsd := lt_of_le_of_lt s.day_mem.2 (daysIn_lt _ _)
  have htd := lt_of_le_of_lt t.day_mem.2 (daysIn_lt _ _)
  have hsc := s.hour_lt
  have htc := t.hour_lt
  have hsm := s.minute_lt
  have htm := t.minute_lt
  have hss := s.second_lt
  have hts := t.second_lt
  unfold snapshotName Stamp.format Stamp.Before Stamp.fields
  simp only [append_lt_append_left_iff, List.append_assoc]
  rw [numeral_append_lt_iff digit_lt_iff s.year_lt t.year_lt, twoDigits_append_lt_iff (by omega) (by omega),
    twoDigits_append_lt_iff hsd htd, append_lt_append_left_iff, twoDigits_append_lt_iff (by omega) (by omega),
    twoDigits_append_lt_iff (by omega) (by omega), twoDigits_append_lt_iff (by omega) (by omega)]
  simp only [List.cons_lt_cons_iff, lt_self_iff_false, and_false, or_false]

theorem Stamp.eq_of_fields {s t : Stamp} (h : s.fields = t.fields) : s = t := by
  cases s
  cases t
  simp only [fields, List.cons.injEq, and_true] at h
  obtain ⟨rfl, rfl, rfl, rfl, rfl, rfl⟩ := h
  rfl

theorem snapshotName_inj {s t : Stamp} (h : snapshotName s = snapshotName t) : s = t := by
  have h₁ := (snapshotName_lt_iff s t).not.mp (by simp [h])
  have h₂ := (snapshotName_lt_iff t s).not.mp (by simp [h])
  exact Stamp.eq_of_fields (le_antisymm (not_lt.mp h₂) (not_lt.mp h₁))

theorem isCandidate_snapshotName (s : Stamp) : isCandidate (snapshotName s) = true := by
  have hp : snapshotPrefix <+: snapshotName s := List.prefix_append _ _
  have hs : snapshotSuffix <:+ snapshotName s := by
    unfold snapshotName
    rw [← List.append_assoc]
    exact List.suffix_append _ _
  simp [isCandidate, hp, hs]

/-! ## What a pruning leaves -/

def Folder.Holds (dir : Folder) (s : Stamp) : Prop := ⟨snapshotName s, false⟩ ∈ dir.entries

def IsSnapshotName (name : FileName) : Prop := ∃ s, snapshotName s = name

/-- Fewer than `keep` snapshots are later than `s`. -/
def Folder.Newest (dir : Folder) (keep : Int) (s : Stamp) : Prop :=
  dir.Holds s ∧ ∀ later : List Stamp, later.Nodup → (∀ t ∈ later, dir.Holds t ∧ s.Before t) →
    later.length < keep

/-- Whatever fails on the way, only snapshots are deleted, and none of the newest `keep`. -/
def Folder.Spared (dir : Folder) (keep : Int) : Prop :=
  ∀ disk, let after := ((prune disk keep).run dir).2
    (∀ e ∈ dir.entries, e ∉ after.entries → IsSnapshotName e.name) ∧ ∀ s, dir.Newest keep s →
      after.Holds s

theorem mem_candidates {dir : Folder} {name : FileName} :
    name ∈ dir.candidates ↔ ⟨name, false⟩ ∈ dir.entries ∧ isCandidate name = true := by
  unfold Folder.candidates
  rw [List.mem_filter, List.mem_map]
  constructor
  · rintro ⟨⟨e, he, rfl⟩, hc⟩
    obtain ⟨he, hd⟩ := List.mem_filter.mp he
    obtain ⟨name, isDir⟩ := e
    simp only [Bool.not_eq_true'] at hd
    subst hd
    exact ⟨he, hc⟩
  · intro ⟨he, hc⟩
    exact ⟨⟨_, List.mem_filter.mpr ⟨he, rfl⟩, rfl⟩, hc⟩

theorem nodup_candidates (dir : Folder) : dir.candidates.Nodup :=
  (dir.nodup.sublist (List.filter_sublist.map _)).filter _

theorem holds_iff {dir : Folder} {s : Stamp} : dir.Holds s ↔ snapshotName s ∈ dir.candidates := by
  rw [mem_candidates]
  exact ⟨fun h => ⟨h, isCandidate_snapshotName s⟩, fun h => h.1⟩

theorem perm_newestFirst (names : List FileName) : (newestFirst names).Perm names := List.perm_insertionSort _ _

theorem newestFirst_descending {names : List FileName} (h : names.Nodup) :
    (newestFirst names).Pairwise (· > ·) := by
  have hs : (newestFirst names).Pairwise (· ≥ ·) := List.pairwise_insertionSort _ _
  have hn : (newestFirst names).Nodup := (perm_newestFirst names).nodup_iff.mpr h
  exact (hs.and hn).imp fun ⟨hge, hne⟩ => lt_of_le_of_ne hge hne.symm

@[simp] theorem mem_remove {dir : Folder} {name : FileName} {e : Entry} :
    e ∈ (dir.remove name).entries ↔ e ∈ dir.entries ∧ e.name ≠ name := by
  simp [Folder.remove]

theorem removeAll_kept {disk : Disk} {names removed : List FileName} {dir : Folder} {e : Entry}
    (he : e ∈ dir.entries) (hn : e.name ∉ names) : e ∈ ((removeAll disk names removed).run dir).2.entries := by
  induction names generalizing removed dir with
  | nil => exact he
  | cons name names ih =>
    rw [List.mem_cons, not_or] at hn
    unfold removeAll
    by_cases hf : disk.removeFails name
    · rw [if_pos hf]
      exact he
    · rw [if_neg hf, run_bind, run_modify]
      exact ih (mem_remove.mpr ⟨he, hn.1⟩) hn.2

theorem removeAll_gone {disk : Disk} (hd : ∀ name, disk.removeFails name = false) {names removed : List FileName}
    {dir : Folder} {e : Entry} (h : e ∈ ((removeAll disk names removed).run dir).2.entries) :
    e ∈ dir.entries ∧ e.name ∉ names := by
  induction names generalizing removed dir with
  | nil => exact ⟨h, List.not_mem_nil⟩
  | cons name names ih =>
    unfold removeAll at h
    rw [if_neg (by simp [hd]), run_bind, run_modify] at h
    obtain ⟨he, hn⟩ := ih h
    rw [mem_remove] at he
    rw [List.mem_cons, not_or]
    exact ⟨he.1, he.2, hn⟩

def Folder.outdated (dir : Folder) (keep : Int) : List FileName := (newestFirst dir.candidates).drop keep.toNat

theorem prune_kept {disk : Disk} {keep : Int} {dir : Folder} {e : Entry} (he : e ∈ dir.entries)
    (hn : e.name ∉ dir.outdated keep) : e ∈ ((prune disk keep).run dir).2.entries := by
  unfold prune
  by_cases hk : keep ≤ 0
  · rw [if_pos hk]
    exact he
  rw [if_neg hk]
  by_cases hr : disk.readDirFails
  · rw [if_pos hr]
    exact he
  rw [if_neg hr, run_bind, run_gets]
  by_cases hl : (newestFirst dir.candidates).length ≤ keep
  · simp only [if_pos hl]
    exact he
  · simp only [if_neg hl]
    exact removeAll_kept he hn

/-- The machine on which nothing fails. -/
def sound : Disk where
  mkdirFails := false
  statFails := false
  vacuumFails := false
  vacuumLeaves := false
  readDirFails := false
  removeFails := fun _ => false

theorem prune_sound {keep : Int} (hk : 1 ≤ keep) {dir : Folder} {e : Entry}
    (h : e ∈ ((prune sound keep).run dir).2.entries) : e.name ∉ dir.outdated keep := by
  unfold prune at h
  rw [if_neg (by omega), if_neg (by simp [sound]), run_bind, run_gets] at h
  by_cases hl : (newestFirst dir.candidates).length ≤ keep
  · have : dir.outdated keep = [] := List.drop_eq_nil_of_le (by omega)
    rw [this]
    exact List.not_mem_nil
  · simp only [if_neg hl] at h
    exact (removeAll_gone (fun _ => rfl) h).2

/-! ## When it is the newest that are left -/

def Folder.OnlySnapshots (dir : Folder) : Prop := ∀ name ∈ dir.candidates, IsSnapshotName name

theorem among_iff_newest {dir : Folder} {keep : Int} (hk : 1 ≤ keep) {s : Stamp} (hs : dir.Holds s) :
    Newest.Among (newestFirst dir.candidates) IsSnapshotName keep.toNat (snapshotName s) ↔ dir.Newest keep s := by
  have hmem : ∀ name, name ∈ newestFirst dir.candidates ↔ name ∈ dir.candidates :=
    fun _ => (perm_newestFirst _).mem_iff
  constructor
  · intro h
    refine ⟨hs, fun later hn hl => ?_⟩
    have := h (later.map snapshotName) (hn.map fun _ _ => snapshotName_inj) ?_
    · rw [List.length_map] at this
      omega
    intro name hname
    obtain ⟨t, ht, rfl⟩ := List.mem_map.mp hname
    exact ⟨(hmem _).mpr (holds_iff.mp (hl t ht).1), ⟨t, rfl⟩, (snapshotName_lt_iff s t).mpr (hl t ht).2⟩
  · intro ⟨_, h⟩ above hn ha
    have hex : above ∈ Set.range (List.map snapshotName) := by
      rw [Set.range_list_map]
      exact fun name hname => (ha name hname).2.1
    obtain ⟨later, rfl⟩ := hex
    have := h later (List.Nodup.of_map _ hn) fun t ht => by
      obtain ⟨hc, _, hlt⟩ := ha _ (List.mem_map_of_mem ht)
      exact ⟨holds_iff.mpr ((hmem _).mp hc), (snapshotName_lt_iff s t).mp hlt⟩
    rw [List.length_map]
    omega

theorem spared_iff_drop {dir : Folder} {keep : Int} (hk : 1 ≤ keep) :
    dir.Spared keep ↔ (∀ name ∈ dir.outdated keep, IsSnapshotName name) ∧
      ∀ name ∈ dir.outdated keep, IsSnapshotName name →
        ¬ Newest.Among (newestFirst dir.candidates) IsSnapshotName keep.toNat name := by
  have hcand : ∀ name ∈ dir.outdated keep, name ∈ dir.candidates := fun name h =>
    (perm_newestFirst _).mem_iff.mp (List.mem_of_mem_drop h)
  constructor
  · intro h
    obtain ⟨hgone, hkept⟩ := h sound
    constructor
    · intro name hname
      exact hgone ⟨name, false⟩ (mem_candidates.mp (hcand name hname)).1 fun h => prune_sound hk h hname
    · rintro _ hname ⟨s, rfl⟩ ha
      have hs := holds_iff.mpr (hcand _ hname)
      exact prune_sound hk (hkept s ((among_iff_newest hk hs).mp ha)) hname
  · intro ⟨hgone, hkept⟩ disk
    constructor
    · intro e he hn
      by_contra hg
      exact hn (prune_kept he fun h => hg (hgone _ h))
    · intro s hs
      apply prune_kept hs.1
      intro h
      exact hkept _ h ⟨s, rfl⟩ ((among_iff_newest hk hs.1).mpr hs)

theorem spared_iff (dir : Folder) {keep : Int} (hk : 1 ≤ keep) :
    dir.Spared keep ↔ dir.candidates.length ≤ keep ∨ dir.OnlySnapshots := by
  have hl : (newestFirst dir.candidates).length = dir.candidates.length := (perm_newestFirst _).length_eq
  rw [spared_iff_drop hk, Folder.outdated, Newest.drop_law (newestFirst_descending (nodup_candidates dir)), hl]
  apply or_congr
  · omega
  · exact forall_congr' fun name => imp_congr_left (perm_newestFirst _).mem_iff

/-! ## After a snapshot -/

theorem snapshot_ok {disk : Disk} {time : Stamp} {dir dir' : Folder} {name : FileName}
    (h : (snapshot disk time).run dir = (.ok name, dir')) :
    dir.has (snapshotName time) = false ∧ name = snapshotName time ∧ dir' = dir.write (snapshotName time) := by
  unfold snapshot at h
  by_cases hm : disk.mkdirFails
  · simp [hm, run_bind] at h
  by_cases hs : disk.statFails
  · simp [hm, hs, run_bind] at h
  by_cases he : dir.has (snapshotName time)
  · simp [hm, hs, he, run_bind] at h
  by_cases hv : disk.vacuumFails
  · by_cases hl : disk.vacuumLeaves <;> simp [hm, hs, he, hv, hl, run_bind] at h
  · simp [hm, hs, he, hv, run_bind] at h
    exact ⟨Bool.not_eq_true _ ▸ he, h.1.symm, h.2.symm⟩

theorem write_entries {dir : Folder} {name : FileName} (h : dir.has name = false) :
    (dir.write name).entries = dir.entries ++ [⟨name, false⟩] := by
  have : (dir.remove name).entries = dir.entries := by
    apply List.filter_eq_self.mpr
    simpa [Folder.has] using h
  exact congrArg (· ++ [(⟨name, false⟩ : Entry)]) this

theorem write_candidates {dir : Folder} {time : Stamp} (h : dir.has (snapshotName time) = false) :
    (dir.write (snapshotName time)).candidates = dir.candidates ++ [snapshotName time] := by
  unfold Folder.candidates
  rw [write_entries h]
  simp [isCandidate_snapshotName]

theorem write_newest {dir : Folder} {time : Stamp} {keep : Int} (hk : 1 ≤ keep)
    (h : dir.has (snapshotName time) = false) (hl : ∀ s, dir.Holds s → s.Before time) :
    (dir.write (snapshotName time)).Newest keep time := by
  constructor
  · rw [Folder.Holds, write_entries h]
    simp
  intro later _ ha
  cases later with
  | nil => exact hk
  | cons t later =>
    obtain ⟨ht, hb⟩ := ha t List.mem_cons_self
    rw [holds_iff, write_candidates h, List.mem_append, List.mem_singleton] at ht
    rcases ht with ht | ht
    · exact absurd hb (lt_asymm (hl t (holds_iff.mpr ht)))
    · rw [snapshotName_inj ht] at hb
      exact absurd hb (lt_irrefl _)

theorem write_onlySnapshots {dir : Folder} {time : Stamp} (h : dir.has (snapshotName time) = false) :
    (dir.write (snapshotName time)).OnlySnapshots ↔ dir.OnlySnapshots := by
  unfold Folder.OnlySnapshots
  rw [write_candidates h]
  simp only [List.mem_append, List.mem_singleton]
  constructor
  · exact fun ho name hn => ho name (Or.inl hn)
  · rintro ho name (hn | rfl)
    · exact ho name hn
    · exact ⟨time, rfl⟩

/-- On its own, and after a snapshot later than those there, whose file is then still there. -/
theorem prune_spares_iff (dir : Folder) {keep : Int} (hk : 1 ≤ keep) :
    (dir.Spared keep ↔ dir.candidates.length ≤ keep ∨ dir.OnlySnapshots) ∧
    ∀ disk time name dir', (∀ s, dir.Holds s → s.Before time) →
      (snapshot disk time).run dir = (.ok name, dir') →
      ((dir'.Spared keep ∧ ∀ disk', ((prune disk' keep).run dir').2.Holds time) ↔
        dir.candidates.length < keep ∨ dir.OnlySnapshots) := by
  refine ⟨spared_iff dir hk, ?_⟩
  intro disk time name dir' hl hs
  obtain ⟨hnew, -, rfl⟩ := snapshot_ok hs
  have hlen : (dir.write (snapshotName time)).candidates.length ≤ keep ↔ dir.candidates.length < keep := by
    rw [write_candidates hnew, List.length_append, List.length_singleton]
    omega
  have hiff := spared_iff (dir.write (snapshotName time)) hk
  rw [hlen, write_onlySnapshots hnew] at hiff
  rw [← hiff]
  constructor
  · exact fun h => h.1
  · exact fun h => ⟨h, fun disk' => (h disk').2 time (write_newest hk hnew hl)⟩

def july : Stamp where
  year := 2026
  month := 7
  day := 27
  hour := 14
  minute := 30
  second := 0
  year_lt := by decide
  month_mem := by decide
  day_mem := by decide
  hour_lt := by decide
  minute_lt := by decide
  second_lt := by decide

def monthBefore : Stamp := { july with month := 6, month_mem := by decide, day_mem := by decide }

def june : Folder where
  entries := [⟨snapshotName monthBefore, false⟩]
  nodup := by simp

theorem june_before (s : Stamp) (h : june.Holds s) : s.Before july := by
  rw [Folder.Holds, june, List.mem_singleton, Entry.mk.injEq] at h
  rw [snapshotName_inj h.1]
  unfold Stamp.Before
  decide

theorem june_onlySnapshots : june.OnlySnapshots := by
  intro name h
  obtain ⟨h, -⟩ := mem_candidates.mp h
  rw [june, List.mem_singleton, Entry.mk.injEq] at h
  exact ⟨monthBefore, h.1.symm⟩

theorem prune_spares_june :
    (june.write (snapshotName july)).Spared 1 ∧
      ∀ disk', ((prune disk' 1).run (june.write (snapshotName july))).2.Holds july :=
  ((prune_spares_iff june (show (1 : Int) ≤ 1 by decide)).2 sound july _ _ june_before rfl).mpr
    (Or.inr june_onlySnapshots)

/-- A directory in which the operator has set a copy aside. -/
def setAside : Folder where
  entries := [⟨bytes "keyhole-old.db", false⟩]
  nodup := by decide

theorem setAside_holds (s : Stamp) : ¬ setAside.Holds s := by
  intro h
  have : (snapshotName s).length = 27 := by
    simp [snapshotName, Stamp.format, twoDigits, snapshotPrefix, snapshotSuffix, bytes]
  rw [Folder.Holds, setAside, List.mem_singleton, Entry.mk.injEq] at h
  rw [h.1] at this
  exact absurd this (by decide)

theorem snapshot_pruned :
    ¬ ∀ (dir : Folder) (keep : Int) (disk : Disk) (time : Stamp) (name : FileName) (dir' : Folder), 1 ≤ keep →
      (∀ s, dir.Holds s → s.Before time) → (snapshot disk time).run dir = (.ok name, dir') →
      dir'.Spared keep ∧ ∀ disk', ((prune disk' keep).run dir').2.Holds time := by
  intro h
  have := (h setAside 1 sound july _ _ (by decide) (fun s hs => absurd hs (setAside_holds s)) rfl).2 sound
  exact absurd this (by unfold Folder.Holds; decide)

end Keyhole.Backup
