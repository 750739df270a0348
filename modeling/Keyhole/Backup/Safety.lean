import Keyhole.Backup.Restore

/-!
# When a restore is safe

Whatever fails, the database that was there should still be readable, the path
should hold one whole database, and no journal should lie beside a database it
does not belong to. The rename takes the database without its journal, and
what comes after it is not undone.
-/

namespace Keyhole.Backup
open Fallible

section
variable {β : Type}

/-- What SQLite reads at the path: the file, and the journal beside it applied. -/
def DataDir.opened (replay : List β → List β → List β) (d : DataDir β) : Option (List β) :=
  d.db.map fun f =>
    match d.wal with
    | none => f.blocks
    | some wal => replay wal f.blocks

/-- `d` is what a restore of `snapshot` over `dir` may leave. -/
structure Safe (replay : List β → List β → List β) (snapshot : List β) (dir d : DataDir β) : Prop where
  recoverable : ∀ c, dir.opened replay = some c →
    d.opened replay = some c ∨ ∃ stamp f, d.replaced stamp = some f ∧ f.blocks = c
  unmixed : d.db.isSome = true → d.db ≠ dir.db → d.wal = none ∧ d.shm = none
  whole : d.db = dir.db ∨ ∃ f, d.db = some f ∧ f.blocks = snapshot

/-- What only the journal adds to the old database is nothing, or is also in
the snapshot or in a database moved aside before. -/
def CommittedAside (replay : List β → List β → List β) (snapshot : List β) (dir : DataDir β) : Prop :=
  ∀ old wal, dir.db = some old → dir.wal = some wal →
    replay wal old.blocks = old.blocks ∨ replay wal old.blocks = snapshot ∨
      ∃ stamp f, dir.replaced stamp = some f ∧ f.blocks = replay wal old.blocks

def Machine.Spares (m : Machine) (replay : List β → List β → List β) (snapshot : List β) (dir : DataDir β) :
    Prop :=
  m.blocked dir = true ∨
  dir.db = none ∧ m.misplaces = true ∨
  m.misplaces = false ∧ (m.fails .copy = true → snapshot.length ≤ m.copied) ∧
    if m.fails .copy || (m.unsettled dir.db.isSome || m.fails .removeWal) then dir.wal = none ∧ dir.shm = none
    else (m.fails .removeShm = true → dir.shm = none) ∧ CommittedAside replay snapshot dir

variable {m : Machine} {replay : List β → List β → List β} {snapshot : List β} {dir d : DataDir β}

/-! ## The name a database is moved to -/

theorem freeName_ok {replaced : Nat → Option (File β)} {i tries stamp : Nat}
    (h : freeName m replaced i tries = .ok stamp) : replaced stamp = none := by
  induction tries generalizing i with
  | zero => cases h
  | succ tries ih =>
    unfold freeName at h
    split at h
    · cases h
    · split at h
      · rename_i hnone
        cases h
        exact Option.isNone_iff_eq_none.mp hnone
      · exact ih h

theorem moved_of_none (h : dir.db = none) : dir.moved m = dir := by
  unfold DataDir.moved
  rw [h]

theorem moved_wal : (dir.moved m).wal = dir.wal := by
  unfold DataDir.moved
  split <;> rfl

theorem moved_shm : (dir.moved m).shm = dir.shm := by
  unfold DataDir.moved
  split <;> rfl

theorem moved_replaced (hb : m.blocked dir = false) (f : File β) :
    (∃ stamp, (dir.moved m).replaced stamp = some f) ↔
      dir.db = some f ∨ ∃ stamp, dir.replaced stamp = some f := by
  unfold Machine.blocked at hb
  simp only [Bool.or_eq_false_iff, Bool.and_eq_false_iff] at hb
  unfold DataDir.moved
  cases hdb : dir.db with
  | none => simp
  | some old =>
    cases hname : replacedPath m dir with
    | error e => simp [hdb, hname, Except.isOk, Except.toBool] at hb
    | ok stamp =>
      have hfree := freeName_ok hname
      simp only [DataDir.moveAside, Option.some.injEq]
      constructor
      · rintro ⟨s, hs⟩
        split at hs
        · exact Or.inl (Option.some.inj hs)
        · exact Or.inr ⟨s, hs⟩
      · rintro (rfl | ⟨s, hs⟩)
        · exact ⟨stamp, if_pos rfl⟩
        · refine ⟨s, ?_⟩
          rw [if_neg, hs]
          rintro rfl
          rw [hfree] at hs
          cases hs

theorem moved_db (hb : m.blocked dir = false) : (dir.moved m).db = none := by
  unfold Machine.blocked at hb
  simp only [Bool.or_eq_false_iff, Bool.and_eq_false_iff] at hb
  unfold DataDir.moved
  cases hdb : dir.db with
  | none => exact hdb
  | some old =>
    cases hname : replacedPath m dir with
    | error e => simp [hdb, hname, Except.isOk, Except.toBool] at hb
    | ok stamp => rfl

/-! ## One place at a time -/

theorem safe_refl : Safe replay snapshot dir dir where
  recoverable _ hc := Or.inl hc
  unmixed _ h := absurd rfl h
  whole := Or.inl rfl

/-- With the whole snapshot in place, safety is about the two companions and what one of them held. -/
theorem safe_copied_iff (hb : m.blocked dir = false) (hfresh : ∀ f, dir.db = some f → f.inode ≠ m.inode)
    {file : File β} (hdb : d.db = some file) (hinode : file.inode = m.inode) (hblocks : file.blocks = snapshot)
    (hreplaced : d.replaced = (dir.moved m).replaced) :
    Safe replay snapshot dir d ↔ (d.wal = none ∧ d.shm = none) ∧ CommittedAside replay snapshot dir := by
  have hne : d.db ≠ dir.db := by
    intro h
    exact hfresh file (h ▸ hdb) hinode
  have haside : ∀ c, (∃ stamp f, d.replaced stamp = some f ∧ f.blocks = c) ↔
      (∃ f, dir.db = some f ∧ f.blocks = c) ∨ ∃ stamp f, dir.replaced stamp = some f ∧ f.blocks = c := by
    intro c
    rw [hreplaced]
    constructor
    · rintro ⟨stamp, f, hf, hc⟩
      rcases (moved_replaced hb f).mp ⟨stamp, hf⟩ with hf | ⟨s, hf⟩
      · exact Or.inl ⟨f, hf, hc⟩
      · exact Or.inr ⟨s, f, hf, hc⟩
    · rintro (⟨f, hf, hc⟩ | ⟨s, f, hf, hc⟩)
      · obtain ⟨stamp, hs⟩ := (moved_replaced hb f).mpr (Or.inl hf)
        exact ⟨stamp, f, hs, hc⟩
      · obtain ⟨stamp, hs⟩ := (moved_replaced hb f).mpr (Or.inr ⟨s, hf⟩)
        exact ⟨stamp, f, hs, hc⟩
  constructor
  · intro h
    have hcomp := h.unmixed (by rw [hdb]; rfl) hne
    refine ⟨hcomp, ?_⟩
    intro old wal hold hw
    rcases h.recoverable (replay wal old.blocks) (by simp [DataDir.opened, hold, hw]) with hc | hc
    · right
      left
      simpa [DataDir.opened, hdb, hcomp.1, hblocks, eq_comm] using hc
    · rcases (haside _).mp hc with ⟨f, hf, hc⟩ | hc
      · rw [hold] at hf
        cases hf
        exact Or.inl hc.symm
      · exact Or.inr (Or.inr hc)
  · rintro ⟨hcomp, hc⟩
    refine ⟨?_, fun _ _ => hcomp, Or.inr ⟨file, hdb, hblocks⟩⟩
    intro c hopen
    rw [haside]
    obtain ⟨old, hold, rfl⟩ := Option.map_eq_some_iff.mp hopen
    cases hw : dir.wal with
    | none => exact Or.inr (Or.inl ⟨old, hold, rfl⟩)
    | some wal =>
      rcases hc old wal hold hw with h | h | h
      · exact Or.inr (Or.inl ⟨old, hold, h.symm⟩)
      · left
        simp [DataDir.opened, hdb, hcomp.1, hblocks, h]
      · exact Or.inr (Or.inr h)

theorem aside_of_no_wal (h : dir.wal = none) : CommittedAside replay snapshot dir := by
  intro old wal _ hw
  rw [h] at hw
  cases hw

theorem same_copied {placed : DataDir β} (hplaced : placed.db.map (·.blocks) = some snapshot)
    (hinode : placed.db.map (·.inode) = some m.inode) (h : placed.Same d) :
    ∃ file, d.db = some file ∧ file.inode = m.inode ∧ file.blocks = snapshot := by
  obtain ⟨file, hfile, hb⟩ := Option.map_eq_some_iff.mp (h.blocks.trans hplaced)
  refine ⟨file, hfile, ?_, hb⟩
  have hi := h.inode.trans hinode
  rw [hfile] at hi
  exact Option.some.inj hi

/-- Every old database comes through, and nothing is mixed up, exactly when the
restore stops before the rename or gets past the copy and either has no
journal to mind or takes it away when it held nothing of its own. -/
theorem restore_safe_iff (m : Machine) (replay : List β → List β → List β) (snapshot : List β)
    (dir : DataDir β) (hfresh : ∀ f, dir.db = some f → f.inode ≠ m.inode) :
    Safe replay snapshot dir ((restore m snapshot).run dir).2 ↔ m.Spares replay snapshot dir := by
  unfold Machine.Spares
  have hends := restore_ends m snapshot dir
  generalize ((restore m snapshot).run dir).1.isOk = ok, ((restore m snapshot).run dir).2 = d at hends ⊢
  cases hends with
  | untouched hb => exact iff_of_true safe_refl (Or.inl hb)
  | missing hb hm =>
    simp only [hb, hm, Bool.false_eq_true, Bool.true_eq_false, false_and, false_or, or_false, and_true]
    constructor
    · intro h
      rcases h.whole with heq | ⟨f, hf, -⟩
      · rw [← heq, moved_db hb]
      · rw [moved_db hb] at hf
        cases hf
    · intro hnone
      rw [moved_of_none hnone]
      exact safe_refl
  | cut hb hm hc =>
    simp only [hb, hm, hc, Bool.false_eq_true, and_false, false_or, true_and, forall_const, Bool.true_or, if_true]
    by_cases hlen : snapshot.length ≤ m.copied
    · obtain ⟨file, hfile, hi, hbl⟩ :=
        same_copied (m := m) rfl rfl (.refl (((dir.moved m).place m).overwrite snapshot))
      rw [List.take_of_length_le hlen, safe_copied_iff hb hfresh hfile hi hbl rfl]
      simp only [DataDir.overwrite, DataDir.place, moved_wal, moved_shm, hlen, true_and]
      exact and_iff_left_of_imp fun h => aside_of_no_wal h.1
    · refine iff_of_false ?_ (fun h => hlen h.1)
      intro h
      rcases h.whole with heq | ⟨f, hf, hblocks⟩
      · exact hfresh _ heq.symm rfl
      · cases hf
        have := congrArg List.length hblocks
        simp only [List.length_take] at this
        omega
  | unsettled hb hm hc hs hd =>
    obtain ⟨file, hfile, hi, hbl⟩ := same_copied (m := m) rfl rfl hd
    rw [safe_copied_iff hb hfresh hfile hi hbl hd.replaced, hd.wal, hd.shm]
    simp only [hb, hm, hc, hs, Bool.false_eq_true, and_false, false_or, true_and, false_implies,
      Bool.or_true, if_true,
      DataDir.overwrite, DataDir.place, moved_wal, moved_shm]
    exact and_iff_left_of_imp fun h => aside_of_no_wal h.1
  | shmLeft hb hm hc hs hr hd =>
    obtain ⟨file, hfile, hi, hbl⟩ := same_copied (m := m) rfl rfl hd
    rw [safe_copied_iff hb hfresh hfile hi hbl hd.replaced, hd.wal, hd.shm]
    simp only [hb, hm, hc, hs, hr, Bool.false_eq_true, and_false, false_or, true_and, false_implies, Bool.or_self,
      if_false, forall_const, DataDir.overwrite, DataDir.place, moved_shm]
  | done hb hm hc hs hr hd =>
    obtain ⟨file, hfile, hi, hbl⟩ := same_copied (m := m) rfl rfl hd
    rw [safe_copied_iff hb hfresh hfile hi hbl hd.replaced, hd.wal, hd.shm]
    simp only [hb, hm, hc, hs, hr, Bool.false_eq_true, and_false, false_or, true_and, false_implies, Bool.or_self,
      if_false, and_self]

end

/-! ## A journal nobody applied -/

def Machine.sound : Machine where
  fails _ := false
  copied := 0
  now := 0
  inode := 2
  user := ⟨0, 0⟩
  windows := false

/-- A server was killed: its last write is in the journal only. -/
def killedServer : DataDir String where
  db := some ⟨1, ["schema", "item-1"], ⟨999, 999⟩, 0o640⟩
  wal := some ["item-2"]
  shm := some []
  replaced _ := none

theorem restore_safe_iff_stopped :
    Safe (fun wal blocks => blocks ++ wal) ["schema"] { killedServer with wal := none }
      ((restore Machine.sound ["schema"]).run { killedServer with wal := none }).2 :=
  (restore_safe_iff Machine.sound (fun wal blocks => blocks ++ wal) ["schema"] { killedServer with wal := none }
    (by simp [killedServer, Machine.sound])).mpr
    (Or.inr (Or.inr ⟨rfl, by simp [Machine.sound], by simp [killedServer, Machine.sound], by
      intro old wal _ hw
      cases hw⟩))

/-- Nothing fails, and the write that was committed is in neither database. -/
theorem restore_drops_journal :
    ¬ ∀ (m : Machine) (replay : List String → List String → List String) (snapshot : List String)
      (dir : DataDir String), (∀ f, dir.db = some f → f.inode ≠ m.inode) →
        Safe replay snapshot dir ((restore m snapshot).run dir).2 := by
  intro h
  have hsafe := h Machine.sound (fun wal blocks => blocks ++ wal) ["schema"] killedServer
    (by simp [killedServer, Machine.sound])
  rcases hsafe.recoverable ["schema", "item-1", "item-2"] rfl with hc | ⟨stamp, f, hf, hc⟩
  · have hpath : ((restore Machine.sound ["schema"]).run killedServer).2.opened (fun wal blocks => blocks ++ wal) =
        some ["schema"] := rfl
    rw [hpath] at hc
    exact absurd hc (by decide)
  · have haside : ((restore Machine.sound ["schema"]).run killedServer).2.replaced = fun s =>
        if s = 0 then some ⟨1, ["schema", "item-1"], ⟨999, 999⟩, 0o640⟩ else none := rfl
    rw [haside] at hf
    simp only at hf
    split at hf
    · cases hf
      exact absurd hc (by decide)
    · cases hf

end Keyhole.Backup
