import Mathlib.Data.List.Perm.Subperm
import Keyhole.Backup.Safety
import Keyhole.Update.Verdict

/-!
# What a rollback takes back

The snapshot is taken while the server still runs, and it is what a rollback
puts back once the new binary may have touched the database. What the server
commits between the snapshot and its stop is in neither.
-/

namespace Keyhole.Update
open Fallible

variable {ω : Type}

/-! ## The snapshot -/

/-- What the running server commits while an update gets as far as the snapshot. -/
def Env.snapshotted (env : Env ω) : List ω :=
  [.latest, .downloadBinary, .downloadChecksums, .downloadSignature, .verify, .snapshot].flatMap env.writes

variable {env : Env ω} {opts : Options} {w : World ω} {entries : List (Entry ω)}

theorem arrive_arrive (w : World ω) (v u : List ω) : (w.arrive v).arrive u = w.arrive (v ++ u) := by
  obtain ⟨binary, previous, database, snapshot, running⟩ := w
  cases running with
  | none => rfl
  | some b => simp only [World.arrive, append_append]

theorem findAsset_run {outcome : Outcome} {name : String} (h : (env.release.assets name).isNone = false)
    (w : World ω) :
    (findAsset env outcome name).run w = (.ok (), w) := by
  unfold findAsset
  cases ha : env.release.assets name with
  | none => simp [ha] at h
  | some url => rfl

theorem run_quiet {ε : Type} {s : Step} {e : ε} (h : (env.fate s).isOk = true) (w : World ω) :
    (perform env s e id).run w = (.ok (), w.arrive (env.writes s)) := by
  rw [run_perform, h, if_pos rfl]
  simp only [id, ite_self]

theorem prepare_run (ha : env.attempts opts w = true) (hd : w.database = .intact entries) :
    ((prepare env opts).run w).2.database = .intact (entries ++ w.commits env.snapshotted) := by
  unfold Env.attempts Env.idle at ha
  simp only [Bool.and_eq_true, Bool.or_eq_false_iff, Bool.not_eq_true', Bool.not_eq_false',
    decide_eq_false_iff_not] at ha
  obtain ⟨⟨⟨hlatest, ⟨hversion, hcheck⟩, hasset, hsums, hsig, hbinary, hchecksums, hsignature, hverify⟩,
    -⟩,
    hsnapshot⟩ := ha
  unfold prepare compareVersions fetch
  simp only [hversion, hcheck, Bool.false_eq_true, if_false, run_bind, run_pure, run_quiet hlatest,
    findAsset_run hasset,
    findAsset_run hsums, findAsset_run hsig, run_quiet hbinary, run_quiet hchecksums, run_quiet hsignature,
    run_quiet hverify, arrive_arrive, backupSnapshot_run]
  have hwrites : env.writes .latest ++ env.writes .downloadBinary ++ env.writes .downloadChecksums ++
      env.writes .downloadSignature ++ env.writes .verify ++ env.writes .snapshot = env.snapshotted := by
    simp [Env.snapshotted]
  rw [hwrites, arrive_intact hd]
  simp only [run_act, hsnapshot, if_true]
  cases (env.fate .snapshot).lands <;> exact arrive_intact hd _

/-! ## The restore -/

/-- What is in the database is what SQLite reads at the path; of a broken one nothing is promised. -/
def Reads (replay : List (Entry ω) → List (Entry ω) → List (Entry ω)) (dir : Backup.DataDir (Entry ω)) :
    Database ω → Prop
  | .intact entries => dir.opened replay = some entries
  | .broken => True

/-- The restore of the data directory is the step of the rollback, with one of its fates. -/
theorem restore_fate (m : Backup.Machine) (replay : List (Entry ω) → List (Entry ω) → List (Entry ω))
    (snapshot : List (Entry ω)) (dir : Backup.DataDir (Entry ω)) :
    ∃ fate : RestoreFate, fate.isOk = ((Backup.restore m snapshot).run dir).1.isOk ∧
      (m.blocked dir = true → fate = .failed .untouched) ∧
      ∀ database, Reads replay dir database →
        Reads replay ((Backup.restore m snapshot).run dir).2 (fate.apply snapshot database) := by
  have hends := Backup.restore_ends m snapshot dir
  revert hends
  generalize ((Backup.restore m snapshot).run dir).1.isOk = ok
  generalize ((Backup.restore m snapshot).run dir).2 = d
  intro hends
  cases hends with
  | untouched hb => exact ⟨.failed .untouched, rfl, fun _ => rfl, fun _ h => h⟩
  | missing hb hm => exact ⟨.failed .broken, rfl, by simp [hb], fun _ _ => trivial⟩
  | cut hb hm hc => exact ⟨.failed .broken, rfl, by simp [hb], fun _ _ => trivial⟩
  | unsettled hb hm hc hs hd => exact ⟨.failed .broken, rfl, by simp [hb], fun _ _ => trivial⟩
  | shmLeft hb hm hc hs hr hd =>
    refine ⟨.failed .snapshot, rfl, by simp [hb], fun _ _ => ?_⟩
    obtain ⟨file, hfile, -, hblocks⟩ := Backup.same_copied (m := m) rfl rfl hd
    simp [RestoreFate.apply, Reads, Backup.DataDir.opened, hfile, hd.wal, hblocks]
  | done hb hm hc hs hr hd =>
    refine ⟨.ok, rfl, by simp [hb], fun _ _ => ?_⟩
    obtain ⟨file, hfile, -, hblocks⟩ := Backup.same_copied (m := m) rfl rfl hd
    simp [RestoreFate.apply, Reads, Backup.DataDir.opened, hfile, hd.wal, hblocks]

/-! ## What is left of the writes -/

/-- Every write that was committed before the service was stopped is there, as often as it was
committed, and `old` runs on it. -/
def World.Keeps (w : World ω) (committed : List ω) (w' : World ω) : Prop :=
  (∀ entries, w.database = .intact entries →
    ∃ kept, w'.database = .intact kept ∧ (entries ++ w.commits committed).Subperm kept) ∧
  w'.running = some .old

theorem keeps_intact {w w' : World ω} {entries kept : List (Entry ω)} (hd : w.database = .intact entries)
    (hd' : w'.database = .intact kept) (committed : List ω) :
    w.Keeps committed w' ↔ (entries ++ w.commits committed).Subperm kept ∧ w'.running = some .old := by
  refine and_congr_left fun _ => ⟨fun h => ?_, fun h entries' he => ⟨kept, hd', ?_⟩⟩
  · obtain ⟨kept', hk, hsub⟩ := h entries hd
    cases hd'.symm.trans hk
    exact hsub
  · cases hd.symm.trans he
    exact h

theorem commits_append (w : World ω) (v u : List ω) : w.commits (v ++ u) = w.commits v ++ w.commits u := by
  unfold World.commits
  cases w.running with
  | none => rfl
  | some b => exact List.map_append

theorem rollsBack_onTop (h : env.rollsBack = true) (since : List (Entry ω)) :
    env.onTop since = some (if env.written then [] else since) := by
  unfold Env.rollsBack at h
  unfold Env.onTop
  cases hw : env.written with
  | false => rfl
  | true =>
    cases hr : env.restore with
    | ok => rfl
    | failed left => simp [hw, hr, RestoreFate.isOk] at h

/-- A rollback loses nothing exactly when the new binary was never in place, or whatever is
committed between the snapshot and the stop is committed again after the restart. -/
theorem rollback_keeps_iff (env : Env ω) (opts : Options) {w : World ω} (hbinary : w.binary = some .old)
    (hrolledBack : (reported ((update env opts).run w).1).1.rolledBack = true) :
    w.Keeps (env.snapshotted ++ env.writes .stop) ((update env opts).run w).2 ↔
      (env.written = true → (w.commits (env.writes .stop)).Subperm env.tail) := by
  have hcourse := update_course env opts hbinary
  revert hrolledBack hcourse
  generalize reported ((update env opts).run w).1 = r
  generalize ((update env opts).run w).2 = w'
  intro hrolledBack hcourse
  cases hcourse with
  | early ha hr hw =>
    rw [hr.2.1] at hrolledBack
    cases hrolledBack
  | stopFailed ha hs hleft => cases hrolledBack
  | installed ha hs hi hb hr => cases hrolledBack
  | stuck ha hs hi hr he hb hd hh => cases hrolledBack
  | @rolledBack previous entries s ha hs hi hr he =>
    have hrunning : (env.unwound previous entries (w.commits (env.writes .stop))).running = some .old := by
      rw [unwound_running]
      exact (rollsBack_old hr).2
    have hdatabase : (env.unwound previous entries (w.commits (env.writes .stop))).database =
        .intact (entries ++ ((if env.written then [] else w.commits (env.writes .stop)) ++ env.tail)) := by
      rw [unwound_database, rollsBack_onTop hr]
      rfl
    obtain ⟨before, hbefore⟩ : ∃ before, w.database = .intact before := by
      cases hd : w.database with
      | intact before => exact ⟨before, rfl⟩
      | broken => simp [Env.attempts, hd, Database.usable] at ha
    have hentries : before ++ w.commits env.snapshotted = entries := by
      rw [prepare_run ha hbefore] at he
      exact Database.intact.inj he
    have hkeeps : w.Keeps (env.snapshotted ++ env.writes .stop)
          (env.unwound previous entries (w.commits (env.writes .stop))) ↔
        (entries ++ w.commits (env.writes .stop)).Subperm
          (entries ++ ((if env.written then [] else w.commits (env.writes .stop)) ++ env.tail)) := by
      rw [keeps_intact hbefore hdatabase, hrunning, commits_append, ← List.append_assoc, hentries]
      exact and_iff_left rfl
    rw [hkeeps, List.subperm_append_left]
    cases env.written with
    | true => simp
    | false => simpa using (List.sublist_append_left _ _).subperm

/-- `upgrade` with an ill new binary, while the server commits `late` before one of the steps. -/
def lateWrite (s : Step) : Env String :=
  { upgrade .ok fun s' => if s' = .health then .failed false else .ok with
    writes := fun s' => if s' = s then ["late"] else [] }

/-- What is committed before the snapshot is kept. -/
theorem rollback_keeps_iff_verify :
    upgradeWorld.Keeps ((lateWrite .verify).snapshotted ++ [])
      ((update (lateWrite .verify) upgradeOptions).run upgradeWorld).2 :=
  (rollback_keeps_iff (lateWrite .verify) upgradeOptions rfl (by decide)).mpr fun _ => List.nil_subperm

/-- What is committed after the snapshot is taken is gone, and the rollback is reported as a success. -/
theorem rollback_loses_late_write :
    let r := (update (lateWrite .stop) upgradeOptions).run upgradeWorld
    (reported r.1).1.rolledBack = true ∧
      ¬ upgradeWorld.Keeps ((lateWrite .stop).snapshotted ++ (lateWrite .stop).writes .stop) r.2 := by
  refine ⟨by decide, fun h => ?_⟩
  obtain ⟨kept, hkept, hsub⟩ := h.1 [⟨.old, "entry"⟩] rfl
  have hfinal : ((update (lateWrite .stop) upgradeOptions).run upgradeWorld).2.database =
      .intact [⟨.old, "entry"⟩] := by decide
  cases hfinal.symm.trans hkept
  exact absurd hsub.length_le (by decide)

end Keyhole.Update
