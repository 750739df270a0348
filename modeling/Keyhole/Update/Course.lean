import Keyhole.Update.Install

/-!
# How an update goes

Each phase from its fates alone: whether it goes on, and what it makes of the
binary, the database and the service.
-/

namespace Keyhole.Update
open Fallible

variable {ω : Type} {ε : Type}

/-! ## Writes that land -/

/-- What the running server has committed in the meantime, and nothing else. -/
structure World.Later (w w' : World ω) : Prop where
  binary : w'.binary = w.binary
  previous : w'.previous = w.previous
  running : w'.running = w.running
  database : ∃ writes, w'.database = (w.arrive writes).database

@[simp] theorem append_nil (b : Binary) (d : Database ω) : d.append b [] = d := by
  cases d with
  | intact entries => exact congrArg _ (List.append_nil entries)
  | broken => rfl

theorem append_append (b : Binary) (d : Database ω) (v u : List ω) :
    (d.append b v).append b u = d.append b (v ++ u) := by
  cases d with
  | intact entries => simp [Database.append]
  | broken => rfl

@[simp] theorem arrive_nil (w : World ω) : w.arrive [] = w := by
  unfold World.arrive
  split
  · rfl
  · simp

@[simp] theorem arrive_binary (w : World ω) (ws : List ω) : (w.arrive ws).binary = w.binary := by
  unfold World.arrive; cases w.running <;> rfl

@[simp] theorem arrive_previous (w : World ω) (ws : List ω) : (w.arrive ws).previous = w.previous := by
  unfold World.arrive; cases w.running <;> rfl

@[simp] theorem arrive_running (w : World ω) (ws : List ω) : (w.arrive ws).running = w.running := by
  unfold World.arrive; cases h : w.running <;> simp [h]

@[simp] theorem arrive_snapshot (w : World ω) (ws : List ω) : (w.arrive ws).snapshot = w.snapshot := by
  unfold World.arrive; cases w.running <;> rfl

theorem World.Later.refl (w : World ω) : w.Later w := ⟨rfl, rfl, rfl, [], by simp⟩

theorem World.Later.arrive (w : World ω) (ws : List ω) :
    w.Later (w.arrive ws) := ⟨by simp, by simp, by simp, ws, rfl⟩

theorem World.Later.trans {u v w : World ω} (h : u.Later v) (h' : v.Later w) : u.Later w := by
  obtain ⟨vs, hv⟩ := h.database
  obtain ⟨ws, hw⟩ := h'.database
  refine ⟨h'.binary.trans h.binary, h'.previous.trans h.previous, h'.running.trans h.running, vs ++ ws, ?_⟩
  rw [hw]
  unfold World.arrive at hv ⊢
  rw [h.running]
  cases hr : u.running with
  | none =>
    simp only [hr] at hv
    exact hv
  | some b =>
    simp only [hr] at hv
    simp only [hv, append_append]

theorem World.Later.snapshot {w v : World ω} (h : w.Later v) (snapshot : Option (List (Entry ω))) :
    w.Later { v with snapshot } := ⟨h.binary, h.previous, h.running, h.database⟩

/-! ## One step -/

variable {env : Env ω} {w : World ω}

theorem run_act (s : Step) (e : ε) (effect : World ω → World ω) :
    (act env s e effect).run w =
      (if (env.fate s).isOk then .ok () else .error e, if (env.fate s).lands then effect w else w) := rfl

theorem run_perform (s : Step) (e : ε) (effect : World ω → World ω) :
    (perform env s e effect).run w = (if (env.fate s).isOk then .ok () else .error e,
      if (env.fate s).lands then effect (w.arrive (env.writes s)) else w.arrive (env.writes s)) := rfl

theorem run_perform_bind {α : Type} (s : Step) (e : ε) (effect : World ω → World ω)
    (g : Unit → Fallible (World ω) ε α) :
    (perform env s e effect >>= g).run w =
      if (env.fate s).isOk then (g ()).run (effect (w.arrive (env.writes s)))
      else (.error e, if (env.fate s).lands then effect (w.arrive (env.writes s))
        else w.arrive (env.writes s)) := by
  rw [run_bind, run_perform]
  cases env.fate s <;> rfl

/-! ## Up to the snapshot -/

def Database.usable : Database ω → Bool
  | intact _ => true
  | broken => false

/-- A step up to the verification fails, or there is nothing to install. -/
def Env.idle (env : Env ω) (opts : Options) : Bool :=
  !(env.fate .latest).isOk ||
    ((decide (env.release.version = opts.currentVersion) || opts.checkOnly) ||
      ((env.release.assets opts.assetName).isNone || ((env.release.assets "SHA256SUMS").isNone ||
        ((env.release.assets "SHA256SUMS.minisig").isNone || (!(env.fate .downloadBinary).isOk ||
          (!(env.fate .downloadChecksums).isOk || (!(env.fate .downloadSignature).isOk ||
            !(env.fate .verify).isOk)))))))

/-- The service is going to be stopped. -/
def Env.attempts (env : Env ω) (opts : Options) (w : World ω) : Bool :=
  !env.idle opts && w.database.usable && (env.fate .snapshot).isOk

theorem quiet_stops (s : Step) (e : ε) : Stops World.Later (!(env.fate s).isOk) (perform env s e id) := by
  refine ⟨fun w => ?_, fun w => ?_⟩
  · rw [run_perform]
    cases (env.fate s).isOk <;> rfl
  · rw [run_perform]
    simp only [id, ite_self]
    exact .arrive w _

theorem findAsset_stops (outcome : Outcome) (name : String) :
    Stops World.Later (env.release.assets name).isNone (findAsset env outcome name) := by
  unfold findAsset
  cases env.release.assets name with
  | none => exact ⟨fun _ => rfl, .refl⟩
  | some url => exact .done .refl

theorem idle_stops (opts : Options) (outcome : Outcome) (e : Report) :
    Stops World.Later (env.idle opts) (perform env .latest e id >>= fun _ =>
      compareVersions env opts outcome >>= fun _ => fetch env opts outcome) := by
  have ht : ∀ u v w : World ω, u.Later v → v.Later w → u.Later w := fun _ _ _ => .trans
  refine (quiet_stops .latest e).bind ht (Stops.bind ht ?_ ?_)
  · rw [show opts.checkOnly = (decide (opts.checkOnly = true) || false) by simp]
    exact .guard .refl _ (.guard .refl _ (.done .refl))
  · exact (findAsset_stops _ _).bind ht ((findAsset_stops _ _).bind ht ((findAsset_stops _ _).bind ht
      ((quiet_stops _ _).bind ht ((quiet_stops _ _).bind ht ((quiet_stops _ _).bind ht (quiet_stops _ _))))))

/-- What `Update` reports when it returns before it stops the service. -/
def Early (r : Report) : Prop :=
  r.1.installed = false ∧ r.1.rolledBack = false ∧
    (r.2 = none ∨ (∃ s, r.2 = some (.failed s)) ∨ ∃ n, r.2 = some (.noAsset n))

theorem prepare_early (opts : Options) : Errs Early (prepare env opts) := by
  have hact : ∀ (s s' : Step) (outcome : Outcome) (effect : World ω → World ω), outcome.installed = false →
      outcome.rolledBack = false → Errs Early (act env s (outcome, some (.failed s')) effect) := by
    intro s s' outcome effect hi hr w e w' h
    change (if (env.fate s).isOk then _ else _, _) = _ at h
    split at h <;> cases h
    exact ⟨hi, hr, Or.inr (Or.inl ⟨_, rfl⟩)⟩
  have hstep : ∀ (s s' : Step) (outcome : Outcome), outcome.installed = false → outcome.rolledBack = false →
      Errs Early (perform env s (outcome, some (.failed s')) id) :=
    fun s s' outcome hi hr => Errs.bind (fun w e w' h => by cases h) fun _ => hact s s' outcome id hi hr
  have hasset : ∀ name, Errs Early (findAsset env (.new opts.currentVersion env.release.version) name) := by
    intro name
    unfold findAsset
    cases env.release.assets name with
    | none => exact .fail ⟨rfl, rfl, Or.inr (Or.inr ⟨_, rfl⟩)⟩
    | some url => exact .pure ()
  refine (hstep _ _ _ rfl rfl).bind fun _ => Errs.bind ?_ fun _ => Errs.bind ?_ fun _ =>
    Errs.bind ?_ fun _ => .pure _
  · unfold compareVersions
    split
    · exact .fail ⟨rfl, rfl, Or.inl rfl⟩
    · split
      · exact .fail ⟨rfl, rfl, Or.inl rfl⟩
      · exact .pure ()
  · exact (hasset _).bind fun _ => (hasset _).bind fun _ => (hasset _).bind fun _ =>
      (hstep _ _ _ rfl rfl).bind fun _ => (hstep _ _ _ rfl rfl).bind fun _ => (hstep _ _ _ rfl rfl).bind fun _ =>
        hstep _ _ _ rfl rfl
  · refine Errs.bind (fun w e w' h => by cases h) fun _ => Errs.bind (fun w e w' h => by cases h) fun v => ?_
    split
    · exact .fail ⟨rfl, rfl, Or.inr (Or.inl ⟨_, rfl⟩)⟩
    · exact hact _ _ _ _ rfl rfl

theorem later_database {v : World ω} (h : w.Later v) : v.database.usable = w.database.usable := by
  obtain ⟨ws, hd⟩ := h.database
  rw [hd]
  unfold World.arrive
  cases w.running with
  | none => rfl
  | some b => cases w.database <;> rfl

theorem backupSnapshot_run (outcome : Outcome) : (backupSnapshot env outcome).run w =
    match (w.arrive (env.writes .snapshot)).database with
    | .broken => (.error (outcome, some (.failed .snapshot)), w.arrive (env.writes .snapshot))
    | .intact entries => (act env .snapshot (outcome, some (.failed .snapshot))
        ({ · with snapshot := some entries })).run (w.arrive (env.writes .snapshot)) := by
  unfold backupSnapshot
  rw [run_bind]
  change (match (w.arrive (env.writes .snapshot)).database with
    | .broken => fail (outcome, some (.failed .snapshot))
    | .intact entries => act env .snapshot (outcome, some (.failed .snapshot)) ({ · with snapshot := some entries })
    : Fallible (World ω) Report Unit).run (w.arrive (env.writes .snapshot)) = _
  cases (w.arrive (env.writes .snapshot)).database <;> rfl

/-- Either the snapshot holds what the database does, or nothing has been touched. -/
theorem prepare_cases (env : Env ω) (opts : Options) (w : World ω) :
    (env.attempts opts w = true ∧ ∃ w' entries,
      (prepare env opts).run w = (.ok (.new opts.currentVersion env.release.version), w') ∧ w.Later w' ∧
        w'.database = .intact entries ∧ w'.snapshot = some entries) ∨
    (env.attempts opts w = false ∧ ∃ r w', (prepare env opts).run w = (.error r, w') ∧ Early r ∧
      w.Later w') := by
  have herr := @prepare_early ω env opts w
  have hidle := @idle_stops ω env opts (.new opts.currentVersion env.release.version)
    (.new "" "", some (.failed .latest))
  have hends := hidle.ends w
  have hwithin := hidle.within w
  have hrun : (prepare env opts).run w = (((perform env .latest (.new "" "", some (.failed .latest)) id >>= fun _ =>
      compareVersions env opts (.new opts.currentVersion env.release.version) >>= fun _ =>
        fetch env opts (.new opts.currentVersion env.release.version)) >>= fun _ =>
      (backupSnapshot env (.new opts.currentVersion env.release.version) >>= fun _ =>
        pure (.new opts.currentVersion env.release.version))).run w) := by
    rw [bind_assoc]
    simp only [bind_assoc]
    rfl
  rw [hrun] at herr ⊢
  rw [run_bind] at herr ⊢
  revert hends hwithin herr
  cases Fallible.run (perform env .latest _ id >>= _) w with
  | mk r v =>
    intro herr hends hwithin
    cases r with
    | error e =>
      right
      have hi : env.idle opts = true := by simpa [Except.isOk, Except.toBool] using hends
      exact ⟨by simp [Env.attempts, hi], e, v, rfl, herr e v rfl, hwithin⟩
    | ok a =>
      have hi : env.idle opts = false := by simpa [Except.isOk, Except.toBool] using hends
      have hlater : w.Later (v.arrive (env.writes .snapshot)) := hwithin.trans (.arrive v _)
      simp only at herr ⊢
      rw [run_bind] at herr ⊢
      cases hd : (v.arrive (env.writes .snapshot)).database with
      | broken =>
        right
        have hu : w.database.usable = false := by
          rw [← later_database hlater, hd]
          rfl
        rw [backupSnapshot_run, hd] at herr ⊢
        exact ⟨by simp [Env.attempts, hu], _, _, rfl, herr _ _ rfl, hlater⟩
      | intact entries =>
        have hu : w.database.usable = true := by
          rw [← later_database hlater, hd]
          rfl
        rw [backupSnapshot_run, hd] at herr ⊢
        simp only [act, Fallible.run] at herr ⊢
        cases hf : env.fate .snapshot with
        | ok =>
          left
          refine ⟨by simp [Env.attempts, hi, hu, hf, Fate.isOk], _, entries, rfl, hlater.snapshot _, hd, rfl⟩
        | failed took =>
          right
          rw [hf] at herr
          refine ⟨by simp [Env.attempts, hf, Fate.isOk], _, _, rfl, herr _ _ rfl, ?_⟩
          cases took with
          | false => exact hlater
          | true => exact hlater.snapshot _

/-! ## Stopping -/

theorem stopService_ok (outcome : Outcome) (h : env.fate .stop = .ok) :
    (stopService env outcome).run w = (.ok (), (w.arrive (env.writes .stop)).stopped) := by
  unfold stopService
  rw [run_bind, run_caught, run_perform, h]
  rfl

theorem start_keeps (w : World ω) (migrations : List ω) (lands : Bool) :
    (w.start migrations lands).binary = w.binary ∧ (w.start migrations lands).previous = w.previous := by
  obtain ⟨binary, previous, database, snapshot, running⟩ := w
  cases running with
  | some b => exact ⟨rfl, rfl⟩
  | none => cases binary <;> cases lands <;> exact ⟨rfl, rfl⟩

/-- What a stop that fails leaves: the server as it was if the stop had no effect, `old` on the same
database or nothing if it had. `restarted` is what the report says of the start that follows. -/
structure World.StopFailed (env : Env ω) (w : World ω) (restarted : Bool) (w' : World ω) : Prop where
  binary : w'.binary = w.binary
  previous : w'.previous = w.previous
  database : ∃ writes, w'.database = w.database.append .old writes
  untouched : w.running = some .old → (env.fate .stop).lands = false → w.Later w'
  running : w.running = none ∨ (env.fate .stop).lands = true →
    w'.running = if (env.fate .restart).lands then some .old else none
  started : restarted = true ↔ env.fate .restart = .ok
  serves : restarted = true → w'.running = some .old

theorem World.Later.appended {w v : World ω} (h : w.Later v) (hrunning : ∀ b ∈ w.running, b = .old) :
    ∃ writes, v.database = w.database.append .old writes := by
  obtain ⟨writes, hd⟩ := h.database
  rw [hd]
  unfold World.arrive
  cases hr : w.running with
  | none => exact ⟨[], by simp⟩
  | some b =>
    rw [hrunning b hr]
    exact ⟨writes, rfl⟩

theorem World.StopFailed.after {w v w' : World ω} {restarted : Bool} (h : v.StopFailed env restarted w')
    (hv : w.Later v) (hrunning : ∀ b ∈ w.running, b = .old) : w.StopFailed env restarted w' := by
  refine ⟨h.binary.trans hv.binary, h.previous.trans hv.previous, ?_, fun hr hl => ?_, fun hr => ?_,
    h.started, h.serves⟩
  · obtain ⟨before, hb⟩ := hv.appended hrunning
    obtain ⟨writes, hw⟩ := h.database
    exact ⟨before ++ writes, by rw [hw, hb, append_append]⟩
  · exact hv.trans (h.untouched (hv.running.trans hr) hl)
  · exact h.running (hr.imp_left hv.running.trans)

/-- Starting what runs changes nothing. -/
theorem start_running {b : Binary} (h : w.running = some b) (migrations : List ω) (lands : Bool) :
    w.start migrations lands = w := by
  unfold World.start
  rw [h]

theorem start_old (hbinary : w.binary = some .old) (hdown : w.running = none) (migrations : List ω) (lands : Bool) :
    (w.start migrations lands).database = w.database.append .old migrations ∧
      (w.start migrations lands).running = if lands then some .old else none := by
  obtain ⟨binary, previous, database, snapshot, running⟩ := w
  cases hbinary
  cases hdown
  cases lands <;> exact ⟨rfl, rfl⟩

theorem isOk_iff (f : Fate) : f.isOk = true ↔ f = .ok := by cases f <;> simp

/-- The start after a stop that took effect, or where nothing ran. -/
theorem World.StopFailed.down {v : World ω} (hbinary : w.binary = some .old) (hb : v.binary = w.binary)
    (hp : v.previous = w.previous) (hdatabase : ∃ writes, v.database = w.database.append .old writes)
    (hdown : v.running = none) (hstopped : w.running = none ∨ (env.fate .stop).lands = true) :
    w.StopFailed env (env.fate .restart).isOk ((v.arrive (env.writes .restart)).start (env.migrations .restart)
      (env.fate .restart).lands) := by
  have harrive : v.arrive (env.writes .restart) = v := by
    unfold World.arrive
    rw [hdown]
  rw [harrive]
  obtain ⟨hkeeps, hkeeps'⟩ := start_keeps v (env.migrations .restart) (env.fate .restart).lands
  obtain ⟨hd, hr⟩ := start_old (hb.trans hbinary) hdown (env.migrations .restart) (env.fate .restart).lands
  obtain ⟨writes, hw⟩ := hdatabase
  refine ⟨hkeeps.trans hb, hkeeps'.trans hp, ⟨writes ++ env.migrations .restart, ?_⟩, fun hrunning hlands => ?_,
    fun _ => hr, isOk_iff _, fun hok => ?_⟩
  · rw [hd, hw, append_append]
  · rw [hrunning, hlands] at hstopped
    simp at hstopped
  · rw [hr, (isOk_iff _).mp hok]
    rfl

/-- The start after a stop without effect: the server never went away. -/
theorem World.StopFailed.up {v : World ω} (hv : w.Later v) (hup : w.running = some .old)
    (hlands : (env.fate .stop).lands = false) :
    w.StopFailed env (env.fate .restart).isOk ((v.arrive (env.writes .restart)).start (env.migrations .restart)
      (env.fate .restart).lands) := by
  have hlater : w.Later (v.arrive (env.writes .restart)) := hv.trans (.arrive v _)
  rw [start_running (hlater.running.trans hup)]
  refine ⟨hlater.binary, hlater.previous, hlater.appended (by simp [hup]), fun _ _ => hlater, fun hstopped => ?_,
    isOk_iff _, fun _ => hlater.running.trans hup⟩
  rw [hup, hlands] at hstopped
  simp at hstopped

/-- A stop that fails is not followed by an installation, only by an attempt to start again. -/
theorem stopService_failed (outcome : Outcome) (hbinary : w.binary = some .old)
    (h : (env.fate .stop).isOk = false) :
    ∃ restarted w', (stopService env outcome).run w = (.error (outcome, some (.stopFailed restarted)), w') ∧
      ((∀ b ∈ w.running, b = .old) → w.StopFailed env restarted w') := by
  have hstop : (perform env .stop Step.stop World.stopped).run w = (.error .stop,
      if (env.fate .stop).lands then (w.arrive (env.writes .stop)).stopped else w.arrive (env.writes .stop)) := by
    rw [run_perform, h]
    rfl
  unfold stopService
  rw [run_bind, run_caught, hstop]
  refine ⟨_, _, rfl, fun hrunning => ?_⟩
  have hisOk : (if (env.fate .restart).isOk then .ok () else .error Step.restart : Except Step Unit).isOk =
      (env.fate .restart).isOk := by cases env.fate .restart <;> rfl
  have hlater : w.Later (w.arrive (env.writes .stop)) := .arrive w _
  change w.StopFailed env (if (env.fate .restart).isOk then .ok () else .error Step.restart : Except Step Unit).isOk
    (((if (env.fate .stop).lands then _ else _ : World ω).arrive _).start _ _)
  rw [hisOk]
  cases hl : (env.fate .stop).lands with
  | true =>
    rw [if_pos rfl]
    exact .down hbinary hlater.binary hlater.previous (hlater.appended hrunning) rfl (.inr hl)
  | false =>
    rw [if_neg Bool.false_ne_true]
    cases hr : w.running with
    | none =>
      exact .down hbinary hlater.binary hlater.previous (hlater.appended hrunning)
        (hlater.running.trans hr) (.inl hr)
    | some b => exact .up hlater (by rw [hr, hrunning b hr]) hl

/-! ## Installing -/

/-- The new binary is in place, and whatever it does to the database may have been done. -/
def Env.written (env : Env ω) : Bool := (env.fate .park).isOk && (env.fate .write).isOk

def Env.migrates (env : Env ω) : Bool := !env.hasMigrate || (env.fate .migrate).isOk

def Env.newUp (env : Env ω) : Bool := env.written && env.migrates && (env.fate .start).lands

def Env.installs (env : Env ω) : Bool :=
  env.written && env.migrates && (env.fate .start).isOk && (env.fate .health).isOk

def Env.onDisk (env : Env ω) : Option Binary :=
  match env.fate .park with
  | .failed false => some .old
  | .failed true => none
  | .ok => if (env.fate .write).lands then some .new else none

def Env.early (env : Env ω) : List ω :=
  if env.written then
    (if env.hasMigrate then env.migrations .migrate else []) ++
      if env.migrates then env.migrations .start ++ (if (env.fate .start).isOk then env.writes .health else [])
        else []
  else []

theorem run_startService (s : Step) (e : ε) : (startService env s e).run w =
    (if (env.fate s).isOk then .ok () else .error e,
      (w.arrive (env.writes s)).start (env.migrations s) (env.fate s).lands) := rfl

theorem run_waitHealthy (s : Step) (e : ε) : (waitHealthy env s e).run w =
    (if (env.fate s).isOk && (w.arrive (env.writes s)).running.isSome then .ok () else .error e,
      w.arrive (env.writes s)) := rfl

/-- The state after the park and after the write, from the fates of the two. -/
theorem installAndStart_unwritten (previous : Option Binary) (database : Database ω)
    (snapshot : Option (List (Entry ω))) (h : env.written = false) :
    ∃ s, (installAndStart env).run ⟨some .old, previous, database, snapshot, none⟩ =
      (.error (⟨(env.fate .park).isOk, false⟩, s), {
        binary := env.onDisk
        previous := if (env.fate .park).lands then some .old else previous
        database, snapshot
        running := none }) := by
  unfold installAndStart
  rw [run_perform_bind]
  unfold Env.written at h
  cases hp : env.fate .park with
  | failed took =>
    refine ⟨.park, ?_⟩
    cases took <;> simp [Env.onDisk, hp, World.arrive, World.park]
  | ok =>
    cases hw : env.fate .write with
    | ok => simp [hp, hw] at h
    | failed took =>
      refine ⟨.write, ?_⟩
      simp only [Fate.isOk_ok, if_true, run_perform_bind, hw]
      cases took <;> simp [Env.onDisk, hp, hw, World.arrive, World.park]

theorem installAndStart_written {previous : Option Binary} {database : Database ω}
    {snapshot : Option (List (Entry ω))} (h : env.written = true) :
    (installAndStart env).run ⟨some .old, previous, database, snapshot, none⟩ =
      (if env.hasMigrate then do
          modify (·.migrate (env.migrations .migrate))
          perform env .migrate (⟨true, true⟩, .migrate) id
          startService env .start (⟨true, true⟩, .start)
          pure ⟨true, true⟩
        else do
          startService env .start (⟨true, true⟩, .start)
          pure ⟨true, true⟩ : Fallible (World ω) (InstallState × Step) InstallState).run
        ⟨some .new, some .old, database, snapshot, none⟩ := by
  unfold Env.written at h
  rw [Bool.and_eq_true] at h
  unfold installAndStart
  rw [run_perform_bind, h.1, if_pos rfl, run_perform_bind, h.2, if_pos rfl]
  rfl

theorem start_run (env : Env ω) (previous : Option Binary) (database : Database ω)
    (snapshot : Option (List (Entry ω))) :
    ∃ s, (startService env .start ((⟨true, true⟩ : InstallState), Step.start) >>= fun _ =>
        waitHealthy env .health (⟨true, true⟩, .health)).run ⟨some .new, previous, database, snapshot, none⟩ =
      (if (env.fate .start).isOk && (env.fate .health).isOk then .ok () else .error (⟨true, true⟩, s), {
        binary := some .new
        previous
        database := database.append .new
          (env.migrations .start ++ if (env.fate .start).isOk then env.writes .health else [])
        snapshot
        running := if (env.fate .start).lands then some .new else none }) := by
  rw [run_bind, run_startService]
  cases hs : env.fate .start with
  | failed took =>
    refine ⟨.start, ?_⟩
    cases took <;> simp [World.arrive, World.start, World.migrate]
  | ok =>
    refine ⟨.health, ?_⟩
    simp [World.arrive, World.start, World.migrate, run_waitHealthy, append_append]

theorem install_written (previous : Option Binary) (database : Database ω) (snapshot : Option (List (Entry ω)))
    (h : env.written = true) :
    ∃ s, (install env).run ⟨some .old, previous, database, snapshot, none⟩ =
      (if env.installs then .ok () else .error (⟨true, true⟩, s), {
        binary := some .new
        previous := some .old
        database := database.append .new env.early
        snapshot
        running := if env.newUp then some .new else none }) := by
  unfold install
  rw [run_bind, installAndStart_written h]
  unfold Env.installs Env.newUp Env.early Env.migrates
  simp only [h, Bool.true_and, if_true]
  cases hm : env.hasMigrate with
  | false =>
    obtain ⟨s, hs⟩ := start_run env (some .old) database snapshot
    refine ⟨s, ?_⟩
    simp only [Bool.not_false, Bool.true_or, Bool.true_and, Bool.false_eq_true, if_false, if_true, List.nil_append]
    rw [← hs]
    simp only [run_bind, run_pure]
    cases (startService env .start _).run _ with
    | mk r v => cases r <;> rfl
  | true =>
    simp only [Bool.not_true, Bool.false_or, if_true]
    cases hf : env.fate .migrate with
    | failed took =>
      refine ⟨.migrate, ?_⟩
      simp [run_bind, run_perform, hf, World.migrate, World.arrive]
    | ok =>
      obtain ⟨s, hs⟩ := start_run env (some .old) (database.append .new (env.migrations .migrate)) snapshot
      refine ⟨s, ?_⟩
      simp only [Fate.isOk_ok, Bool.true_and, if_true]
      rw [← append_append .new database, ← hs, run_bind, run_modify]
      simp only
      rw [run_perform_bind, hf]
      simp only [Fate.isOk_ok, if_true, id, run_bind, run_pure, World.migrate, World.arrive]
      cases (startService env .start _).run _ with
      | mk r v => cases r <;> rfl

theorem install_run (env : Env ω) (previous : Option Binary) (database : Database ω)
    (snapshot : Option (List (Entry ω))) :
    ∃ s, (install env).run ⟨some .old, previous, database, snapshot, none⟩ =
      (if env.installs then .ok () else .error (⟨(env.fate .park).isOk, env.written⟩, s), {
        binary := env.onDisk
        previous := if (env.fate .park).lands then some .old else previous
        database := database.append .new env.early
        snapshot
        running := if env.newUp then some .new else none }) := by
  cases h : env.written with
  | false =>
    obtain ⟨s, hs⟩ := installAndStart_unwritten previous database snapshot h
    refine ⟨s, ?_⟩
    unfold install
    rw [run_bind, hs]
    simp [Env.installs, Env.newUp, Env.early, h]
  | true =>
    obtain ⟨s, hs⟩ := install_written previous database snapshot h
    refine ⟨s, ?_⟩
    unfold Env.written at h
    rw [Bool.and_eq_true] at h
    cases hp : env.fate .park with
    | failed took => simp [hp] at h
    | ok =>
      cases hw : env.fate .write with
      | failed took => simp [hw] at h
      | ok => rw [hs]; simp [Env.onDisk, hp, hw]

/-! ## Rolling back -/

/-- The new server goes through the rollback. -/
def Env.newStill (env : Env ω) : Bool := env.newUp && !(env.fate .stopAgain).lands

def Env.meanwhile (env : Env ω) : List ω :=
  (if env.newUp then env.writes .stopAgain else []) ++
    if env.newStill then env.writes .restoreBinary ++ env.writes .restoreDatabase else []

def Env.binaryBack (env : Env ω) : Option Binary :=
  if (env.fate .park).isOk && (env.fate .restoreBinary).lands then some .old else env.onDisk

def Env.serving (env : Env ω) : Option Binary :=
  if env.newStill then some .new else if (env.fate .startAgain).lands then env.binaryBack else none

def Env.restored (env : Env ω) (snapshot : List (Entry ω)) (database : Database ω) : Database ω :=
  if env.written then env.restore.apply snapshot (database.append .new env.meanwhile) else database

/-- The service is started again over what has been restored. -/
def Env.resumed (env : Env ω) (w : World ω) : World ω :=
  ((w.arrive (env.writes .startAgain)).start (env.migrations .startAgain) (env.fate .startAgain).lands).arrive
    (env.writes .healthAgain)

theorem written_park (h : env.written = true) : env.fate .park = .ok := by
  unfold Env.written at h
  cases hp : env.fate .park with
  | ok => rfl
  | failed took => simp [hp] at h

theorem newUp_unwritten (h : env.written = false) : env.newUp = false := by
  simp [Env.newUp, h]

theorem newStill_unwritten (h : env.written = false) : env.newStill = false := by
  simp [Env.newStill, newUp_unwritten h]

theorem stopAgain_run {binary previous : Option Binary} {database : Database ω}
    {snapshot : Option (List (Entry ω))} :
    (perform env .stopAgain Step.stopAgain World.stopped).run
        ⟨binary, previous, database, snapshot, if env.newUp then some .new else none⟩ =
      (if (env.fate .stopAgain).isOk then .ok () else .error .stopAgain,
        ⟨binary, previous, database.append .new (if env.newUp then env.writes .stopAgain else []), snapshot,
          if env.newStill then some .new else none⟩) := by
  rw [run_perform]
  unfold Env.newStill
  cases env.newUp <;> cases (env.fate .stopAgain).lands <;> simp [World.arrive, World.stopped]

theorem restoreBinary_run {binary : Option Binary} {database : Database ω} {snapshot : Option (List (Entry ω))} :
    (restoreBinary env).run ⟨binary, some .old, database, snapshot, if env.newStill then some .new else none⟩ =
      (if (env.fate .restoreBinary).isOk then .ok () else .error .restoreBinary,
        ⟨if (env.fate .restoreBinary).lands then some .old else binary,
          if (env.fate .restoreBinary).lands then none else some .old,
          database.append .new (if env.newStill then env.writes .restoreBinary else []), snapshot,
          if env.newStill then some .new else none⟩) := by
  unfold restoreBinary
  rw [run_bind]
  cases env.newStill <;> cases hl : (env.fate .restoreBinary).lands <;>
    simp [arrive, World.arrive, run_bind, run_act, hl, World.unpark]

theorem restoreDatabase_run {binary previous : Option Binary} {database : Database ω} {snapshot : List (Entry ω)} :
    (restoreDatabase env).run ⟨binary, previous, database, some snapshot, if env.newStill then some .new
      else none⟩ =
      (if env.restore.isOk then .ok () else .error .restoreDatabase,
        ⟨binary, previous, env.restore.apply snapshot
            (database.append .new (if env.newStill then env.writes .restoreDatabase else [])),
          some snapshot, if env.newStill then some .new else none⟩) := by
  unfold restoreDatabase
  rw [run_bind]
  cases env.newStill <;> cases env.restore.isOk <;> simp [arrive, World.arrive, run_bind]

theorem resumed_running (binary previous : Option Binary) (database : Database ω)
    (snapshot : Option (List (Entry ω))) :
    (env.resumed ⟨binary, previous, database, snapshot, if env.newStill then some .new else none⟩).running =
      if env.newStill then some .new else if (env.fate .startAgain).lands then binary else none := by
  unfold Env.resumed
  cases env.newStill <;> cases (env.fate .startAgain).lands <;> cases binary <;>
    simp [World.arrive, World.start, World.migrate]

/-- Every step of the rollback works, and something answers in the end. -/
def Env.rollsBack (env : Env ω) : Bool :=
  (env.fate .stopAgain).isOk && (!(env.fate .park).isOk || (env.fate .restoreBinary).isOk) &&
    (!env.written || env.restore.isOk) && (env.fate .startAgain).isOk &&
    ((env.fate .healthAgain).isOk && env.serving.isSome)

theorem resume_run (env : Env ω) (previous : Option Binary) (database : Database ω)
    (snapshot : Option (List (Entry ω))) :
    let w : World ω := ⟨env.binaryBack, previous, database, snapshot, if env.newStill then some .new else none⟩
    (startService env .startAgain Step.startAgain).run w =
      (if (env.fate .startAgain).isOk then .ok () else .error .startAgain,
        (w.arrive (env.writes .startAgain)).start (env.migrations .startAgain) (env.fate .startAgain).lands) ∧
    (waitHealthy env .healthAgain Step.healthAgain).run
        ((w.arrive (env.writes .startAgain)).start (env.migrations .startAgain) (env.fate .startAgain).lands) =
      (if (env.fate .healthAgain).isOk && env.serving.isSome then .ok ()
        else .error .healthAgain, env.resumed w) := by
  refine ⟨rfl, ?_⟩
  have hr := @resumed_running ω env env.binaryBack previous database snapshot
  rw [run_waitHealthy]
  change (if (env.fate .healthAgain).isOk && (env.resumed _).running.isSome then _ else _, env.resumed _) = _
  rw [hr]
  rfl

/-- The outcome of a step of the rollback that is taken only if `taken`. -/
def outcomeOf (taken works : Bool) (s : Step) : Except Step Unit := if taken && !works then .error s else .ok ()

@[simp] theorem outcomeOf_isOk (taken works : Bool) (s : Step) :
    (outcomeOf taken works s).isOk = (!taken || works) := by
  cases taken <;> cases works <;> rfl

theorem binaryStep_run {previous : Option Binary} (hprevious : env.fate .park = .ok → previous = some .old)
    (database : Database ω) (snapshot : Option (List (Entry ω))) :
    ∃ previous', (undo (env.fate .park).isOk (restoreBinary env) :
        Fallible (World ω) ε (Except Step Unit)).run
        ⟨env.onDisk, previous, database, snapshot, if env.newStill then some .new else none⟩ =
      (.ok (outcomeOf (env.fate .park).isOk (env.fate .restoreBinary).isOk .restoreBinary),
        ⟨env.binaryBack, previous',
          database.append .new (if env.newStill then env.writes .restoreBinary else []), snapshot,
          if env.newStill then some .new else none⟩) := by
  cases hp : env.fate .park with
  | failed took =>
    have hw : env.newStill = false := newStill_unwritten (by simp [Env.written, hp])
    refine ⟨previous, ?_⟩
    simp [undo, Env.binaryBack, hp, hw, outcomeOf]
  | ok =>
    rw [hprevious hp]
    refine ⟨if (env.fate .restoreBinary).lands then none else some .old, ?_⟩
    simp only [undo, Fate.isOk_ok, if_true]
    rw [run_caught, restoreBinary_run]
    simp only [Env.binaryBack, hp, Fate.isOk_ok, Bool.true_and, outcomeOf]
    cases (env.fate .restoreBinary).isOk <;> rfl

theorem databaseStep_run (binary previous : Option Binary) (database : Database ω) (snapshot : List (Entry ω)) :
    (undo env.written (restoreDatabase env) : Fallible (World ω) ε (Except Step Unit)).run
        ⟨binary, previous, database, some snapshot, if env.newStill then some .new else none⟩ =
      (.ok (outcomeOf env.written env.restore.isOk .restoreDatabase),
        ⟨binary, previous, if env.written then env.restore.apply snapshot
            (database.append .new (if env.newStill then env.writes .restoreDatabase else [])) else database,
          some snapshot, if env.newStill then some .new else none⟩) := by
  cases hw : env.written with
  | false => simp [undo, outcomeOf]
  | true =>
    simp only [undo, if_true]
    rw [run_caught, restoreDatabase_run]
    simp only [outcomeOf, Bool.true_and]
    cases env.restore.isOk <;> rfl

theorem restored_eq (snapshot : List (Entry ω)) (database : Database ω) :
    (if env.written then env.restore.apply snapshot
      ((((database.append .new (if env.newUp then env.writes .stopAgain else [])).append .new
        (if env.newStill then env.writes .restoreBinary else []))).append .new
        (if env.newStill then env.writes .restoreDatabase else []))
    else ((database.append .new (if env.newUp then env.writes .stopAgain else [])).append .new
        (if env.newStill then env.writes .restoreBinary else []))) = env.restored snapshot database := by
  unfold Env.restored Env.meanwhile
  cases hw : env.written with
  | false => simp [newUp_unwritten hw, newStill_unwritten hw]
  | true =>
    simp only [if_true, append_append]
    cases env.newStill <;> simp [List.append_assoc]

theorem isOk_step (b : Bool) (s : Step) : (if b then .ok () else .error s : Except Step Unit).isOk = b := by
  cases b <;> rfl

theorem failures_isEmpty (results : List (Except Step Unit)) :
    (failures results).isEmpty = results.all Except.isOk := by
  induction results with
  | nil => rfl
  | cons r results ih =>
    cases r with
    | ok _ => exact ih
    | error s => rfl

theorem rollback_run (env : Env ω) {previous : Option Binary}
    (hprevious : env.fate .park = .ok → previous = some .old) (database : Database ω) (snapshot : List (Entry ω)) :
    ∃ res previous', (rollback env ⟨(env.fate .park).isOk, env.written⟩ : Fallible (World ω) ε
      RollbackResult).run
        ⟨env.onDisk, previous, database, some snapshot, if env.newUp then some .new else none⟩ =
      (.ok res, env.resumed ⟨env.binaryBack, previous', env.restored snapshot database, some snapshot,
        if env.newStill then some .new else none⟩) ∧
      res.failures.isEmpty = env.rollsBack ∧
      res.binaryNotRestored = ((env.fate .park).isOk && !(env.fate .restoreBinary).isOk) ∧
      res.dbNotRestored = (env.written && !env.restore.isOk) ∧
      res.serviceNotServing = !((env.fate .healthAgain).isOk && env.serving.isSome) := by
  obtain ⟨previous', hbinary⟩ := binaryStep_run (ε := ε) hprevious
    (database.append .new (if env.newUp then env.writes .stopAgain else [])) (some snapshot)
  obtain ⟨hstart, hhealth⟩ := resume_run env previous' (env.restored snapshot database) (some snapshot)
  unfold rollback
  rw [run_bind, run_caught, stopAgain_run]
  simp only
  rw [run_bind, hbinary]
  simp only
  rw [run_bind, databaseStep_run, restored_eq]
  simp only
  rw [run_bind, run_caught, hstart]
  simp only
  rw [run_bind, run_caught, hhealth]
  refine ⟨_, previous', rfl, ?_, ?_, ?_, ?_⟩
  · simp only [failures_isEmpty, List.all_cons, List.all_nil, isOk_step, outcomeOf_isOk, Env.rollsBack,
      Bool.and_true,
      Bool.and_assoc]
  · simp
  · simp
  · cases (env.fate .healthAgain).isOk <;> cases env.serving <;> rfl

/-! ## The whole -/

/-- What lands in the database when the running server commits `writes`. -/
def World.commits (w : World ω) (writes : List ω) : List (Entry ω) :=
  match w.running with
  | none => []
  | some b => writes.map (⟨b, ·⟩)

theorem arrive_intact {entries : List (Entry ω)} (h : w.database = .intact entries) (ws : List ω) :
    (w.arrive ws).database = .intact (entries ++ w.commits ws) := by
  unfold World.arrive World.commits
  cases w.running with
  | none => rw [List.append_nil]; exact h
  | some b => simp only [h, Database.append]

/-- The rollback over a snapshot of `entries`, when `since` has been committed after it was taken. -/
def Env.unwound (env : Env ω) (previous : Option Binary) (entries since : List (Entry ω)) : World ω :=
  env.resumed ⟨env.binaryBack, previous,
    env.restored entries ((Database.intact (entries ++ since)).append .new env.early),
    some entries, if env.newStill then some .new else none⟩

/-- `Update` from a world where `old` is installed: its report and what it leaves. -/
inductive Course (env : Env ω) (opts : Options) (w : World ω) : Report → World ω → Prop
  | early {r : Report} {w' : World ω} (ha : env.attempts opts w = false) (hr : Early r) (hw : w.Later w') :
      Course env opts w r w'
  | stopFailed {restarted : Bool} {w' : World ω} (ha : env.attempts opts w = true)
      (hs : (env.fate .stop).isOk = false) (h : (∀ b ∈ w.running, b = .old) → w.StopFailed env restarted w') :
      Course env opts w (.new opts.currentVersion env.release.version, some (.stopFailed restarted)) w'
  | installed {w' : World ω} (ha : env.attempts opts w = true) (hs : env.fate .stop = .ok)
    (hi : env.installs = true)
      (hb : w'.binary = some .new) (hr : w'.running = some .new) :
      Course env opts w ({ Outcome.new opts.currentVersion env.release.version with installed := true }, none) w'
  | rolledBack {previous : Option Binary} {entries : List (Entry ω)} {s : Step} (ha : env.attempts opts w = true)
      (hs : env.fate .stop = .ok) (hi : env.installs = false) (hr : env.rollsBack = true)
      (he : ((prepare env opts).run w).2.database = .intact entries) :
      Course env opts w
        ({ Outcome.new opts.currentVersion env.release.version with rolledBack := true, reason := some s }, none)
        (env.unwound previous entries (w.commits (env.writes .stop)))
  | stuck {previous : Option Binary} {entries : List (Entry ω)} {s : Step} {res : RollbackResult}
      (ha : env.attempts opts w = true) (hs : env.fate .stop = .ok) (hi : env.installs = false)
      (hr : env.rollsBack = false) (he : ((prepare env opts).run w).2.database = .intact entries)
      (hb : res.binaryNotRestored = ((env.fate .park).isOk && !(env.fate .restoreBinary).isOk))
      (hd : res.dbNotRestored = (env.written && !env.restore.isOk))
      (hh : res.serviceNotServing = !((env.fate .healthAgain).isOk && env.serving.isSome)) :
      Course env opts w (.new opts.currentVersion env.release.version,
          some (.rollbackFailed s res.failures (handRecovery res)))
        (env.unwound previous entries (w.commits (env.writes .stop)))

theorem update_course (env : Env ω) (opts : Options) {w : World ω} (hbinary : w.binary = some .old) :
    Course env opts w (reported ((update env opts).run w).1) ((update env opts).run w).2 := by
  unfold update
  rw [run_bind]
  rcases prepare_cases env opts w with ⟨ha, v, entries, hp, hv, hd, hsnap⟩ | ⟨ha, r, v, hp, hr, hv⟩
  · have he : ((prepare env opts).run w).2.database = .intact entries := by rw [hp]; exact hd
    rw [hp]
    simp only
    rw [run_bind]
    cases hs : env.fate .stop with
    | failed took =>
      obtain ⟨restarted, w', hrun, hleft⟩ := @stopService_failed ω env v
        (.new opts.currentVersion env.release.version) (hv.binary.trans hbinary) (by rw [hs]; rfl)
      rw [hrun]
      refine .stopFailed ha (by rw [hs]; rfl) fun hrunning => (hleft ?_).after hv hrunning
      rwa [hv.running]
    | ok =>
      rw [stopService_ok _ hs]
      simp only
      have hcommits : v.commits (env.writes .stop) = w.commits (env.writes .stop) := by
        unfold World.commits
        rw [hv.running]
      have hstopped : (v.arrive (env.writes .stop)).stopped = ⟨some .old, v.previous,
          .intact (entries ++ w.commits (env.writes .stop)), some entries, none⟩ := by
        have hdb := arrive_intact hd (env.writes .stop)
        rw [hcommits] at hdb
        unfold World.stopped
        rw [arrive_binary, arrive_previous, arrive_snapshot, hdb, hsnap, hv.binary, hbinary]
      obtain ⟨s, hinstall⟩ := install_run env v.previous (.intact (entries ++ w.commits (env.writes .stop)))
        (some entries)
      rw [hstopped, run_bind, run_caught, hinstall]
      simp only
      cases hi : env.installs with
      | true =>
        unfold Env.installs at hi
        simp only [Bool.and_eq_true] at hi
        have hpark := written_park hi.1.1.1
        refine .installed ha hs (by simp [Env.installs, hi]) ?_ ?_
        · have hwrite : (env.fate .write).isOk = true := by
            have hw := hi.1.1.1
            simpa [Env.written, hpark] using hw
          cases hw : env.fate .write with
          | ok => simp [Env.onDisk, hpark, hw]
          | failed took => simp [hw] at hwrite
        · cases hst : env.fate .start with
          | ok => simp [Env.newUp, hi.1.1.1, hi.1.1.2, hst]
          | failed took => simp [hst] at hi
      | false =>
        have hprevious : env.fate .park = .ok →
            (if (env.fate .park).lands then some .old else v.previous) = some Binary.old := by
          intro h
          rw [h]
          rfl
        obtain ⟨res, previous', hroll, hf, hb, hdb, hh⟩ := @rollback_run ω Report env _ hprevious
          ((Database.intact (entries ++ w.commits (env.writes .stop))).append .new env.early) entries
        simp only [Bool.false_eq_true, if_false]
        rw [run_bind, hroll]
        simp only
        cases hr : env.rollsBack with
        | true =>
          rw [hf, hr]
          exact .rolledBack ha hs hi hr he
        | false =>
          rw [hf, hr]
          exact .stuck ha hs hi hr he hb hdb hh
  · rw [hp]
    exact .early ha hr hv

end Keyhole.Update
