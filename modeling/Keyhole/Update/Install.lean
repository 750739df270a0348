import Keyhole.Lib.Fallible

/-!
# Updating the server

Every step of `Update` and of its rollback may fail, and may have taken effect
all the same. The server that is running commits writes between any two
steps; a binary that is started may migrate the database before it serves.
The restore of the snapshot is one step here, with what it may leave behind.
-/

namespace Keyhole.Update
open Fallible

/-- `old` is what stood at `BinaryPath`, `new` what the release holds, `older`
what an earlier update has parked. -/
inductive Binary
  | older
  | old
  | new
  deriving DecidableEq, Repr

structure Entry (ω : Type) where
  writer : Binary
  write : ω
  deriving DecidableEq, Repr

/-- The database at its path: what has been committed to it, or nothing that can be relied on. -/
inductive Database (ω : Type)
  | intact (entries : List (Entry ω))
  | broken
  deriving DecidableEq, Repr

structure World (ω : Type) where
  binary : Option Binary
  previous : Option Binary
  database : Database ω
  snapshot : Option (List (Entry ω))
  running : Option Binary
  deriving DecidableEq, Repr

inductive Step
  | latest
  | downloadBinary
  | downloadChecksums
  | downloadSignature
  | verify
  | snapshot
  | stop
  | restart
  | park
  | write
  | migrate
  | start
  | health
  | stopAgain
  | restoreBinary
  | restoreDatabase
  | startAgain
  | healthAgain
  deriving DecidableEq, Repr

inductive Fate
  | ok
  | failed (took : Bool)
  deriving DecidableEq, Repr

def Fate.isOk : Fate → Bool
  | ok => true
  | failed _ => false

def Fate.lands : Fate → Bool
  | ok => true
  | failed took => took

@[simp] theorem Fate.isOk_ok : Fate.ok.isOk = true := rfl

@[simp] theorem Fate.isOk_failed (took : Bool) : (Fate.failed took).isOk = false := rfl

@[simp] theorem Fate.lands_ok : Fate.ok.lands = true := rfl

@[simp] theorem Fate.lands_failed (took : Bool) : (Fate.failed took).lands = took := rfl

/-- What a restore that reports an error has left at the path. -/
inductive Left
  | untouched
  | broken
  | snapshot
  deriving DecidableEq, Repr

inductive RestoreFate
  | ok
  | failed (left : Left)
  deriving DecidableEq, Repr

structure Release where
  version : String
  assets : String → Option String

structure Options where
  currentVersion : String
  checkOnly : Bool
  assetName : String

/-- What happens while `Update` runs: how each step ends, what the running server
commits before it, and what a started binary writes before it serves. -/
structure Env (ω : Type) where
  release : Release
  fate : Step → Fate
  restore : RestoreFate
  writes : Step → List ω
  migrations : Step → List ω
  hasMigrate : Bool

structure Outcome where
  fromVersion : String
  toVersion : String
  alreadyCurrent : Bool
  checked : Bool
  installed : Bool
  rolledBack : Bool
  reason : Option Step
  deriving DecidableEq, Repr

def Outcome.new (fromVersion toVersion : String) : Outcome :=
  ⟨fromVersion, toVersion, false, false, false, false, none⟩

inductive HandStep
  | moveBinaryBack
  | restoreDatabase
  | startService
  deriving DecidableEq, Repr

inductive UpdateError
  | failed (step : Step)
  | noAsset (name : String)
  | stopFailed (restarted : Bool)
  | rollbackFailed (install : Step) (rollback : List Step) (byHand : List HandStep)
  deriving DecidableEq, Repr

abbrev Report : Type := Outcome × Option UpdateError

structure InstallState where
  parked : Bool
  migrated : Bool
  deriving DecidableEq, Repr

structure RollbackResult where
  failures : List Step
  binaryNotRestored : Bool
  dbNotRestored : Bool
  serviceNotServing : Bool
  deriving DecidableEq, Repr

variable {ω : Type}

/-! ## What the steps do -/

def Database.append (writer : Binary) (writes : List ω) : Database ω → Database ω
  | intact entries => intact (entries ++ writes.map (⟨writer, ·⟩))
  | broken => broken

def World.arrive (w : World ω) (writes : List ω) : World ω :=
  match w.running with
  | none => w
  | some b => { w with database := w.database.append b writes }

def World.park (w : World ω) : World ω := { w with binary := none, previous := w.binary }

def World.unpark (w : World ω) : World ω := { w with binary := w.previous, previous := none }

def World.stopped (w : World ω) : World ω := { w with running := none }

/-- The binary at the path runs, whatever comes of it. -/
def World.migrate (w : World ω) (migrations : List ω) : World ω :=
  match w.binary with
  | none => w
  | some b => { w with database := w.database.append b migrations }

/-- Starting what already runs does nothing. `serve` migrates as well, also on a
start that fails. -/
def World.start (w : World ω) (migrations : List ω) (lands : Bool) : World ω :=
  match w.running with
  | some _ => w
  | none =>
    let w := w.migrate migrations
    if lands then { w with running := w.binary } else w

section
variable {ε : Type} (env : Env ω)

def arrive (s : Step) : Fallible (World ω) ε Unit := modify (·.arrive (env.writes s))

def act (s : Step) (e : ε) (effect : World ω → World ω) : Fallible (World ω) ε Unit :=
  fun w => (if (env.fate s).isOk then .ok () else .error e, if (env.fate s).lands then effect w else w)

def perform (s : Step) (e : ε) (effect : World ω → World ω) : Fallible (World ω) ε Unit := do
  arrive env s
  act env s e effect

def startService (s : Step) (e : ε) : Fallible (World ω) ε Unit := do
  arrive env s
  fun w => (if (env.fate s).isOk then .ok () else .error e, w.start (env.migrations s) (env.fate s).lands)

/-- Nothing answers where nothing runs. -/
def waitHealthy (s : Step) (e : ε) : Fallible (World ω) ε Unit := do
  arrive env s
  fun w => (if (env.fate s).isOk && w.running.isSome then .ok () else .error e, w)

/-! ## Before the service goes down -/

def findAsset (outcome : Outcome) (name : String) : Fallible (World ω) Report Unit :=
  match env.release.assets name with
  | some _ => pure ()
  | none => fail (outcome, some (.noAsset name))

def backupSnapshot (outcome : Outcome) : Fallible (World ω) Report Unit := do
  arrive env .snapshot
  let w ← gets id
  match w.database with
  | .broken => fail (outcome, some (.failed .snapshot))
  | .intact entries => act env .snapshot (outcome, some (.failed .snapshot)) ({ · with snapshot := some entries })

/-- An early return is an error here, whatever it reports. -/
def compareVersions (opts : Options) (outcome : Outcome) : Fallible (World ω) Report Unit :=
  if env.release.version = opts.currentVersion then fail ({ outcome with alreadyCurrent := true }, none)
  else if opts.checkOnly then fail ({ outcome with checked := true }, none)
  else pure ()

def fetch (opts : Options) (outcome : Outcome) : Fallible (World ω) Report Unit := do
  findAsset env outcome opts.assetName
  findAsset env outcome "SHA256SUMS"
  findAsset env outcome "SHA256SUMS.minisig"
  perform env .downloadBinary (outcome, some (.failed .downloadBinary)) id
  perform env .downloadChecksums (outcome, some (.failed .downloadChecksums)) id
  perform env .downloadSignature (outcome, some (.failed .downloadSignature)) id
  perform env .verify (outcome, some (.failed .verify)) id

/-- Steps 1 to 4. -/
def prepare (opts : Options) : Fallible (World ω) Report Outcome := do
  let outcome := Outcome.new opts.currentVersion env.release.version
  perform env .latest (.new "" "", some (.failed .latest)) id
  compareVersions env opts outcome
  fetch env opts outcome
  backupSnapshot env outcome
  pure outcome

def stopService (outcome : Outcome) : Fallible (World ω) Report Unit := do
  match ← caught (perform env .stop Step.stop World.stopped) with
  | .ok () => pure ()
  | .error _ =>
    let restarted ← caught (startService env .restart Step.restart)
    fail (outcome, some (.stopFailed restarted.isOk))

/-! ## Installing -/

def installAndStart : Fallible (World ω) (InstallState × Step) InstallState := do
  perform env .park (⟨false, false⟩, .park) World.park
  perform env .write (⟨true, false⟩, .write) ({ · with binary := some .new })
  if env.hasMigrate then do
    modify (·.migrate (env.migrations .migrate))
    perform env .migrate (⟨true, true⟩, .migrate) id
  else pure ()
  startService env .start (⟨true, true⟩, .start)
  pure ⟨true, true⟩

def install : Fallible (World ω) (InstallState × Step) Unit := do
  let state ← installAndStart env
  waitHealthy env .health (state, .health)

/-! ## Rolling back -/

def restoreBinary : Fallible (World ω) Step Unit := do
  arrive env .restoreBinary
  let w ← gets id
  match w.previous with
  | none => fail .restoreBinary
  | some _ => act env .restoreBinary .restoreBinary World.unpark

def RestoreFate.isOk : RestoreFate → Bool
  | ok => true
  | failed _ => false

def RestoreFate.apply (fate : RestoreFate) (snapshot : List (Entry ω)) (database : Database ω) : Database ω :=
  match fate with
  | ok | failed .snapshot => .intact snapshot
  | failed .untouched => database
  | failed .broken => .broken

def restoreDatabase : Fallible (World ω) Step Unit := do
  arrive env .restoreDatabase
  let w ← gets id
  match w.snapshot with
  | none => fail .restoreDatabase
  | some snapshot =>
    modify ({ · with database := env.restore.apply snapshot w.database })
    if env.restore.isOk then pure () else fail .restoreDatabase

def failures (results : List (Except Step Unit)) : List Step :=
  results.filterMap fun
    | .ok () => none
    | .error s => some s

/-- What has not happened is not undone. -/
def undo (happened : Bool) (x : Fallible (World ω) Step Unit) : Fallible (World ω) ε (Except Step Unit) :=
  if happened then caught x else pure (.ok ())

def rollback (state : InstallState) : Fallible (World ω) ε RollbackResult := do
  let stopped ← caught (perform env .stopAgain Step.stopAgain World.stopped)
  let binary ← undo state.parked (restoreBinary env)
  let database ← undo state.migrated (restoreDatabase env)
  let started ← caught (startService env .startAgain Step.startAgain)
  let healthy ← caught (waitHealthy env .healthAgain Step.healthAgain)
  pure {
    failures := failures [stopped, binary, database, started, healthy]
    binaryNotRestored := !binary.isOk
    dbNotRestored := !database.isOk
    serviceNotServing := !healthy.isOk }

def handRecovery (res : RollbackResult) : List HandStep :=
  (if res.binaryNotRestored then [.moveBinaryBack] else []) ++
  (if res.dbNotRestored then [.restoreDatabase] else []) ++
  (if res.serviceNotServing then [.startService] else [])

/-! ## The whole -/

def update (opts : Options) : Fallible (World ω) Report Report := do
  let outcome ← prepare env opts
  stopService env outcome
  match ← caught (install env) with
  | .ok () => pure ({ outcome with installed := true }, none)
  | .error (state, failed) =>
    let res ← rollback env state
    if res.failures.isEmpty then pure ({ outcome with rolledBack := true, reason := some failed }, none)
    else pure (outcome, some (.rollbackFailed failed res.failures (handRecovery res)))

def reported : Except Report Report → Report
  | .ok r | .error r => r

end

end Keyhole.Update
