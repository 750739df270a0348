import Keyhole.Lib.Fallible

/-!
# Restoring a snapshot

The data directory holds the database, the two files SQLite keeps beside it,
and the databases that earlier restores moved aside. Every file operation of
`Restore` may fail, and a copy may fail with a part of the file written. What
a database file holds once its `-wal` has been applied is `replay`.
-/

namespace Keyhole.Backup
open Fallible

structure Owner where
  uid : Nat
  gid : Nat
  deriving DecidableEq, Repr

structure File (β : Type) where
  inode : Nat
  blocks : List β
  owner : Owner
  mode : Nat
  deriving DecidableEq, Repr

/-- `replaced` is indexed by the time in the name `keyhole.db.replaced-<stamp>`, in seconds. -/
structure DataDir (β : Type) where
  db : Option (File β)
  wal : Option (List β)
  shm : Option (List β)
  replaced : Nat → Option (File β)

inductive Step
  | verify
  | mkdir
  | statDb
  | statReplaced (i : Nat)
  | rename
  | openSnapshot
  | create
  | copy
  | fsync
  | close
  | openDir
  | fsyncDir
  | chown
  | chmod
  | removeWal
  | removeShm
  deriving DecidableEq, Repr

inductive RestoreError
  | failed (step : Step)
  | noFreeName
  deriving DecidableEq, Repr

/-- The machine a restore runs on: which of its operations fail, how far the
copy gets if it does, the time, the inode the new file gets and its owner. -/
structure Machine where
  fails : Step → Bool
  copied : Nat
  now : Nat
  inode : Nat
  user : Owner
  windows : Bool

section
variable {β : Type}

def perform (m : Machine) (s : Step) (f : DataDir β → DataDir β) : Fallible (DataDir β) RestoreError Unit :=
  if m.fails s then fail (.failed s) else modify f

def check (m : Machine) (s : Step) : Fallible (DataDir β) RestoreError Unit := perform m s id

def freeName (m : Machine) (replaced : Nat → Option (File β)) (i : Nat) : (tries : Nat) → Except RestoreError Nat
  | 0 => .error .noFreeName
  | tries + 1 =>
    if m.fails (.statReplaced i) then .error (.failed (.statReplaced i))
    else if (replaced (m.now + i)).isNone then .ok (m.now + i)
    else freeName m replaced (i + 1) tries

def replacedPath (m : Machine) (dir : DataDir β) : Except RestoreError Nat := freeName m dir.replaced 0 60

def DataDir.moveAside (dir : DataDir β) (previous : File β) (stamp : Nat) : DataDir β :=
  { dir with db := none, replaced := fun s => if s = stamp then some previous else dir.replaced s }

def DataDir.place (dir : DataDir β) (m : Machine) : DataDir β :=
  { dir with db := some { inode := m.inode, blocks := [], owner := m.user, mode := 0o600 } }

def DataDir.overwrite (dir : DataDir β) (blocks : List β) : DataDir β :=
  { dir with db := dir.db.map fun f => { f with blocks } }

def moveExisting (m : Machine) : Fallible (DataDir β) RestoreError (Option (File β)) := do
  check m .statDb
  let dir ← gets id
  match dir.db with
  | none => pure none
  | some previous =>
    match replacedPath m dir with
    | .error e => fail e
    | .ok stamp =>
      perform m .rename (·.moveAside previous stamp)
      pure (some previous)

def fsyncDir (m : Machine) : Fallible (DataDir β) RestoreError Unit :=
  if m.windows then pure () else do
    check m .openDir
    check m .fsyncDir

def copyFile (m : Machine) (snapshot : List β) : Fallible (DataDir β) RestoreError Unit :=
  if m.fails .copy then do
    modify (·.overwrite (snapshot.take m.copied))
    fail (.failed .copy)
  else modify (·.overwrite snapshot)

def copyFileFsync (m : Machine) (snapshot : List β) : Fallible (DataDir β) RestoreError Unit := do
  check m .openSnapshot
  perform m .create (·.place m)
  copyFile m snapshot
  check m .fsync
  check m .close
  fsyncDir m

/-- Nothing to do where files have no owner. -/
def chownLike (m : Machine) (previous : File β) : Fallible (DataDir β) RestoreError Unit :=
  if m.windows then pure ()
  else perform m .chown fun dir => { dir with db := dir.db.map fun f => { f with owner := previous.owner } }

def inherit (m : Machine) : Option (File β) → Fallible (DataDir β) RestoreError Unit
  | none => pure ()
  | some previous => do
    chownLike m previous
    perform m .chmod fun dir => { dir with db := dir.db.map fun f => { f with mode := previous.mode } }

def restore (m : Machine) (snapshot : List β) : Fallible (DataDir β) RestoreError Unit := do
  check m .verify
  check m .mkdir
  let previous ← moveExisting m
  copyFileFsync m snapshot
  inherit m previous
  perform m .removeWal ({ · with wal := none })
  perform m .removeShm ({ · with shm := none })

end

/-! ## What it leaves, wherever it stops -/

section
variable {β : Type} {m : Machine} {snapshot : List β} {dir d : DataDir β}

theorem run_perform_bind {α : Type} (s : Step) (f : DataDir β → DataDir β)
    (g : Unit → Fallible (DataDir β) RestoreError α) :
    (perform m s f >>= g).run d = if m.fails s then (.error (.failed s), d) else (g ()).run (f d) := by
  unfold perform
  cases m.fails s <;> rfl

theorem run_check_bind {α : Type} (s : Step) (g : Unit → Fallible (DataDir β) RestoreError α) :
    (check m s >>= g).run d = if m.fails s then (.error (.failed s), d) else (g ()).run d :=
  run_perform_bind s id g

/-- It stops before it has moved anything. -/
def Machine.blocked (m : Machine) (dir : DataDir β) : Bool :=
  m.fails .verify || m.fails .mkdir || m.fails .statDb ||
    dir.db.isSome && (!(replacedPath m dir).isOk || m.fails .rename)

def Machine.misplaces (m : Machine) : Bool := m.fails .openSnapshot || m.fails .create

/-- It stops between the end of the copy and the first removal. -/
def Machine.unsettled (m : Machine) (replaces : Bool) : Bool :=
  m.fails .fsync || (m.fails .close || !m.windows && (m.fails .openDir || m.fails .fsyncDir)) ||
    replaces && (!m.windows && m.fails .chown || m.fails .chmod)

def DataDir.moved (dir : DataDir β) (m : Machine) : DataDir β :=
  match dir.db, replacedPath m dir with
  | some previous, .ok stamp => dir.moveAside previous stamp
  | _, _ => dir

structure DataDir.Same (d d' : DataDir β) : Prop where
  inode : d'.db.map (·.inode) = d.db.map (·.inode)
  blocks : d'.db.map (·.blocks) = d.db.map (·.blocks)
  wal : d'.wal = d.wal
  shm : d'.shm = d.shm
  replaced : d'.replaced = d.replaced

theorem DataDir.Same.refl (d : DataDir β) : d.Same d := ⟨rfl, rfl, rfl, rfl, rfl⟩

theorem DataDir.Same.trans (a b c : DataDir β) (h : a.Same b) (h' : b.Same c) : a.Same c :=
  ⟨h'.inode.trans h.inode, h'.blocks.trans h.blocks, h'.wal.trans h.wal, h'.shm.trans h.shm,
    h'.replaced.trans h.replaced⟩

theorem perform_stops (s : Step) {f : DataDir β → DataDir β} (hf : ∀ d : DataDir β, d.Same (f d)) :
    Stops DataDir.Same (m.fails s) (perform m s f) := by
  unfold perform
  cases m.fails s with
  | true => exact ⟨fun _ => rfl, .refl⟩
  | false => exact ⟨fun _ => rfl, hf⟩

theorem check_stops (s : Step) : Stops DataDir.Same (m.fails s) (check m s : Fallible (DataDir β) _ _) :=
  perform_stops s .refl

theorem settle_stops (previous : Option (File β)) :
    Stops DataDir.Same (m.unsettled previous.isSome) ((do
      check m .fsync
      check m .close
      fsyncDir m) >>= fun _ => inherit m previous) := by
  have hflush : Stops DataDir.Same
      (m.fails .fsync || (m.fails .close || !m.windows && (m.fails .openDir || m.fails .fsyncDir))) (do
        check m .fsync
        check m .close
        fsyncDir m : Fallible (DataDir β) RestoreError Unit) :=
    (check_stops .fsync).bind .trans ((check_stops .close).bind .trans
      (.unless .refl m.windows ((check_stops .openDir).bind .trans (check_stops .fsyncDir))))
  refine hflush.bind .trans ?_
  cases previous with
  | none => exact .done .refl
  | some previous =>
    rw [Option.isSome_some, Bool.true_and]
    refine Stops.bind .trans (.unless .refl m.windows (perform_stops .chown fun d => ?_))
      (perform_stops .chmod fun d => ?_)
    all_goals
      refine ⟨?_, ?_, rfl, rfl, rfl⟩
      all_goals rw [Option.map_map]; rfl

theorem moveExisting_run : (moveExisting m).run dir =
    if m.fails .statDb then (.error (.failed .statDb), dir)
    else match dir.db, replacedPath m dir with
      | none, _ => (.ok none, dir)
      | some _, .error e => (.error e, dir)
      | some previous, .ok stamp =>
        if m.fails .rename then (.error (.failed .rename), dir)
        else (.ok (some previous), dir.moveAside previous stamp) := by
  unfold moveExisting
  rw [run_check_bind]
  cases m.fails .statDb with
  | true => rfl
  | false =>
    simp only [Bool.false_eq_true, if_false, run_bind, run_gets, id]
    cases dir.db with
    | none => rfl
    | some previous =>
      simp only
      cases replacedPath m dir with
      | error e => rfl
      | ok stamp => exact run_perform_bind _ _ _

theorem restore_blocked (snapshot : List β) (h : m.blocked dir = true) :
    ((restore m snapshot).run dir).2 = dir ∧ ((restore m snapshot).run dir).1.isOk = false := by
  unfold restore
  rw [run_check_bind, run_check_bind, run_bind, moveExisting_run]
  unfold Machine.blocked at h
  cases hv : m.fails .verify with
  | true => exact ⟨rfl, rfl⟩
  | false =>
    cases hm : m.fails .mkdir with
    | true => exact ⟨rfl, rfl⟩
    | false =>
      cases hs : m.fails .statDb with
      | true => exact ⟨rfl, rfl⟩
      | false =>
        simp only [hv, hm, hs, Bool.false_or, Bool.and_eq_true] at h
        obtain ⟨hdb, hr⟩ := h
        obtain ⟨previous, hp⟩ := Option.isSome_iff_exists.mp hdb
        simp only [hp, Bool.false_eq_true, if_false]
        cases hname : replacedPath m dir with
        | error e => exact ⟨rfl, rfl⟩
        | ok stamp =>
          have hrename : m.fails .rename = true := by simpa [hname, Except.isOk, Except.toBool] using hr
          simp only [hrename, if_true]
          exact ⟨trivial, rfl⟩

def install (m : Machine) (snapshot : List β) (previous : Option (File β)) :
    Fallible (DataDir β) RestoreError Unit := do
  copyFileFsync m snapshot
  inherit m previous
  perform m .removeWal ({ · with wal := none })
  perform m .removeShm ({ · with shm := none })

theorem restore_moved (h : m.blocked dir = false) :
    (restore m snapshot).run dir = (install m snapshot dir.db).run (dir.moved m) := by
  unfold restore
  rw [run_check_bind, run_check_bind, run_bind, moveExisting_run]
  unfold Machine.blocked at h
  simp only [Bool.or_eq_false_iff, Bool.and_eq_false_iff] at h
  obtain ⟨⟨⟨hv, hm⟩, hs⟩, hr⟩ := h
  simp only [hv, hm, hs, Bool.false_eq_true, if_false]
  unfold DataDir.moved
  cases hdb : dir.db with
  | none => rfl
  | some previous =>
    rw [hdb] at hr
    simp only [Option.isSome_some, Bool.true_eq_false, false_or] at hr
    cases hname : replacedPath m dir with
    | error e => simp [hname, Except.isOk, Except.toBool] at hr
    | ok stamp =>
      simp only [hr.2, Bool.false_eq_true, if_false]
      rfl

theorem install_misplaced (snapshot : List β) (d : DataDir β) (previous : Option (File β))
    (h : m.misplaces = true) :
    ∃ e, (install m snapshot previous).run d = (.error e, d) := by
  unfold install
  rw [run_bind, copyFileFsync, run_check_bind, run_perform_bind]
  cases ho : m.fails .openSnapshot with
  | true => exact ⟨_, rfl⟩
  | false =>
    have hc : m.fails .create = true := by simpa [Machine.misplaces, ho] using h
    simp only [hc, Bool.false_eq_true, if_false, if_true]
    exact ⟨_, rfl⟩

theorem copyFileFsync_run (h : m.misplaces = false) :
    (copyFileFsync m snapshot).run d =
      if m.fails .copy then (.error (.failed .copy), (d.place m).overwrite (snapshot.take m.copied))
      else (do
        check m .fsync
        check m .close
        fsyncDir m : Fallible (DataDir β) RestoreError Unit).run ((d.place m).overwrite snapshot) := by
  unfold Machine.misplaces at h
  rw [Bool.or_eq_false_iff] at h
  rw [copyFileFsync, run_check_bind, run_perform_bind, h.1, h.2]
  simp only [Bool.false_eq_true, if_false, run_bind, copyFile]
  cases m.fails .copy <;> rfl

theorem install_cut (previous : Option (File β)) (h : m.misplaces = false) (hc : m.fails .copy = true) :
    (install m snapshot previous).run d =
      (.error (.failed .copy), (d.place m).overwrite (snapshot.take m.copied)) := by
  unfold install
  rw [run_bind, copyFileFsync_run h, if_pos hc]

theorem install_copied (previous : Option (File β)) (h : m.misplaces = false) (hc : m.fails .copy = false) :
    (install m snapshot previous).run d = (((do
        check m .fsync
        check m .close
        fsyncDir m) >>= fun _ => inherit m previous) >>= fun _ => (do
        perform m .removeWal ({ · with wal := none })
        perform m .removeShm ({ · with shm := none }))).run ((d.place m).overwrite snapshot) := by
  unfold install
  rw [bind_assoc, run_bind, run_bind, copyFileFsync_run h, hc]
  rfl

end

section
variable {β : Type}

/-- Where a restore can stop and what the directory is then. `Same` leaves out owner and mode. -/
inductive Ends (m : Machine) (snapshot : List β) (dir : DataDir β) : Bool → DataDir β → Prop
  | untouched (hb : m.blocked dir = true) : Ends m snapshot dir false dir
  | missing (hb : m.blocked dir = false) (hm : m.misplaces = true) : Ends m snapshot dir false (dir.moved m)
  | cut (hb : m.blocked dir = false) (hm : m.misplaces = false) (hc : m.fails .copy = true) :
      Ends m snapshot dir false (((dir.moved m).place m).overwrite (snapshot.take m.copied))
  | unsettled {d : DataDir β} (hb : m.blocked dir = false) (hm : m.misplaces = false) (hc : m.fails .copy = false)
      (hs : (m.unsettled dir.db.isSome || m.fails .removeWal) = true)
      (hd : (((dir.moved m).place m).overwrite snapshot).Same d) : Ends m snapshot dir false d
  | shmLeft {d : DataDir β} (hb : m.blocked dir = false) (hm : m.misplaces = false) (hc : m.fails .copy = false)
      (hs : (m.unsettled dir.db.isSome || m.fails .removeWal) = false) (hr : m.fails .removeShm = true)
      (hd : ({ ((dir.moved m).place m).overwrite snapshot with wal := none }).Same d) : Ends m snapshot dir false d
  | done {d : DataDir β} (hb : m.blocked dir = false) (hm : m.misplaces = false) (hc : m.fails .copy = false)
      (hs : (m.unsettled dir.db.isSome || m.fails .removeWal) = false) (hr : m.fails .removeShm = false)
      (hd : ({ ((dir.moved m).place m).overwrite snapshot with wal := none, shm := none }).Same d) :
      Ends m snapshot dir true d

theorem DataDir.Same.noWal {d d' : DataDir β} (h : d.Same d') :
    ({ d with wal := none }).Same { d' with wal := none } := ⟨h.inode, h.blocks, rfl, h.shm, h.replaced⟩

theorem DataDir.Same.noShm {d d' : DataDir β} (h : d.Same d') :
    ({ d with shm := none }).Same { d' with shm := none } := ⟨h.inode, h.blocks, h.wal, rfl, h.replaced⟩

theorem restore_ends (m : Machine) (snapshot : List β) (dir : DataDir β) :
    Ends m snapshot dir ((restore m snapshot).run dir).1.isOk ((restore m snapshot).run dir).2 := by
  cases hb : m.blocked dir with
  | true =>
    obtain ⟨hd, hr⟩ := restore_blocked snapshot hb
    rw [hd, hr]
    exact .untouched hb
  | false =>
    rw [restore_moved hb]
    cases hm : m.misplaces with
    | true =>
      obtain ⟨e, he⟩ := install_misplaced snapshot (dir.moved m) dir.db hm
      rw [he]
      exact .missing hb hm
    | false =>
      cases hc : m.fails .copy with
      | true =>
        rw [install_cut _ hm hc]
        exact .cut hb hm hc
      | false =>
        have hsettle := settle_stops (m := m) dir.db
        rw [install_copied _ hm hc, run_bind]
        have hends := hsettle.ends (((dir.moved m).place m).overwrite snapshot)
        have hwithin := hsettle.within (((dir.moved m).place m).overwrite snapshot)
        revert hends hwithin
        cases Fallible.run _ (((dir.moved m).place m).overwrite snapshot) with
        | mk r d =>
          intro hends hwithin
          cases r with
          | error e =>
            have hu : m.unsettled dir.db.isSome = true := by simpa [Except.isOk, Except.toBool] using hends
            exact .unsettled hb hm hc (by rw [hu]; rfl) hwithin
          | ok _ =>
            have hu : m.unsettled dir.db.isSome = false := by simpa [Except.isOk, Except.toBool] using hends
            simp only
            rw [run_perform_bind]
            cases hw : m.fails .removeWal with
            | true => exact .unsettled hb hm hc (by rw [hw, Bool.or_true]) hwithin
            | false =>
              have hs : (m.unsettled dir.db.isSome || m.fails .removeWal) = false := by rw [hu, hw]; rfl
              simp only [Bool.false_eq_true, if_false]
              unfold perform
              cases hr : m.fails .removeShm with
              | true => exact .shmLeft hb hm hc hs hr hwithin.noWal
              | false => exact .done hb hm hc hs hr hwithin.noWal.noShm

end

end Keyhole.Backup
