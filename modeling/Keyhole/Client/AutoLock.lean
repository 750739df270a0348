import Mathlib.Logic.Basic

/-!
# Idle auto-lock

A timer is set again at every sign of activity, and where the page becomes
visible the time since the last sign is compared as well. A timer that is due
may run arbitrarily late, as the machine may have slept. Times are in
milliseconds.
-/

namespace Keyhole.Client

inductive AutoLockSetting
  | one
  | five
  | fifteen
  | thirty
  | sixty
  | onClose
  | never
  deriving DecidableEq, Repr

def AutoLockSetting.minutes : AutoLockSetting → Option Nat
  | one => some 1
  | five => some 5
  | fifteen => some 15
  | thirty => some 30
  | sixty => some 60
  | onClose | never => none

/-- What the page is told. `timer` is the call that `setTimeout` was asked for. -/
inductive PageEvent
  | pointerdown
  | keydown
  | focus
  | visibilitychange (hidden : Bool)
  | timer
  deriving DecidableEq, Repr

/-- The variables of the numeric settings. `timer` is the time from which the pending call may come. -/
structure IdleLock where
  idleMs : Nat
  lastActivity : Nat
  timer : Option Nat
  deriving DecidableEq, Repr

def IdleLock.restart (s : IdleLock) (now : Nat) : IdleLock :=
  { s with lastActivity := now, timer := some (now + s.idleMs) }

def IdleLock.fire (s : IdleLock) : IdleLock := { s with timer := none }

/-- The state, and whether `onLock` is called. -/
def IdleLock.checkElapsed (s : IdleLock) (now : Nat) : IdleLock × Bool :=
  if s.idleMs ≤ now - s.lastActivity then (s.fire, true) else (s.restart now, false)

def IdleLock.handle (s : IdleLock) (now : Nat) : PageEvent → IdleLock × Bool
  | .pointerdown | .keydown | .focus => (s.restart now, false)
  | .visibilitychange _ => s.checkElapsed now
  | .timer => (s.fire, true)

inductive AutoLock
  | off
  | onClose
  | idle (s : IdleLock)
  deriving DecidableEq, Repr

def startAutoLock (setting : AutoLockSetting) (now : Nat) : AutoLock :=
  match setting.minutes with
  | some minutes => .idle (IdleLock.restart ⟨minutes * 60000, now, none⟩ now)
  | none => if setting = .never then .off else .onClose

def AutoLock.handle (a : AutoLock) (now : Nat) (event : PageEvent) : AutoLock × Bool :=
  match a with
  | .off => (.off, false)
  | .onClose => (.onClose, event = .visibilitychange true)
  | .idle s => (.idle (s.handle now event).1, (s.handle now event).2)

def AutoLock.due (now : Nat) : AutoLock → Bool
  | .idle s => s.timer.any (· ≤ now)
  | .off | .onClose => false

/-! ## Runs -/

abbrev Moment : Type := Nat × PageEvent

/-- Time does not go back, and a timer does not run before it is due. -/
def Timed (a : AutoLock) (now : Nat) : List Moment → Prop
  | [] => True
  | (time, event) :: rest => now ≤ time ∧ (event = .timer → a.due time = true) ∧
    Timed (a.handle time event).1 time rest

/-- When `onLock` is called. -/
def locks (a : AutoLock) : List Moment → List (Moment × Bool)
  | [] => []
  | (time, event) :: rest => ((time, event), (a.handle time event).2) :: locks (a.handle time event).1 rest

def PageEvent.isActivity : PageEvent → Bool
  | pointerdown | keydown | focus => true
  | visibilitychange _ | timer => false

/-- `last` is the time of the last event other than a timer's, or of the start, and `locked` says that
`onLock` has been called since. An event that comes `idleMs` or more after the last one finds the vault
locked or locks it, and it is never locked before. -/
def NotOutslept (idleMs : Nat) : (last : Nat) → (locked : Bool) → List (Moment × Bool) → Prop
  | _, _, [] => True
  | last, locked, ((time, event), lock) :: rest =>
    (lock = true → idleMs ≤ time - last) ∧
    if event = .timer then NotOutslept idleMs last (locked || lock) rest
    else (idleMs ≤ time - last → (locked || lock) = true) ∧ NotOutslept idleMs time false rest

/-- No activity is the first to come after the machine slept: the timer has run, where it was `idleMs`
since the last event. And after a change of visibility that late, no other comes sooner than
`idleMs` after the last event until there is activity. `fired`: the timer has run since the last event;
`late`: since the last activity a change of visibility came late. -/
def Attended (idleMs : Nat) : (last : Nat) → (fired late : Bool) → List Moment → Prop
  | _, _, _, [] => True
  | last, fired, late, (time, event) :: rest =>
    match event with
    | .timer => Attended idleMs last true late rest
    | .visibilitychange _ =>
      (late = true → idleMs ≤ time - last) ∧
        Attended idleMs time false (late || decide (idleMs ≤ time - last)) rest
    | .pointerdown | .keydown | .focus => (idleMs ≤ time - last → fired = true) ∧
      Attended idleMs time false false rest

/-! ## What the variables say -/

/-- The state at `now`, when the last event was at `last`. -/
structure IdleLock.Since (s : IdleLock) (now last : Nat) (fired late : Bool) : Prop where
  past : last ≤ now
  active : late = false → s.lastActivity = last ∧ s.timer = if fired then none else some (last + s.idleMs)
  ran : fired = true → late = false ∧ last + s.idleMs ≤ now
  stale : late = true → s.lastActivity + s.idleMs ≤ last ∧ s.timer = none

variable {s : IdleLock} {now last time : Nat} {fired late : Bool}

theorem restart_since (s : IdleLock) (time : Nat) : (s.restart time).Since time time false false where
  past := Nat.le_refl _
  active _ := ⟨rfl, rfl⟩
  ran h := by cases h
  stale h := by cases h

theorem timer_since (h : s.Since now last fired late) (ht : now ≤ time) (hd : s.timer.any (· ≤ time) = true) :
    s.idleMs ≤ time - last ∧ s.fire.Since time last true late := by
  have hl := h.past
  cases late with
  | true => simp [(h.stale rfl).2] at hd
  | false =>
    obtain ⟨ha, htimer⟩ := h.active rfl
    cases fired with
    | true => simp [htimer] at hd
    | false =>
      have hdue : last + s.idleMs ≤ time := by simpa [htimer] using hd
      exact ⟨by omega, by omega, fun _ => ⟨ha, rfl⟩, fun _ => ⟨rfl, hdue⟩, fun h => (by cases h)⟩

theorem checkElapsed_since (h : s.Since now last fired late) (ht : now ≤ time) :
    (s.checkElapsed time).2 = (late || decide (s.idleMs ≤ time - last)) ∧
      (s.checkElapsed time).1.Since time time false (late || decide (s.idleMs ≤ time - last)) := by
  have hl := h.past
  unfold IdleLock.checkElapsed
  cases late with
  | true =>
    obtain ⟨hold, -⟩ := h.stale rfl
    rw [if_pos (show s.idleMs ≤ time - s.lastActivity by omega)]
    refine ⟨rfl, Nat.le_refl _, fun h => (by cases h), fun h => (by cases h), fun _ => ⟨?_, rfl⟩⟩
    change s.lastActivity + s.idleMs ≤ time
    omega
  | false =>
    rw [(h.active rfl).1]
    by_cases hi : s.idleMs ≤ time - last
    · rw [if_pos hi]
      refine ⟨by simp [hi], Nat.le_refl _, fun h => ?_, fun h => (by cases h), fun _ => ⟨?_, rfl⟩⟩
      · simp [hi] at h
      · change s.lastActivity + s.idleMs ≤ time
        have ha := (h.active rfl).1
        omega
    · rw [if_neg hi]
      simpa [hi] using restart_since s time

/-! ## A run -/

theorem handle_activity {event : PageEvent} (h : event.isActivity = true) (s : IdleLock) (now : Nat) :
    s.handle now event = (s.restart now, false) := by
  cases event with
  | pointerdown => rfl
  | keydown => rfl
  | focus => rfl
  | visibilitychange hidden => cases h
  | timer => cases h

theorem attended_activity {event : PageEvent} (h : event.isActivity = true) (idleMs : Nat) (evs : List Moment) :
    Attended idleMs last fired late ((time, event) :: evs) ↔
      (idleMs ≤ time - last → fired = true) ∧ Attended idleMs time false false evs := by
  cases event with
  | pointerdown => exact Iff.rfl
  | keydown => exact Iff.rfl
  | focus => exact Iff.rfl
  | visibilitychange hidden => cases h
  | timer => cases h

theorem notOutslept_event {event : PageEvent} (h : event ≠ .timer) (idleMs : Nat) (lock locked : Bool)
    (rest : List (Moment × Bool)) : NotOutslept idleMs last locked (((time, event), lock) :: rest) ↔
      (lock = true → idleMs ≤ time - last) ∧ (idleMs ≤ time - last → (locked || lock) = true) ∧
        NotOutslept idleMs time false rest := by
  rw [NotOutslept, if_neg h]

theorem activity_run {event : PageEvent} (ha : event.isActivity = true) (evs : List Moment)
    (ih : NotOutslept s.idleMs time false (locks (.idle (s.restart time)) evs) ↔
      Attended s.idleMs time false false evs) :
    NotOutslept s.idleMs last fired (locks (.idle s) ((time, event) :: evs)) ↔
      Attended s.idleMs last fired late ((time, event) :: evs) := by
  have hne : event ≠ .timer := by
    rintro rfl
    cases ha
  rw [attended_activity ha, locks, AutoLock.handle, handle_activity ha, notOutslept_event hne, ih]
  simp

theorem idle_run_iff (evs : List Moment) (h : s.Since now last fired late) (ht : Timed (.idle s) now evs) :
    NotOutslept s.idleMs last fired (locks (.idle s) evs) ↔ Attended s.idleMs last fired late evs := by
  induction evs generalizing s now last fired late with
  | nil => exact Iff.rfl
  | cons ev evs ih =>
    obtain ⟨time, event⟩ := ev
    obtain ⟨hnow, hdue, hrest⟩ := ht
    cases event with
    | pointerdown => exact activity_run rfl evs (ih (restart_since s time) hrest)
    | keydown => exact activity_run rfl evs (ih (restart_since s time) hrest)
    | focus => exact activity_run rfl evs (ih (restart_since s time) hrest)
    | visibilitychange hidden =>
      obtain ⟨hlock, hsince⟩ := checkElapsed_since h hnow
      have hrun := ih hsince hrest
      have hms : (s.checkElapsed time).1.idleMs = s.idleMs := by
        unfold IdleLock.checkElapsed
        split <;> rfl
      rw [hms] at hrun
      rw [locks, notOutslept_event (by simp)]
      change ((s.checkElapsed time).2 = true → _) ∧ (_ → (fired || (s.checkElapsed time).2) = true) ∧
        NotOutslept s.idleMs time false (locks (.idle (s.checkElapsed time).1) evs) ↔ (late = true → _) ∧ _
      rw [hrun, hlock]
      cases late with
      | true => simp
      | false => simp +contextual
    | timer =>
      obtain ⟨hlate, hsince⟩ := timer_since h hnow (hdue rfl)
      have hrun : NotOutslept s.idleMs last true (locks (.idle s.fire) evs) ↔
        Attended s.idleMs last true late evs :=
        ih hsince hrest
      rw [locks, NotOutslept, if_pos rfl]
      change (_ ∧ NotOutslept s.idleMs last (fired || true) (locks (.idle s.fire) evs)) ↔ _
      rw [Bool.or_true, hrun]
      exact ⟨fun h => h.2, fun h => ⟨fun _ => hlate, h⟩⟩

/-- The settings with a number of minutes, over every run. -/
theorem autoLock_not_outslept_iff (setting : AutoLockSetting) {minutes : Nat} (hm : setting.minutes = some minutes)
    (start : Nat) (evs : List Moment) (ht : Timed (startAutoLock setting start) start evs) :
    NotOutslept (minutes * 60000) start false (locks (startAutoLock setting start) evs) ↔
      Attended (minutes * 60000) start false false evs := by
  have hs : startAutoLock setting start = .idle (IdleLock.restart ⟨minutes * 60000, start, none⟩ start) := by
    rw [startAutoLock, hm]
  rw [hs] at ht ⊢
  exact idle_run_iff evs (restart_since _ start) ht

theorem autoLock_not_outslept_quarter :
    NotOutslept (15 * 60000) 0 false (locks (startAutoLock .fifteen 0) [(3600000, .visibilitychange false)]) :=
  (autoLock_not_outslept_iff .fifteen rfl 0 _ (by simp [Timed])).mpr (by simp [Attended])

/-- The lid opens after an hour, and a click comes before anything else. -/
theorem click_outsleeps_lock :
    ¬ ∀ (setting : AutoLockSetting) (minutes start : Nat) (evs : List Moment), setting.minutes = some minutes →
      Timed (startAutoLock setting start) start evs →
      NotOutslept (minutes * 60000) start false (locks (startAutoLock setting start) evs) := by
  intro h
  have := h .fifteen 15 0 [(3600000, .pointerdown)] rfl (by simp [Timed])
  simp [NotOutslept, locks, startAutoLock, AutoLockSetting.minutes, AutoLock.handle, IdleLock.handle] at this

end Keyhole.Client
