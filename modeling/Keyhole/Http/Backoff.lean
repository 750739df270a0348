import Mathlib.Algebra.Order.Ring.Int
import Mathlib.Algebra.Group.Nat.Defs
import Mathlib.Data.List.Induction
import Mathlib.Algebra.Order.GroupWithZero.Basic
import Keyhole.Http.Throttle

/-!
# The limiter at the widths of its own types

The failure counter and the durations are 64 bits wide, and the wait is
computed in floating point. A value the conversion back cannot hold comes out
as one end of the range or the other, which is left to the platform.
-/

namespace Keyhole

namespace Ratelimit
open Store

inductive Extreme
  | smallest
  | largest
  deriving DecidableEq, Repr

def Extreme.value : Extreme → Int64
  | smallest => Int64.minValue
  | largest => Int64.maxValue

/-- `time.Duration` of a float, which drops what is after the point. -/
def duration (platform : Int → Extreme) (nanoseconds : Int) : Int64 :=
  if -2 ^ 63 ≤ nanoseconds ∧ nanoseconds < 2 ^ 63 then Int64.ofInt nanoseconds else (platform nanoseconds).value

def scaled (base : Int) : Int → Int
  | .ofNat exponent => base * 2 ^ exponent
  | .negSucc exponent => base.tdiv (2 ^ (exponent + 1))

structure Entry where
  failures : Int64
  lastSeen : Time
  blockedTo : Time
  deriving DecidableEq

structure Limiter where
  entries : String → Option Entry
  maxFree : Int64
  baseWait : Int64
  maxWait : Int64

namespace Limiter

def new (maxFree base max : Int64) : Limiter := ⟨fun _ => none, maxFree, base, max⟩

def allow (l : Limiter) (key : String) (now : Time) : Bool × Time :=
  match l.entries key with
  | none => (true, 0)
  | some e => if now < e.blockedTo then (false, e.blockedTo - now) else (true, 0)

def wait (platform : Int → Extreme) (l : Limiter) (failures : Int64) : Int64 :=
  let exponent := (failures - l.maxFree).toInt
  let wait := duration platform (scaled l.baseWait.toInt exponent)
  if l.maxWait < wait ∨ wait ≤ 0 then l.maxWait else wait

/-- Instants count from the zero `time.Time`, which no clock reads before. -/
def recordFailure (platform : Int → Extreme) (l : Limiter) (key : String) (now : Time) : Limiter :=
  let e := (l.entries key).getD ⟨0, 0, 0⟩
  let e := { e with failures := e.failures + 1, lastSeen := now }
  let e :=
    if e.failures < l.maxFree then e
    else { e with blockedTo := ((now : Int) + (l.wait platform e.failures).toInt).toNat }
  { l with entries := fun k => if k = key then some e else l.entries k }

def reset (l : Limiter) (key : String) : Limiter :=
  { l with entries := fun k => if k = key then none else l.entries k }

def cutoff (olderThan : Int64) (now : Time) : Int := (now : Int) + (-olderThan).toInt

def sweep (l : Limiter) (olderThan : Int64) (now : Time) : Limiter :=
  { l with entries := fun k => (l.entries k).filter fun e => cutoff olderThan now ≤ (e.lastSeen : Int) }

end Limiter

/-! ## Calls in order -/

inductive Call
  | allow (key : String)
  | recordFailure (key : String)
  | reset (key : String)
  | sweep (olderThan : Int64)
  deriving DecidableEq

namespace Limiter

variable (platform : Int → Extreme)

def call (l : Limiter) (now : Time) : Call → Limiter
  | .allow _ => l
  | .recordFailure key => l.recordFailure platform key now
  | .reset key => l.reset key
  | .sweep olderThan => l.sweep olderThan now

def run : Limiter → List (Time × Call) → Limiter
  | l, [] => l
  | l, (now, c) :: calls => run (l.call platform now c) calls

/-- The calls that take `key` out of the table: its reset, and a sweep that finds it unseen for too long. -/
def removes (l : Limiter) (key : String) (now : Time) : Call → Bool
  | .allow _ | .recordFailure _ => false
  | .reset k => k = key
  | .sweep olderThan => (l.entries key).any fun e => (e.lastSeen : Int) < cutoff olderThan now

def Kept (key : String) : Limiter → List (Time × Call) → Prop
  | _, [] => True
  | l, (now, c) :: calls => l.removes key now c = false ∧ Kept key (l.call platform now c) calls

def strike (l : Limiter) (key : String) (now : Time) (c : Call) (times : List Time) : List Time :=
  if l.removes key now c then [] else if c = .recordFailure key then times ++ [now] else times

def streak (key : String) : Limiter → List (Time × Call) → List Time → List Time
  | _, [], times => times
  | l, (now, c) :: calls, times => streak key (l.call platform now c) calls (l.strike key now c times)

def blockedUntil (l : Limiter) (key : String) : Time := ((l.entries key).map Entry.blockedTo).getD 0

def penalty (l : Limiter) (k : Nat) : Int :=
  min l.maxWait.toInt (l.baseWait.toInt * 2 ^ ((k : Int) - l.maxFree.toInt).toNat)

/-! ## The wait -/

theorem toInt_ofNat {k : Nat} (hk : k < 2 ^ 63) : (Int64.ofNat k).toInt = k := by
  rw [← Int64.ofInt_eq_ofNat]
  exact Int64.toInt_ofInt_of_le (by omega) (by omega)

theorem ofNat_succ {k : Nat} (hk : k + 1 < 2 ^ 63) : Int64.ofNat k + 1 = Int64.ofNat (k + 1) := by
  apply Int64.toInt_inj.mp
  rw [Int64.toInt_add, toInt_ofNat hk, toInt_ofNat (by omega)]
  exact Int.bmod_eq_of_le (by simp; omega) (by simp; omega)

theorem toInt_sub_of_le {a b : Int64} (hb : 1 ≤ b.toInt) (hab : b.toInt ≤ a.toInt) :
    (a - b).toInt = a.toInt - b.toInt := by
  have ha := a.toInt_lt
  rw [Int64.toInt_sub]
  exact Int.bmod_eq_of_le (by omega) (by omega)

/-- The float is right or out of range, and out of range the clamp makes it right. -/
theorem clamp_duration {max : Int64} {v : Int} (hmax : 0 < max.toInt) (hv : 0 < v) :
    (if max < duration platform v ∨ duration platform v ≤ 0 then max else duration platform v).toInt =
      min max.toInt v := by
  have hlt := max.toInt_lt
  simp only [Int64.lt_iff_toInt_lt, Int64.le_iff_toInt_le, apply_ite Int64.toInt, Int64.toInt_zero]
  by_cases hr : v < 2 ^ 63
  · have hd : (duration platform v).toInt = v := by
      rw [duration, if_pos ⟨by omega, hr⟩]
      exact Int64.toInt_ofInt_of_le (by omega) hr
    rw [hd]
    by_cases hm : max.toInt < v
    · rw [if_pos (.inl hm)]
      omega
    · rw [if_neg (by omega)]
      omega
  · have hd : duration platform v = (platform v).value := if_neg fun h => hr h.2
    rw [hd]
    cases platform v with
    | smallest =>
      rw [if_pos (.inr (by decide))]
      omega
    | largest =>
      have hl : Extreme.largest.value.toInt = 2 ^ 63 - 1 := by decide
      rw [hl]
      by_cases hm : max.toInt < 2 ^ 63 - 1
      · rw [if_pos (.inl hm)]
        omega
      · rw [if_neg (by omega)]
        omega

theorem wait_toInt {l : Limiter} (hfree : 1 ≤ l.maxFree.toInt) (hbase : 0 < l.baseWait.toInt)
    (hmax : l.baseWait.toInt ≤ l.maxWait.toInt) {k : Nat} (hk : k < 2 ^ 63) (hle : l.maxFree.toInt ≤ k) :
    (l.wait platform (Int64.ofNat k)).toInt = l.penalty k := by
  obtain ⟨e, he⟩ : ∃ e : Nat, (k : Int) - l.maxFree.toInt = e := ⟨_, (Int.toNat_of_nonneg (by omega)).symm⟩
  have hexp : (Int64.ofNat k - l.maxFree).toInt = (e : Int) := by
    rw [toInt_sub_of_le hfree (by rw [toInt_ofNat hk]; exact hle), toInt_ofNat hk, he]
  have hpos : 0 < l.baseWait.toInt * 2 ^ e := Int.mul_pos hbase (Int.pow_pos (by omega))
  have hscaled : scaled l.baseWait.toInt (Int64.ofNat k - l.maxFree).toInt = l.baseWait.toInt * 2 ^ e := by
    rw [hexp]
    rfl
  rw [penalty, he, Int.toNat_natCast, ← clamp_duration platform (by omega) hpos, ← hscaled]
  rfl

/-! ## What a table holds -/

/-- The entry of a key whose failures since its last removal came at `times`. -/
def entryOf (l : Limiter) (times : List Time) : Option Entry :=
  times.getLast?.map fun t => {
    failures := Int64.ofNat times.length
    lastSeen := t
    blockedTo := if times.length < l.maxFree.toInt then 0 else ((t : Int) + l.penalty times.length).toNat }

def Alike (l l' : Limiter) : Prop := l'.maxFree = l.maxFree ∧ l'.baseWait = l.baseWait ∧ l'.maxWait = l.maxWait

theorem call_alike (l : Limiter) (now : Time) (c : Call) : Alike l (l.call platform now c) := by
  cases c <;> exact ⟨rfl, rfl, rfl⟩

theorem entryOf_alike {l l' : Limiter} (h : Alike l l') (times : List Time) :
    l'.entryOf times = l.entryOf times := by
  obtain ⟨h₁, h₂, h₃⟩ := h
  simp only [entryOf, penalty, h₁, h₂, h₃]

/-- The durations the limiter was made with, and the failures it lets through. -/
structure Sound (l : Limiter) : Prop where
  free : 1 ≤ l.maxFree.toInt
  base : 0 < l.baseWait.toInt
  max : l.baseWait.toInt ≤ l.maxWait.toInt

theorem Sound.alike {l l' : Limiter} (hs : l.Sound) (h : Alike l l') : l'.Sound := by
  obtain ⟨h₁, h₂, h₃⟩ := h
  exact ⟨h₁ ▸ hs.free, h₂ ▸ hs.base, h₂ ▸ h₃ ▸ hs.max⟩

theorem recordFailure_entry {l : Limiter} (hs : l.Sound) {key : String} {times : List Time}
    (he : l.entries key = l.entryOf times) (hk : times.length + 1 < 2 ^ 63) (now : Time) :
    (l.recordFailure platform key now).entries key = l.entryOf (times ++ [now]) := by
  have hcount : ((l.entries key).getD ⟨0, 0, 0⟩).failures = Int64.ofNat times.length := by
    rw [he, entryOf]
    cases h : times.getLast? with
    | none => rw [List.getLast?_eq_none_iff.mp h]; rfl
    | some t => rfl
  have hfree : times.length < l.maxFree.toInt → ((l.entries key).getD ⟨0, 0, 0⟩).blockedTo = 0 := by
    intro hlt
    rw [he, entryOf]
    cases times.getLast? with
    | none => rfl
    | some t => exact if_pos hlt
  have hlen : ((times ++ [now]).length : Int) = (times.length : Int) + 1 := by simp
  unfold recordFailure entryOf
  simp only [if_true, hcount, ofNat_succ hk, List.getLast?_concat, Option.map_some, Option.some.injEq]
  rw [show (times ++ [now]).length = times.length + 1 by simp]
  by_cases hlt : ((times.length + 1 : Nat) : Int) < l.maxFree.toInt
  · rw [if_pos hlt, if_pos (by rw [Int64.lt_iff_toInt_lt, toInt_ofNat hk]; exact hlt), hfree (by omega)]
  · rw [if_neg hlt, if_neg (by rw [Int64.lt_iff_toInt_lt, toInt_ofNat hk]; exact hlt),
      wait_toInt platform hs.free hs.base hs.max hk (by omega)]

theorem call_entry_of_other {l : Limiter} {key : String} {now : Time} {c : Call}
    (hr : l.removes key now c = false) (hc : c ≠ .recordFailure key) :
    (l.call platform now c).entries key = l.entries key := by
  cases c with
  | allow k => rfl
  | recordFailure k => exact if_neg fun h => hc (by rw [h])
  | reset k => exact if_neg fun h => by simp [removes, h] at hr
  | sweep age =>
    show (l.entries key).filter _ = l.entries key
    cases he : l.entries key with
    | none => rfl
    | some e =>
      have hle : cutoff age now ≤ (e.lastSeen : Int) := by simpa [removes, he] using hr
      simp [Option.filter, hle]

theorem call_entry_of_removes {l : Limiter} {key : String} {now : Time} {c : Call}
    (hr : l.removes key now c = true) : (l.call platform now c).entries key = none := by
  cases c with
  | allow k => simp [removes] at hr
  | recordFailure k => simp [removes] at hr
  | reset k => exact if_pos (by simpa [removes, eq_comm] using hr)
  | sweep age =>
    show (l.entries key).filter _ = none
    cases he : l.entries key with
    | none => rfl
    | some e =>
      have hlt : (e.lastSeen : Int) < cutoff age now := by simpa [removes, he] using hr
      simp [Option.filter, hlt]

theorem call_entry {l : Limiter} (hs : l.Sound) {key : String} {times : List Time}
    (he : times.length < 2 ^ 63 → l.entries key = l.entryOf times) {now : Time} {c : Call}
    (hk : (l.strike key now c times).length < 2 ^ 63) :
    (l.call platform now c).entries key = l.entryOf (l.strike key now c times) := by
  unfold strike at hk ⊢
  by_cases hr : l.removes key now c = true
  · rw [if_pos hr]
    exact call_entry_of_removes platform hr
  · rw [if_neg hr] at hk ⊢
    by_cases hc : c = .recordFailure key
    · rw [if_pos hc] at hk ⊢
      have hlen : times.length + 1 < 2 ^ 63 := by simpa using hk
      rw [hc]
      exact recordFailure_entry platform hs (he (by omega)) hlen now
    · rw [if_neg hc] at hk ⊢
      rw [call_entry_of_other platform (by simpa using hr) hc, he hk]

theorem run_alike (l : Limiter) (calls : List (Time × Call)) : Alike l (l.run platform calls) := by
  induction calls generalizing l with
  | nil => exact ⟨rfl, rfl, rfl⟩
  | cons c calls ih =>
    obtain ⟨h₁, h₂, h₃⟩ := call_alike platform l c.1 c.2
    obtain ⟨h₁', h₂', h₃'⟩ := ih (l.call platform c.1 c.2)
    exact ⟨h₁'.trans h₁, h₂'.trans h₂, h₃'.trans h₃⟩

theorem run_entry {l : Limiter} (hs : l.Sound) {key : String} (calls : List (Time × Call)) {times : List Time}
    (he : times.length < 2 ^ 63 → l.entries key = l.entryOf times)
    (hk : (streak platform key l calls times).length < 2 ^ 63) :
    (l.run platform calls).entries key = l.entryOf (streak platform key l calls times) := by
  induction calls generalizing l times with
  | nil => exact he hk
  | cons c calls ih =>
    have ha := call_alike platform l c.1 c.2
    have hstep : (l.strike key c.1 c.2 times).length < 2 ^ 63 →
        (l.call platform c.1 c.2).entries key =
          (l.call platform c.1 c.2).entryOf (l.strike key c.1 c.2 times) := by
      intro h
      rw [entryOf_alike ha]
      exact call_entry platform hs he h
    have := ih (hs.alike ha) hstep hk
    rw [entryOf_alike ha] at this
    exact this

theorem run_append (l : Limiter) (before after : List (Time × Call)) :
    l.run platform (before ++ after) = (l.run platform before).run platform after := by
  induction before generalizing l with
  | nil => rfl
  | cons c before ih => exact ih _

theorem streak_append (key : String) (l : Limiter) (before after : List (Time × Call)) (times : List Time) :
    streak platform key l (before ++ after) times =
      streak platform key (l.run platform before) after (streak platform key l before times) := by
  induction before generalizing l times with
  | nil => rfl
  | cons c before ih => exact ih _ _

theorem streak_sublist (key : String) (l : Limiter) (calls : List (Time × Call)) (times : List Time) :
    (streak platform key l calls times).Sublist (times ++ calls.map Prod.fst) := by
  induction calls generalizing l times with
  | nil => simp [streak]
  | cons c calls ih =>
    have hs : (l.strike key c.1 c.2 times).Sublist (times ++ [c.1]) := by
      unfold strike
      split
      · simp
      · split
        · exact List.Sublist.refl _
        · exact List.sublist_append_left _ _
    have := (ih (l.call platform c.1 c.2) (l.strike key c.1 c.2 times)).trans (hs.append_right _)
    rw [List.append_assoc] at this
    exact this

theorem streak_of_kept {key : String} {l : Limiter} {calls : List (Time × Call)} (h : Kept platform key l calls)
    (times : List Time) : times <+: streak platform key l calls times := by
  induction calls generalizing l times with
  | nil => exact List.prefix_refl times
  | cons c calls ih =>
    have hs : times <+: l.strike key c.1 c.2 times := by
      unfold strike
      rw [if_neg (by simp [h.1])]
      split
      · exact List.prefix_append times [c.1]
      · exact List.prefix_refl times
    exact hs.trans (ih h.2 _)

/-! ## Blocks -/

def due (l : Limiter) (times : List Time) : Time := ((l.entryOf times).map Entry.blockedTo).getD 0

theorem due_concat (l : Limiter) (times : List Time) (now : Time) :
    l.due (times ++ [now]) = if (times.length + 1 : Int) < l.maxFree.toInt then 0
      else ((now : Int) + l.penalty (times.length + 1)).toNat := by
  simp [due, entryOf]

theorem penalty_pos {l : Limiter} (hs : l.Sound) (k : Nat) : 0 < l.penalty k := by
  obtain ⟨-, hbase, hmax⟩ := hs
  exact lt_min (by omega) (Int.mul_pos hbase (Int.pow_pos (by omega)))

theorem penalty_mono {l : Limiter} (hs : l.Sound) {j k : Nat} (h : j ≤ k) : l.penalty j ≤ l.penalty k := by
  unfold penalty
  have hexp : ((j : Int) - l.maxFree.toInt).toNat ≤ ((k : Int) - l.maxFree.toInt).toNat := by omega
  have hpow : (2 : Int) ^ ((j : Int) - l.maxFree.toInt).toNat ≤ 2 ^ ((k : Int) - l.maxFree.toInt).toNat :=
    pow_le_pow_right₀ (by omega) hexp
  exact min_le_min_left _ (Int.mul_le_mul_of_nonneg_left hpow (Int.le_of_lt hs.base))

theorem due_concat_le {l : Limiter} (hs : l.Sound) {times : List Time} {now : Time}
    (hclock : ∀ t ∈ times, t ≤ now) :
    l.due times ≤ l.due (times ++ [now]) := by
  induction times using List.reverseRecOn with
  | nil => exact Nat.zero_le _
  | append_singleton times t ih =>
    rw [due_concat, due_concat]
    have ht : (t : Int) ≤ now := Int.ofNat_le.mpr (hclock t (by simp))
    have hmono : l.penalty (times.length + 1) ≤ l.penalty (times.length + 1 + 1) := penalty_mono hs (by omega)
    have hpos := penalty_pos hs (times.length + 1)
    rw [List.length_append, List.length_singleton]
    by_cases h₁ : (times.length + 1 : Int) < l.maxFree.toInt
    · rw [if_pos h₁]
      exact Nat.zero_le _
    · rw [if_neg h₁, if_neg (by omega)]
      exact Int.toNat_le_toNat (by omega)

theorem due_mono {l : Limiter} (hs : l.Sound) {times times' : List Time} (h : times <+: times')
    (hclock : times'.Pairwise (· ≤ ·)) : l.due times ≤ l.due times' := by
  obtain ⟨more, rfl⟩ := h
  induction more using List.reverseRecOn with
  | nil => simp
  | append_singleton more now ih =>
    rw [← List.append_assoc] at hclock ⊢
    have hp := List.pairwise_append.mp hclock
    exact le_trans (ih hp.1) (due_concat_le hs fun t ht => hp.2.2 t ht now (by simp))

/-! ## What a sweep may take -/

/-- An entry was seen no later than `now`, and blocks no longer than the longest wait after that. -/
def Entry.Bounded (maxWait : Int64) (now : Time) (e : Entry) : Prop :=
  e.lastSeen ≤ now ∧ (e.blockedTo : Int) ≤ e.lastSeen + maxWait.toInt

theorem Entry.bounded_now {maxWait failures : Int64} {now blockedTo : Time}
    (h : (blockedTo : Int) ≤ now + maxWait.toInt) : Entry.Bounded maxWait now ⟨failures, now, blockedTo⟩ :=
  ⟨le_refl now, h⟩

def Bounded (l : Limiter) (now : Time) : Prop := ∀ key, ∀ e ∈ l.entries key, Entry.Bounded l.maxWait now e

theorem wait_le (l : Limiter) (failures : Int64) : (l.wait platform failures).toInt ≤ l.maxWait.toInt := by
  unfold wait
  simp only
  split
  · exact le_refl _
  · rename_i h
    simp only [Int64.lt_iff_toInt_lt, not_or] at h
    omega

theorem toNat_add_le {n w m : Int} (hn : 0 ≤ n) (hm : 0 ≤ m) (hw : w ≤ m) : ((n + w).toNat : Int) ≤ n + m := by
  omega

theorem Bounded.mono {l : Limiter} {now now' : Time} (h : l.Bounded now) (hle : now ≤ now') : l.Bounded now' :=
  fun key e he => ⟨le_trans (h key e he).1 hle, (h key e he).2⟩

theorem call_bounded {l : Limiter} (hm : 0 ≤ l.maxWait.toInt) {now : Time} (h : l.Bounded now) (c : Call) :
    (l.call platform now c).Bounded now := by
  intro key e he
  cases c with
  | allow k => exact h key e he
  | reset k =>
    by_cases hk : key = k
    · rw [show (l.call platform now (.reset k)).entries key = none from if_pos hk] at he
      cases he
    · rw [show (l.call platform now (.reset k)).entries key = l.entries key from if_neg hk] at he
      exact h key e he
  | sweep age =>
    have he : (l.entries key).filter _ = some e := he
    exact h key e (Option.eq_some_of_filter_eq_some he)
  | recordFailure k =>
    by_cases hk : key = k
    · subst hk
      have hw := wait_le platform l (((l.entries key).getD ⟨0, 0, 0⟩).failures + 1)
      have hold : (((l.entries key).getD ⟨0, 0, 0⟩).blockedTo : Int) ≤ now + l.maxWait.toInt := by
        cases hl : l.entries key with
        | none => exact Int.add_nonneg (Int.natCast_nonneg now) hm
        | some e₀ =>
          obtain ⟨h₁, h₂⟩ := h key e₀ hl
          have : (e₀.lastSeen : Int) ≤ now := Int.ofNat_le.mpr h₁
          exact le_trans h₂ (by omega)
      have he : some _ = some e := (if_pos rfl).symm.trans he
      obtain rfl := Option.some.inj he
      split
      · exact Entry.bounded_now hold
      · exact Entry.bounded_now (toNat_add_le (Int.natCast_nonneg now) hm hw)
    · rw [show (l.call platform now (.recordFailure k)).entries key = l.entries key from if_neg hk] at he
      exact h key e he

theorem run_bounded {l : Limiter} (hm : 0 ≤ l.maxWait.toInt) {t : Time} (h : l.Bounded t)
    (calls : List (Time × Call)) {now : Time} (hclock : (t :: calls.map Prod.fst ++ [now]).Pairwise (· ≤ ·)) :
    (l.run platform calls).Bounded now := by
  induction calls generalizing l t with
  | nil => exact h.mono ((List.pairwise_cons.mp hclock).1 now (by simp))
  | cons c calls ih =>
    have hp := List.pairwise_cons.mp hclock
    refine ih ?_ (call_bounded platform hm (h.mono (hp.1 c.1 (by simp))) c.2) hp.2
    rw [(call_alike platform l c.1 c.2).2.2]
    exact hm

theorem toInt_neg_le {age : Int64} (h : 0 ≤ age.toInt) : (-age).toInt = -age.toInt := by
  have := age.toInt_lt
  rw [Int64.toInt_neg]
  exact Int.bmod_eq_of_le (by omega) (by omega)

theorem sweep_keeps {l : Limiter} {key : String} {e : Entry} (he : l.entries key = some e) {age : Int64}
    (hage : 0 ≤ age.toInt) {now : Time} (hseen : (now : Int) ≤ e.lastSeen + age.toInt) :
    (l.sweep age now).entries key = some e := by
  have hcut : cutoff age now ≤ (e.lastSeen : Int) := by
    rw [cutoff, toInt_neg_le hage]
    omega
  show (l.entries key).filter _ = some e
  simp [he, Option.filter, hcut]

/-! ## Any run -/

theorem new_sound {maxFree base max : Int64} (hfree : 1 ≤ maxFree) (hbase : 0 < base) (hmax : base ≤ max) :
    (new maxFree base max).Sound :=
  ⟨Int64.le_iff_toInt_le.mp hfree, Int64.lt_iff_toInt_lt.mp hbase, Int64.le_iff_toInt_le.mp hmax⟩

theorem new_bounded (maxFree base max : Int64) : (new maxFree base max).Bounded 0 := fun _ _ he => nomatch he

section
variable {maxFree base max : Int64} {key : String}

theorem run_new_entry (hs : (new maxFree base max).Sound) (calls : List (Time × Call))
    (hk : (streak platform key (new maxFree base max) calls []).length < 2 ^ 63) :
    ((new maxFree base max).run platform calls).entries key =
      (new maxFree base max).entryOf (streak platform key (new maxFree base max) calls []) :=
  run_entry platform hs calls (fun _ => rfl) hk

theorem blockedUntil_run (hs : (new maxFree base max).Sound) (calls : List (Time × Call))
    (hk : (streak platform key (new maxFree base max) calls []).length < 2 ^ 63) :
    ((new maxFree base max).run platform calls).blockedUntil key =
      (new maxFree base max).due (streak platform key (new maxFree base max) calls []) := by
  rw [blockedUntil, run_new_entry platform hs calls hk, due]

theorem blockedUntil_mono (hs : (new maxFree base max).Sound) {before after : List (Time × Call)}
    (hclock : ((before ++ after).map Prod.fst).Pairwise (· ≤ ·))
    (hkept : Kept platform key ((new maxFree base max).run platform before) after)
    (hk : (streak platform key (new maxFree base max) (before ++ after) []).length < 2 ^ 63) :
    ((new maxFree base max).run platform before).blockedUntil key ≤
      ((new maxFree base max).run platform (before ++ after)).blockedUntil key := by
  have hpre := streak_of_kept platform hkept (streak platform key (new maxFree base max) before [])
  rw [← streak_append] at hpre
  have hsorted := hclock.sublist (streak_sublist platform key (new maxFree base max) (before ++ after) [])
  have hlen := hpre.length_le
  rw [blockedUntil_run platform hs before (by omega), blockedUntil_run platform hs _ hk]
  exact due_mono hs hpre hsorted

theorem blockedUntil_recordFailure (hs : (new maxFree base max).Sound) (calls : List (Time × Call)) (now : Time)
    (hk : (streak platform key (new maxFree base max) calls []).length + 1 < 2 ^ 63) :
    ((((new maxFree base max).run platform calls).recordFailure platform key now).blockedUntil key : Int) =
      let k : Int := (streak platform key (new maxFree base max) calls []).length + 1
      if k < maxFree.toInt then 0 else now + min max.toInt (base.toInt * 2 ^ (k - maxFree.toInt).toNat) := by
  have ha := run_alike platform (new maxFree base max) calls
  have he := run_new_entry platform hs calls (Nat.lt_of_succ_lt hk)
  rw [← entryOf_alike ha] at he
  rw [blockedUntil, recordFailure_entry platform (hs.alike ha) he hk now, entryOf_alike ha]
  refine (congrArg Nat.cast (due_concat (new maxFree base max) _ now)).trans ?_
  have hpos := penalty_pos hs ((streak platform key (new maxFree base max) calls []).length + 1)
  simp only [show (new maxFree base max).maxFree = maxFree from rfl]
  split
  · rfl
  · rw [Int.toNat_of_nonneg (by omega)]
    simp [penalty, new]

theorem allow_eq (l : Limiter) (key : String) (now : Time) :
    l.allow key now = if now < l.blockedUntil key then (false, l.blockedUntil key - now) else (true, 0) := by
  unfold allow blockedUntil
  cases l.entries key with
  | none => exact (if_neg (Nat.not_lt_zero now)).symm
  | some e => rfl

theorem sweep_blocked (hs : (new maxFree base max).Sound) {calls : List (Time × Call)} {now : Time}
    (hclock : (calls.map Prod.fst ++ [now]).Pairwise (· ≤ ·)) {age : Int64} (hage : max ≤ age)
    (hb : now < ((new maxFree base max).run platform calls).blockedUntil key) :
    (((new maxFree base max).run platform calls).sweep age now).entries key =
      ((new maxFree base max).run platform calls).entries key := by
  have hmax : 0 < max.toInt := Int.lt_of_lt_of_le hs.base hs.max
  have hage : max.toInt ≤ age.toInt := Int64.le_iff_toInt_le.mp hage
  have hbound := run_bounded platform (Int.le_of_lt hmax) (new_bounded maxFree base max) calls
    (List.pairwise_cons.mpr ⟨fun t _ => Nat.zero_le t, hclock⟩)
  unfold blockedUntil at hb
  cases he : ((new maxFree base max).run platform calls).entries key with
  | none =>
    rw [he] at hb
    exact absurd hb (Nat.not_lt_zero now)
  | some e =>
    rw [he] at hb
    have hlt : (now : Int) < e.blockedTo := Int.ofNat_lt.mpr hb
    have hle := (hbound key e he).2
    rw [(run_alike platform (new maxFree base max) calls).2.2] at hle
    have hle : (e.blockedTo : Int) ≤ e.lastSeen + max.toInt := hle
    exact sweep_keeps he (by omega) (by omega)

end

/-- After any calls the block of a key is the one its failures since its last
removal are due; no call before the next removal shortens it, and no sweep of
an age from the longest wait on removes the key while it lasts. -/
theorem backoff_exact {maxFree base max : Int64} (hfree : 1 ≤ maxFree) (hbase : 0 < base) (hmax : base ≤ max)
    (calls : List (Time × Call)) (now : Time) (hclock : (calls.map Prod.fst ++ [now]).Pairwise (· ≤ ·))
    (key : String) :
    let l₀ := new maxFree base max
    let l := l₀.run platform calls
    let failed := streak platform key l₀ calls []
    (∀ before after, calls = before ++ after → Kept platform key (l₀.run platform before) after →
      failed.length < 2 ^ 63 → (l₀.run platform before).blockedUntil key ≤ l.blockedUntil key) ∧
    (failed.length + 1 < 2 ^ 63 →
      ((l.recordFailure platform key now).blockedUntil key : Int) =
        let k : Int := failed.length + 1
        if k < maxFree.toInt then 0 else now + min max.toInt (base.toInt * 2 ^ (k - maxFree.toInt).toNat)) ∧
    l.allow key now = (if now < l.blockedUntil key then (false, l.blockedUntil key - now) else (true, 0)) ∧
    (failed.length < 2 ^ 63 →
      (l.entries key).map (fun e => (e.failures.toInt, e.lastSeen)) =
        failed.getLast?.map ((failed.length : Int), ·)) ∧
    ∀ age, max ≤ age →
      (now < l.blockedUntil key → (l.sweep age now).entries key = l.entries key) ∧
      ∀ e ∈ l.entries key, (now : Int) ≤ e.lastSeen + age.toInt → (l.sweep age now).entries key = some e := by
  have hs := new_sound hfree hbase hmax
  intro l₀ l failed
  refine ⟨?_, ?_, allow_eq l key now, ?_, ?_⟩
  · rintro before after rfl hkept hk
    exact blockedUntil_mono platform hs (List.pairwise_append.mp hclock).1 hkept hk
  · exact blockedUntil_recordFailure platform hs calls now
  · intro hk
    rw [run_new_entry platform hs calls hk, entryOf, Option.map_map]
    refine congrArg (fun f => Option.map f failed.getLast?) (funext fun t => ?_)
    show ((Int64.ofNat failed.length).toInt, t) = _
    rw [toInt_ofNat hk]
  · intro age hage
    have hage' : 0 ≤ age.toInt := by
      have h₁ : max.toInt ≤ age.toInt := Int64.le_iff_toInt_le.mp hage
      have h₂ : 0 < base.toInt := hs.base
      have h₃ : base.toInt ≤ max.toInt := hs.max
      omega
    exact ⟨sweep_blocked platform hs hclock hage, fun e he hseen => sweep_keeps he hage' hseen⟩

theorem backoff_exact_doubled :
    (((new 2 3 100).run (fun _ => .largest) [(0, .recordFailure "a"), (1, .recordFailure "a"), (2, .allow "a"),
      (4, .sweep 100)]).recordFailure (fun _ => .largest) "a" 5).blockedUntil "a" = 5 + 6 :=
  Int.ofNat.inj ((backoff_exact (fun _ => .largest) (by decide) (by decide) (by decide)
    [(0, .recordFailure "a"), (1, .recordFailure "a"), (2, .allow "a"), (4, .sweep 100)] 5
    (by decide) "a").2.1 (by decide))

theorem streak_replicate (key : String) (now : Time) (n : Nat) (l : Limiter) (times : List Time) :
    streak platform key l (List.replicate n (now, .recordFailure key)) times = times ++ List.replicate n now := by
  induction n generalizing l times with
  | zero => simp [streak]
  | succ n ih =>
    rw [List.replicate_succ, streak, ih, strike]
    simp [removes, List.replicate_succ]

/-- The failure after the counter's last value wraps it round, and the block stays where it was. -/
theorem recordFailure_wrapped {n : Nat} (hn : n + 1 = 2 ^ 63) :
    ((new 1 2 4).run platform
      (List.replicate n (0, .recordFailure "a") ++ [(1, .recordFailure "a")])).blockedUntil "a" = 4 := by
  have hs : (new 1 2 4).Sound := new_sound (by decide) (by decide) (by decide)
  have hk := streak_replicate platform "a" 0 n (new 1 2 4) []
  have he := run_new_entry platform hs (List.replicate n (0, .recordFailure "a"))
    (by rw [hk, List.nil_append, List.length_replicate]; omega)
  have hlast : (List.replicate n (0 : Time)).getLast? = some 0 := by
    rw [List.getLast?_replicate, if_neg (by omega)]
  have hmono : (new 1 2 4).penalty 2 ≤ (new 1 2 4).penalty n := penalty_mono hs (by omega)
  have hle : (new 1 2 4).penalty n ≤ 4 := min_le_left _ _
  have htwo : (new 1 2 4).penalty 2 = 4 := by decide
  have hpen : (new 1 2 4).penalty n = 4 := by omega
  have hfree : ¬ (n : Int) < (new 1 2 4).maxFree.toInt := by
    show ¬ (n : Int) < 1
    omega
  rw [hk, List.nil_append, entryOf, hlast, Option.map_some, List.length_replicate, if_neg hfree, hpen] at he
  have hwrap : Int64.ofNat n + 1 < 1 := by
    rw [show n = 9223372036854775807 by omega]
    decide
  rw [run_append, blockedUntil]
  show (((((new 1 2 4).run platform (List.replicate n (0, .recordFailure "a"))).recordFailure
    platform "a" 1).entries
    "a").map Entry.blockedTo).getD 0 = 4
  have ha := (run_alike platform (new 1 2 4) (List.replicate n (0, .recordFailure "a"))).1
  unfold recordFailure
  simp only [he, ha, if_true, Option.getD_some, Option.map_some]
  rw [if_pos (show Int64.ofNat n + 1 < (new 1 2 4).maxFree from hwrap)]
  rfl

/-- A sweep of a short age lets a blocked key go. -/
theorem block_forgotten :
    let l := (new 1 2 4).run (fun _ => .smallest) [(0, .recordFailure "a")]
    (l.blockedUntil "a" = 2 ∧ (l.allow "a" 1).1 = false ∧
      (l.run (fun _ => .smallest) [(1, .sweep 0)]).blockedUntil "a" = 0 ∧
      ((l.run (fun _ => .smallest) [(1, .sweep 0)]).allow "a" 1).1 = true) ∧
    ∀ n, n + 1 = 2 ^ 63 → ((new 1 2 4).run (fun _ => .smallest)
      (List.replicate n (0, .recordFailure "a") ++ [(1, .recordFailure "a")])).blockedUntil "a" = 4 :=
  ⟨by decide, fun _ hn => recordFailure_wrapped _ hn⟩

/-! ## The limiters of the server -/

def Entry.plain (e : Entry) : Http.Entry := ⟨e.failures.toInt.toNat, e.lastSeen, e.blockedTo⟩

/-- The limiter in numbers that have no width, as the endpoints are modelled over it. -/
def plain (l : Limiter) : Http.Limiter where
  entries key := (l.entries key).map Entry.plain
  maxFree := l.maxFree.toInt.toNat
  baseWait := l.baseWait.toInt.toNat
  maxWait := l.maxWait.toInt.toNat

theorem plain_allow (l : Limiter) (key : String) (now : Time) : l.plain.allow key now = l.allow key now := by
  unfold allow Http.Limiter.allow
  rw [show l.plain.entries key = (l.entries key).map Entry.plain from rfl]
  cases l.entries key <;> rfl

theorem plain_reset (l : Limiter) (key : String) : (l.reset key).plain = l.plain.reset key := by
  unfold reset plain Http.Limiter.reset
  simp only [apply_ite (Option.map _), Option.map_none]

theorem cutoff_le {age : Int64} (hage : 0 ≤ age.toInt) (now seen : Nat) :
    cutoff age now ≤ (seen : Int) ↔ now - age.toInt.toNat ≤ seen := by
  rw [cutoff, toInt_neg_le hage]
  omega

theorem plain_sweep (l : Limiter) {age : Int64} (hage : 0 ≤ age.toInt) (now : Time) :
    (l.sweep age now).plain = l.plain.sweep age.toInt.toNat now := by
  unfold plain Http.Limiter.sweep
  congr 1
  funext key
  show ((l.entries key).filter fun e => cutoff age now ≤ (e.lastSeen : Int)).map Entry.plain =
    ((l.entries key).map Entry.plain).filter fun e => now - age.toInt.toNat ≤ e.lastSeen
  simp only [cutoff_le hage]
  cases l.entries key with
  | none => rfl
  | some e =>
    by_cases h : now - age.toInt.toNat ≤ e.lastSeen
    · simp only [Option.filter, h, Option.map_some, Entry.plain, decide_true, if_true]
    · simp only [Option.filter, h, Option.map_some, Entry.plain, decide_false, Bool.false_eq_true, if_false,
        Option.map_none]

theorem clamp_nat {m v : Nat} (hv : 0 < v) : (if m < v ∨ v = 0 then m else v) = min m v := by
  by_cases hm : m < v
  · rw [if_pos (.inl hm)]
    omega
  · rw [if_neg (by omega)]
    omega

theorem plain_wait {l : Limiter} (hs : l.Sound) (k : Nat) : (l.plain.wait k : Int) = l.penalty k := by
  obtain ⟨hfree, hbase, hmax⟩ := hs
  have hexp : ((k : Int) - l.maxFree.toInt).toNat = k - l.maxFree.toInt.toNat := by omega
  have hval : ((l.baseWait.toInt.toNat * 2 ^ (k - l.maxFree.toInt.toNat) : Nat) : Int) =
      l.baseWait.toInt * 2 ^ (k - l.maxFree.toInt.toNat) := by
    rw [Int.natCast_mul, Int.toNat_of_nonneg (Int.le_of_lt hbase), Int.natCast_pow]
    rfl
  have hpos : 0 < l.baseWait.toInt.toNat * 2 ^ (k - l.maxFree.toInt.toNat) :=
    Nat.mul_pos (by omega) (Nat.pow_pos (by omega))
  rw [penalty, hexp, ← hval, show l.plain.wait k = _ from clamp_nat hpos]
  exact (by omega : ∀ v : Nat, ((min l.maxWait.toInt.toNat v : Nat) : Int) = min l.maxWait.toInt v) _

theorem plain_entryOf {l : Limiter} (hs : l.Sound) {times : List Time} (hk : times.length + 1 < 2 ^ 63)
    (now : Time) :
    (l.entryOf (times ++ [now])).map Entry.plain =
      let e := ((l.entryOf times).map Entry.plain).getD ⟨0, 0, 0⟩
      some (if e.failures + 1 < l.plain.maxFree then ⟨e.failures + 1, now, e.blockedTo⟩
        else ⟨e.failures + 1, now, now + l.plain.wait (e.failures + 1)⟩) := by
  have hcount : (((l.entryOf times).map Entry.plain).getD ⟨0, 0, 0⟩).failures = times.length := by
    rw [entryOf]
    cases h : times.getLast? with
    | none => rw [List.getLast?_eq_none_iff.mp h]; rfl
    | some t => exact congrArg Int.toNat (toInt_ofNat (by omega))
  have hfree : times.length < l.maxFree.toInt →
      (((l.entryOf times).map Entry.plain).getD ⟨0, 0, 0⟩).blockedTo = 0 := by
    intro hlt
    rw [entryOf]
    cases times.getLast? with
    | none => rfl
    | some t => exact if_pos hlt
  have hlen : (times ++ [now]).length = times.length + 1 := by simp
  have hmax : l.plain.maxFree = l.maxFree.toInt.toNat := rfl
  have hone := hs.free
  generalize ((l.entryOf times).map Entry.plain).getD ⟨0, 0, 0⟩ = e at hcount hfree ⊢
  simp only [hcount, entryOf, List.getLast?_concat, Option.map_some, Entry.plain, hlen, toInt_ofNat hk,
    Int.toNat_natCast, Option.some.injEq, hmax]
  by_cases hlt : ((times.length + 1 : Nat) : Int) < l.maxFree.toInt
  · have hlt' : times.length + 1 < l.maxFree.toInt.toNat := by omega
    rw [if_pos hlt, if_pos hlt', hfree (by omega)]
  · have hlt' : ¬ times.length + 1 < l.maxFree.toInt.toNat := by omega
    rw [if_neg hlt, if_neg hlt', ← plain_wait hs]
    rfl

theorem plain_recordFailure {l : Limiter} (hs : l.Sound) {key : String} {times : List Time}
    (he : l.entries key = l.entryOf times) (hk : times.length + 1 < 2 ^ 63) (now : Time) :
    (l.recordFailure platform key now).plain = l.plain.recordFailure key now := by
  have hnew := recordFailure_entry platform hs he hk now
  unfold plain Http.Limiter.recordFailure
  congr 1
  funext k
  by_cases h : k = key
  · subst h
    rw [if_pos rfl]
    show ((l.recordFailure platform k now).entries k).map Entry.plain = _
    rw [hnew, plain_entryOf hs hk, ← he]
    rfl
  · rw [if_neg h]
    exact congrArg (Option.map Entry.plain) (if_neg h)

def plainCall (l : Http.Limiter) (now : Time) : Call → Http.Limiter
  | .allow _ => l
  | .recordFailure key => l.recordFailure key now
  | .reset key => l.reset key
  | .sweep olderThan => l.sweep olderThan.toInt.toNat now

/-- As long as no counter can have run over, the widths do not show. -/
theorem plain_run {l : Limiter} (hs : l.Sound) {calls : List (Time × Call)}
    (hages : ∀ age, ∀ c ∈ calls, c.2 = .sweep age → 0 ≤ age.toInt) {n : Nat} (hn : n + calls.length < 2 ^ 63)
    (he : ∀ key, ∃ times : List Time, times.length ≤ n ∧ l.entries key = l.entryOf times) :
    (l.run platform calls).plain = calls.foldl (fun l c => plainCall l c.1 c.2) l.plain := by
  induction calls generalizing l n with
  | nil => rfl
  | cons c calls ih =>
    rw [List.length_cons] at hn
    have ha := call_alike platform l c.1 c.2
    have hstep : (l.call platform c.1 c.2).plain = plainCall l.plain c.1 c.2 := by
      obtain ⟨now, c⟩ := c
      cases c with
      | allow key => rfl
      | reset key => exact plain_reset l key
      | sweep age => exact plain_sweep l (hages age _ List.mem_cons_self rfl) now
      | recordFailure key =>
        obtain ⟨times, hle, hk⟩ := he key
        exact plain_recordFailure platform hs hk (by omega) now
    have hnext : ∀ key, ∃ times : List Time, times.length ≤ n + 1 ∧
        (l.call platform c.1 c.2).entries key = (l.call platform c.1 c.2).entryOf times := by
      intro key
      obtain ⟨times, hle, hk⟩ := he key
      have hlen : (l.strike key c.1 c.2 times).length ≤ times.length + 1 := by
        unfold strike
        split
        · simp
        · split <;> simp
      refine ⟨l.strike key c.1 c.2 times, by omega, ?_⟩
      rw [entryOf_alike ha]
      exact call_entry platform hs (fun _ => hk) (by omega)
    rw [run, List.foldl_cons, ← hstep]
    exact ih (hs.alike ha) (fun age c hc => hages age c (List.mem_cons_of_mem _ hc)) (by omega) hnext

end Limiter

end Ratelimit

end Keyhole
