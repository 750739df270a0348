import Mathlib.Data.List.Basic
import Mathlib.Data.List.Sort
import Keyhole.Lib.Prog

/-!
# Operations that may fail halfway

An operation is a sequence of parts with code between them. A part is a
program, run as one transaction or statement by statement; the first error
ends the operation. A fault is the one statement or commit that fails for a
reason of its own, with the error `lost`.
-/

namespace Sql

/-- How many statements and commits go through before the one that fails;
`none` when none does. -/
abbrev Fault := Option Nat

namespace Fault

/-- The fault as seen after one more statement; `none` when this is the one. -/
def next : Fault → Option Fault
  | none => some none
  | some 0 => none
  | some (n + 1) => some (some n)

def reaches (fault : Fault) (n : Nat) : Bool := fault.all (n ≤ ·)

@[simp] theorem next_none : next none = some none := rfl

@[simp] theorem next_zero : next (some 0) = none := rfl

@[simp] theorem next_succ (n : Nat) : next (some (n + 1)) = some (some n) := rfl

theorem next_eq_none {fault : Fault} : fault.next = none ↔ fault = some 0 := by
  cases fault with
  | none => simp
  | some n => cases n <;> simp

theorem reaches_succ {fault fault' : Fault} (h : fault.next = some fault') (n : Nat) :
    fault.reaches (n + 1) = fault'.reaches n := by
  cases fault with
  | none => cases h; rfl
  | some m =>
    cases m with
    | zero => cases h
    | succ m => cases h; simp [reaches]

theorem eq_succ {fault fault' : Fault} (h : fault.next = some fault') (n : Nat) :
    fault = some (n + 1) ↔ fault' = some n := by
  cases fault with
  | none => cases h; simp
  | some m =>
    cases m with
    | zero => cases h
    | succ m => cases h; simp

end Fault

namespace Prog

variable {σ ε α β : Type} (lost : ε)

/-- `exec` under a fault; what is left of the fault stands beside the result. -/
def execAt : Prog σ ε α → Fault → σ → Except ε (α × Fault × σ)
  | done a, fault, s => .ok (a, fault, s)
  | fail e, _, _ => .error e
  | stmt t k, fault, s =>
    match fault.next with
    | none => .error lost
    | some fault' =>
      match t s with
      | .ok (b, s') => (k b).execAt fault' s'
      | .error e => .error e

def autocommitAt : Prog σ ε α → Fault → σ → Except ε (α × Fault) × σ
  | done a, fault, s => (.ok (a, fault), s)
  | fail e, _, s => (.error e, s)
  | stmt t k, fault, s =>
    match fault.next with
    | none => (.error lost, s)
    | some fault' =>
      match t s with
      | .ok (b, s') => (k b).autocommitAt fault' s'
      | .error e => (.error e, s)

theorem execAt_none (p : Prog σ ε α) (s : σ) :
    p.execAt lost none s = match p.exec s with
      | .ok (a, s') => .ok (a, none, s')
      | .error e => .error e := by
  induction p generalizing s with
  | done a => rfl
  | fail e => rfl
  | stmt t k ih =>
    simp only [execAt, exec, Fault.next_none]
    cases t s with
    | error e => rfl
    | ok r => exact ih r.1 r.2

theorem autocommitAt_none (p : Prog σ ε α) (s : σ) :
    p.autocommitAt lost none s = match p.autocommit s with
      | (.ok a, s') => (.ok (a, none), s')
      | (.error e, s') => (.error e, s') := by
  induction p generalizing s with
  | done a => rfl
  | fail e => rfl
  | stmt t k ih =>
    simp only [autocommitAt, autocommit, Fault.next_none]
    cases t s with
    | error e => rfl
    | ok r => exact ih r.1 r.2

/-- A fault can stop a program; it cannot change what the program does. -/
theorem exec_of_execAt {p : Prog σ ε α} {fault fault' : Fault} {s s' : σ} {a : α}
    (h : p.execAt lost fault s = .ok (a, fault', s')) : p.exec s = .ok (a, s') := by
  induction p generalizing fault s with
  | done b => cases h; rfl
  | fail e => cases h
  | stmt t k ih =>
    simp only [execAt] at h
    cases hn : fault.next with
    | none => simp [hn] at h
    | some f =>
      rw [hn] at h
      simp only [exec]
      cases ht : t s with
      | error e => simp [ht] at h
      | ok r =>
        rw [ht] at h
        exact ih r.1 h

theorem autocommitAt_bind (p : Prog σ ε α) (f : α → Prog σ ε β) (fault : Fault) (s : σ) :
    (p >>= f).autocommitAt lost fault s = match p.autocommitAt lost fault s with
      | (.ok (a, fault'), s') => (f a).autocommitAt lost fault' s'
      | (.error e, s') => (.error e, s') := by
  change (p.bind f).autocommitAt lost fault s = _
  induction p generalizing fault s with
  | done a => rfl
  | fail e => rfl
  | stmt t k ih =>
    simp only [bind, autocommitAt]
    cases fault.next with
    | none => rfl
    | some fault' =>
      cases t s with
      | error e => rfl
      | ok r => exact ih r.1 fault' r.2

section
variable {R : σ → σ → Prop} (hr : ∀ s, R s s) (ht : ∀ a b c, R a b → R b c → R a c)
include hr ht

theorem autocommitAt_keeps {p : Prog σ ε α} (hp : p.Keeps R) (fault : Fault) (s : σ) :
    R s (p.autocommitAt lost fault s).2 := by
  induction p generalizing fault s with
  | done b => exact hr s
  | fail e => exact hr s
  | stmt t k ih =>
    simp only [autocommitAt]
    cases fault.next with
    | none => exact hr s
    | some f =>
      simp only
      cases hts : t s with
      | error e => exact hr s
      | ok r => exact ht _ _ _ (hp.1 s r.1 r.2 hts) (ih r.1 (hp.2 r.1) f r.2)

end

end Prog

inductive Operation (σ ε α : Type) : Type 1
  | done (r : Except ε α)
  | auto {β : Type} (p : Prog σ ε β) (k : β → Operation σ ε α)
  | tx {β : Type} (p : Prog σ ε β) (k : β → Operation σ ε α)

namespace Operation

variable {σ ε α β : Type} (lost : ε)

/-- The BEGIN and the COMMIT of a transaction are statements too. -/
def run : Operation σ ε α → Fault → σ → Except ε α × σ
  | done r, _, s => (r, s)
  | auto p k, fault, s =>
    match p.autocommitAt lost fault s with
    | (.ok (b, fault'), s') => (k b).run fault' s'
    | (.error e, s') => (.error e, s')
  | tx p k, fault, s =>
    match fault.next with
    | none => (.error lost, s)
    | some fault₁ =>
      match p.execAt lost fault₁ s with
      | .error e => (.error e, s)
      | .ok (b, fault₂, s') =>
        match fault₂.next with
        | none => (.error lost, s)
        | some fault₃ => (k b).run fault₃ s'

def once (p : Prog σ ε β) : Operation σ ε Unit := tx p fun _ => done (.ok ())

def plain (p : Prog σ ε β) : Operation σ ε Unit := auto p fun _ => done (.ok ())

theorem run_once_none (p : Prog σ ε β) (s : σ) : ((once p).run lost none s).2 = (p.transact s).2 := by
  simp only [once, run, Fault.next_none, Prog.execAt_none, Prog.transact]
  cases p.exec s with
  | error e => rfl
  | ok r => rfl

theorem run_plain_none (p : Prog σ ε β) (s : σ) : ((plain p).run lost none s).2 = (p.autocommit s).2 := by
  simp only [plain, run, Prog.autocommitAt_none]
  cases p.autocommit s with
  | mk r s' => cases r <;> rfl

/-! ## All or nothing -/

/-- No error over a state other than the one the operation found. -/
def Faithful (op : Operation σ ε α) (fault : Fault) (s : σ) : Prop :=
  ∀ e, (op.run lost fault s).1 = .error e → (op.run lost fault s).2 = s

def Atomic (op : Operation σ ε α) : Prop := ∀ (lost : ε) (fault : Fault) (s : σ), op.Faithful lost fault s

theorem atomic_done (r : Except ε α) : (done r : Operation σ ε α).Atomic := fun _ _ _ _ _ => rfl

/-- A transaction under a fault either leaves the state alone and reports an
error or does what it does without the fault. -/
theorem run_once_cases (p : Prog σ ε β) (fault : Fault) (s : σ) :
    (∃ e, (once p).run lost fault s = (.error e, s)) ∨ (once p).run lost fault s = (.ok (), (p.transact s).2) := by
  simp only [once, run]
  cases fault.next with
  | none => exact Or.inl ⟨lost, rfl⟩
  | some fault₁ =>
    simp only
    cases h : p.execAt lost fault₁ s with
    | error e => exact Or.inl ⟨e, rfl⟩
    | ok r =>
      obtain ⟨b, fault₂, s'⟩ := r
      simp only
      cases fault₂.next with
      | none => exact Or.inl ⟨lost, rfl⟩
      | some fault₃ =>
        right
        rw [Prog.transact_of_exec (Prog.exec_of_execAt lost h)]

theorem atomic_once (p : Prog σ ε β) : (once p).Atomic := by
  intro lost fault s e he
  rcases run_once_cases lost p fault s with ⟨e', h⟩ | h
  · rw [h]
  · rw [h] at he
    cases he

theorem atomic_lookup {f : σ → β} {k : β → Operation σ ε α} (hk : ∀ b, (k b).Atomic) :
    (auto (Prog.query f) k).Atomic := by
  intro lost fault s e he
  simp only [run, Prog.query, Prog.autocommitAt] at he ⊢
  cases hn : fault.next with
  | none => rfl
  | some fault' =>
    rw [hn] at he
    exact hk (f s) lost fault' s e he

/-- Statements on their own are atomic when the first of them is the only one
that can fail, or leaves nothing behind when what follows it fails. -/
theorem atomic_plain {t : σ → Except ε (β × σ)} {k : β → Prog σ ε α}
    (hk : ∀ s b s', t s = .ok (b, s') → (∃ a, k b = .done a) ∨ ∃ e, k b = .fail e ∧ s' = s) :
    (plain (.stmt t k)).Atomic := by
  intro lost fault s e he
  simp only [plain, run, Prog.autocommitAt] at he ⊢
  cases hn : fault.next with
  | none => rfl
  | some fault' =>
    rw [hn] at he
    simp only at he ⊢
    cases ht : t s with
    | error e' => rfl
    | ok r =>
      obtain ⟨b, s'⟩ := r
      rw [ht] at he
      rcases hk s b s' ht with ⟨a, ha⟩ | ⟨e', he', rfl⟩
      · simp [ha, Prog.autocommitAt] at he
      · simp [he', Prog.autocommitAt]

theorem atomic_plain_stmt (t : σ → Except ε (β × σ)) : (plain (.stmt t .done)).Atomic :=
  atomic_plain fun _ b _ _ => Or.inl ⟨b, rfl⟩

/-- The first `n` statements and commits go through and the next one fails, by
the fault or because it is refused. -/
def Strikes (fault : Fault) (n : Nat) (refused : Prop) : Prop :=
  fault.reaches n = true ∧ (fault = some n ∨ refused)

instance (fault : Fault) (n : Nat) (refused : Prop) [Decidable refused] : Decidable (Strikes fault n refused) :=
  inferInstanceAs (Decidable (_ ∧ _))

theorem strikes_next {fault fault' : Fault} (h : fault.next = some fault') (n : Nat) (refused : Prop) :
    Strikes fault (n + 1) refused ↔ Strikes fault' n refused := by
  unfold Strikes
  rw [Fault.reaches_succ h, Fault.eq_succ h]

theorem strikes_zero {fault : Fault} {refused : Prop} : Strikes fault 0 refused ↔ fault.next = none ∨ refused := by
  rw [Fault.next_eq_none]
  simp [Strikes, Fault.reaches]

def Last (p : Prog σ ε α) (s : σ) : Prop :=
  ∃ (γ : Type) (t : σ → Except ε (γ × σ)) (k : γ → Prog σ ε α), p = .stmt t k ∧
    ∀ c s', t s = .ok (c, s') → ∃ a, k c = .done a

theorem run_last {p : Prog σ ε α} {s : σ} (hp : Last p s) (fault : Fault) :
    (∃ e, (plain p).run lost fault s = (.error e, s)) ∧ Strikes fault 0 (∃ e, p.exec s = .error e) ∨
      (∃ s', (plain p).run lost fault s = (.ok (), s')) ∧ ¬ Strikes fault 0 (∃ e, p.exec s = .error e) := by
  obtain ⟨γ, t, k, rfl, hk⟩ := hp
  rw [strikes_zero]
  simp only [plain, run, Prog.autocommitAt, Prog.exec]
  cases fault.next with
  | none => simp
  | some fault' =>
    cases ht : t s with
    | error e => simp
    | ok r =>
      obtain ⟨a, ha⟩ := hk r.1 r.2 ht
      simp [ha, Prog.autocommitAt, Prog.exec]

theorem faithful_trailing {t : σ → Except ε (β × σ)} {k : β → Prog σ ε α} {s s' : σ} {b : β}
    {refused : Prop} (h : t s = .ok (b, s')) (hk : Last (k b) s') (hr : (∃ e, (k b).exec s' = .error e) ↔ refused)
    (fault : Fault) :
    (plain (.stmt t k)).Faithful lost fault s ↔ ¬ (s' ≠ s ∧ Strikes fault 1 refused) := by
  unfold Faithful
  cases hn : fault.next with
  | none =>
    rw [Fault.next_eq_none] at hn
    subst hn
    simp [plain, run, Prog.autocommitAt, Strikes, Fault.reaches]
  | some fault' =>
    have hrun : (plain (.stmt t k)).run lost fault s = (plain (k b)).run lost fault' s' := by
      simp only [plain, run, Prog.autocommitAt, hn, h]
    rw [hrun, strikes_next hn, ← hr]
    rcases run_last lost hk fault' with ⟨⟨e, he⟩, hs⟩ | ⟨⟨s'', hok⟩, hs⟩
    · simp [he, hs]
    · simp [hok, hs]

theorem faithful_refused {t : σ → Except ε (β × σ)} {k : β → Prog σ ε α} {s : σ}
    (h : (∃ e, t s = .error e) ∨ ∃ b e, t s = .ok (b, s) ∧ k b = .fail e) (fault : Fault) :
    (plain (.stmt t k)).Faithful lost fault s := by
  intro e _
  simp only [plain, run, Prog.autocommitAt]
  cases fault.next with
  | none => rfl
  | some fault' =>
    rcases h with ⟨e', h⟩ | ⟨b, e', h, hk⟩
    · simp [h]
    · simp [h, hk, Prog.autocommitAt]

/-! ## Relations every statement keeps -/

section
variable (R : σ → σ → Prop)

def Keeps : Operation σ ε α → Prop
  | done _ => True
  | auto p k => p.Keeps R ∧ ∀ b, (k b).Keeps
  | tx p k => p.Keeps R ∧ ∀ b, (k b).Keeps

variable {R}

theorem keeps_done (r : Except ε α) : (done r : Operation σ ε α).Keeps R := trivial

theorem Keeps.mono {R' : σ → σ → Prop} {op : Operation σ ε α} (h : op.Keeps R)
    (hr : ∀ s s', R s s' → R' s s') :
    op.Keeps R' := by
  induction op with
  | done r => trivial
  | auto p k ih => exact ⟨Prog.Keeps.mono hr h.1, fun b => ih b (h.2 b)⟩
  | tx p k ih => exact ⟨Prog.Keeps.mono hr h.1, fun b => ih b (h.2 b)⟩

theorem keeps_once {p : Prog σ ε β} (hp : p.Keeps R) : (once p).Keeps R := ⟨hp, fun _ => trivial⟩

theorem keeps_plain {p : Prog σ ε β} (hp : p.Keeps R) : (plain p).Keeps R := ⟨hp, fun _ => trivial⟩

variable (hr : ∀ s, R s s) (ht : ∀ a b c, R a b → R b c → R a c)
include hr ht

theorem run_keeps {op : Operation σ ε α} (hop : op.Keeps R) (fault : Fault) (s : σ) :
    R s (op.run lost fault s).2 := by
  induction op generalizing fault s with
  | done r => exact hr s
  | auto p k ih =>
    have hp := Prog.autocommitAt_keeps lost hr ht hop.1 fault s
    simp only [run]
    cases h : p.autocommitAt lost fault s with
    | mk r s' =>
      rw [h] at hp
      cases r with
      | error e => exact hp
      | ok r => exact ht _ _ _ hp (ih r.1 (hop.2 r.1) r.2 s')
  | tx p k ih =>
    simp only [run]
    cases fault.next with
    | none => exact hr s
    | some fault₁ =>
      simp only
      cases h : p.execAt lost fault₁ s with
      | error e => exact hr s
      | ok r =>
        obtain ⟨b, fault₂, s'⟩ := r
        simp only
        cases fault₂.next with
        | none => exact hr s
        | some fault₃ =>
          have hp := Prog.exec_keeps hr ht hop.1 (Prog.exec_of_execAt lost h)
          exact ht _ _ _ hp (ih b (hop.2 b) fault₃ s')

end

/-! ## Before or after -/

section
variable {τ : Type} (view : σ → τ)

/-- Under a fault the view is what it was, or what it is without the fault. -/
def Settles (op : Operation σ ε α) : Prop :=
  ∀ (lost : ε) (fault : Fault) (s : σ), view (op.run lost fault s).2 = view s ∨
    view (op.run lost fault s).2 = view (op.run lost none s).2

def SameView (s s' : σ) : Prop := view s' = view s

variable {view}

theorem SameView.refl (s : σ) : SameView view s s := rfl

theorem SameView.trans (a b c : σ) (h : SameView view a b) (h' : SameView view b c) : SameView view a c :=
  Eq.trans h' h

theorem settles_keeps {op : Operation σ ε α} (h : op.Keeps (SameView view)) : op.Settles view := fun lost fault s =>
  Or.inl (run_keeps lost SameView.refl SameView.trans h fault s)

theorem settles_once (p : Prog σ ε β) : (once p).Settles view := by
  intro lost fault s
  rcases run_once_cases lost p fault s with ⟨e, h⟩ | h
  · exact Or.inl (by rw [h])
  · exact Or.inr (by rw [h, run_once_none])

theorem settles_lookup {f : σ → β} {k : β → Operation σ ε α} (hk : ∀ b, (k b).Settles view) :
    (auto (Prog.query f) k).Settles view := by
  intro lost fault s
  simp only [run, Prog.query, Prog.autocommitAt, Fault.next_none]
  cases fault.next with
  | none => exact Or.inl rfl
  | some fault' => exact hk (f s) lost fault' s

theorem settles_stmt (t : σ → Except ε (β × σ)) : (plain (.stmt t .done)).Settles view := by
  intro lost fault s
  simp only [plain, run, Prog.autocommitAt, Fault.next_none]
  cases fault.next with
  | none => exact Or.inl rfl
  | some fault' =>
    cases t s with
    | error e => exact Or.inl rfl
    | ok r => exact Or.inr rfl

theorem settles_then {p : Prog σ ε β} {k : β → Prog σ ε α} (hp : (plain p).Settles view)
    (hk : ∀ b, (k b).Keeps (SameView view)) : (plain (p >>= k)).Settles view := by
  intro lost fault s
  have hsame : ∀ fault, view ((plain (p >>= k)).run lost fault s).2 = view ((plain p).run lost fault s).2 := by
    intro fault
    simp only [plain, run, Prog.autocommitAt_bind]
    cases p.autocommitAt lost fault s with
    | mk r s' =>
      cases r with
      | error e => rfl
      | ok r =>
        have h := Prog.autocommitAt_keeps lost SameView.refl SameView.trans (hk r.1) r.2 s'
        simp only
        cases hr : (k r.1).autocommitAt lost r.2 s' with
        | mk q s'' =>
          rw [hr] at h
          cases q <;> exact h
  rw [hsame, hsame]
  exact hp lost fault s

theorem settles_tx {p : Prog σ ε β} {k : β → Operation σ ε α} (hk : ∀ b, (k b).Keeps (SameView view)) :
    (tx p k).Settles view := by
  intro lost fault s
  have hkeep : ∀ b fault s', view ((k b).run lost fault s').2 = view s' := fun b fault s' =>
    run_keeps lost SameView.refl SameView.trans (hk b) fault s'
  simp only [run]
  cases fault.next with
  | none => exact Or.inl rfl
  | some fault₁ =>
    simp only
    cases h : p.execAt lost fault₁ s with
    | error e => exact Or.inl rfl
    | ok r =>
      obtain ⟨b, fault₂, s'⟩ := r
      simp only
      cases fault₂.next with
      | none => exact Or.inl rfl
      | some fault₃ =>
        right
        simp only [Fault.next_none, Prog.execAt_none, Prog.exec_of_execAt lost h]
        exact (hkeep b fault₃ s').trans (hkeep b none s').symm

end

end Operation

/-! ## The values a counter takes -/

def consecutive (n n' : Int) : List Int := (List.range (n' - n).toNat).map fun i : Nat => n + 1 + (i : Int)

@[simp] theorem consecutive_self (n : Int) : consecutive n n = [] := by simp [consecutive]

theorem consecutive_succ (n : Int) : consecutive n (n + 1) = [n + 1] := by
  have h : (n + 1 - n).toNat = 1 := by omega
  unfold consecutive
  rw [h]
  simp

theorem consecutive_append {a b c : Int} (hab : a ≤ b) (hbc : b ≤ c) :
    consecutive a b ++ consecutive b c = consecutive a c := by
  unfold consecutive
  have h : (c - a).toNat = (b - a).toNat + (c - b).toNat := by omega
  rw [h, List.range_add, List.map_append, List.map_map]
  congr 1
  apply List.map_congr_left
  intro i hi
  have := List.mem_range.mp hi
  simp only [Function.comp_apply]
  push_cast
  omega

theorem mem_consecutive {n n' x : Int} : x ∈ consecutive n n' ↔ n < x ∧ x ≤ n' := by
  unfold consecutive
  rw [List.mem_map]
  constructor
  · rintro ⟨i, hi, rfl⟩
    have := List.mem_range.mp hi
    omega
  · intro h
    refine ⟨(x - n - 1).toNat, List.mem_range.mpr (by omega), by omega⟩

theorem consecutive_sorted (n n' : Int) : (consecutive n n').Pairwise (· < ·) := by
  unfold consecutive
  rw [List.pairwise_map]
  refine List.Pairwise.imp ?_ List.pairwise_lt_range
  intro i j hij
  omega

section
variable {σ ε α : Type} (counter : σ → Int)

/-- The program with a log beside its state, to which a statement appends the
counter when it moves it. The log is rolled back with the rest. -/
def Prog.logging : Prog σ ε α → Prog (σ × List Int) ε α
  | done a => .done a
  | fail e => .fail e
  | stmt t k => .stmt (fun s =>
      match t s.1 with
      | .ok (b, s') => .ok (b, s', if counter s' = counter s.1 then s.2 else s.2 ++ [counter s'])
      | .error e => .error e) fun b => (k b).logging

def Operation.logging : Operation σ ε α → Operation (σ × List Int) ε α
  | done r => .done r
  | auto p k => .auto (p.logging counter) fun b => (k b).logging
  | tx p k => .tx (p.logging counter) fun b => (k b).logging

def Operation.changes (lost : ε) (op : Operation σ ε α) (fault : Fault) (s : σ) : List Int :=
  ((op.logging counter).run lost fault (s, [])).2.2

def Counts (s s' : σ) : Prop := counter s' = counter s ∨ counter s' = counter s + 1

def Logged (s s' : σ × List Int) : Prop :=
  counter s.1 ≤ counter s'.1 ∧ s'.2 = s.2 ++ consecutive (counter s.1) (counter s'.1)

variable {counter}

theorem Counts.refl (s : σ) : Counts counter s s := Or.inl rfl

theorem Logged.refl (s : σ × List Int) : Logged counter s s := by simp [Logged]

theorem Logged.trans {a b c : σ × List Int} (h : Logged counter a b) (h' : Logged counter b c) :
    Logged counter a c := by
  refine ⟨h.1.trans h'.1, ?_⟩
  rw [h'.2, h.2, List.append_assoc, consecutive_append h.1 h'.1]

theorem Prog.logging_keeps {p : Prog σ ε α} (h : p.Keeps (Counts counter)) :
    (p.logging counter).Keeps (Logged counter) := by
  induction p with
  | done a => trivial
  | fail e => trivial
  | stmt t k ih =>
    refine ⟨?_, fun b => ih b (h.2 b)⟩
    intro s b s' hs
    simp only at hs
    cases ht : t s.1 with
    | error e => simp [ht] at hs
    | ok r =>
      rw [ht] at hs
      cases hs
      rcases h.1 s.1 r.1 r.2 ht with hc | hc
      · simp [Logged, hc]
      · rw [if_neg (by omega)]
        exact ⟨by simp only [hc]; omega, by simp only [hc, consecutive_succ]⟩

theorem Operation.logging_keeps {op : Operation σ ε α} (h : op.Keeps (Counts counter)) :
    (op.logging counter).Keeps (Logged counter) := by
  induction op with
  | done r => trivial
  | auto p k ih => exact ⟨Prog.logging_keeps h.1, fun b => ih b (h.2 b)⟩
  | tx p k ih => exact ⟨Prog.logging_keeps h.1, fun b => ih b (h.2 b)⟩

/-! ## The log says nothing about the run -/

variable (counter) (lost : ε)

theorem Prog.execAt_logging (p : Prog σ ε α) (fault : Fault) (s : σ) (log : List Int) :
    (∃ e, p.execAt lost fault s = .error e ∧ (p.logging counter).execAt lost fault (s, log) = .error e) ∨
    ∃ a fault' s' log', p.execAt lost fault s = .ok (a, fault', s') ∧
      (p.logging counter).execAt lost fault (s, log) = .ok (a, fault', s', log') := by
  induction p generalizing fault s log with
  | done a => exact Or.inr ⟨a, fault, s, log, rfl, rfl⟩
  | fail e => exact Or.inl ⟨e, rfl, rfl⟩
  | stmt t k ih =>
    simp only [execAt, logging]
    cases fault.next with
    | none => exact Or.inl ⟨lost, rfl, rfl⟩
    | some fault' =>
      cases t s with
      | error e => exact Or.inl ⟨e, rfl, rfl⟩
      | ok r => exact ih r.1 fault' r.2 _

theorem Prog.autocommitAt_logging (p : Prog σ ε α) (fault : Fault) (s : σ) (log : List Int) :
    ∃ log', (p.logging counter).autocommitAt lost fault (s, log) =
      ((p.autocommitAt lost fault s).1, (p.autocommitAt lost fault s).2, log') := by
  induction p generalizing fault s log with
  | done a => exact ⟨log, rfl⟩
  | fail e => exact ⟨log, rfl⟩
  | stmt t k ih =>
    simp only [autocommitAt, logging]
    cases fault.next with
    | none => exact ⟨log, rfl⟩
    | some fault' =>
      cases t s with
      | error e => exact ⟨log, rfl⟩
      | ok r => exact ih r.1 fault' r.2 _

theorem Operation.run_logging (op : Operation σ ε α) (fault : Fault) (s : σ) (log : List Int) :
    ∃ log', (op.logging counter).run lost fault (s, log) =
      ((op.run lost fault s).1, (op.run lost fault s).2, log') := by
  induction op generalizing fault s log with
  | done r => exact ⟨log, rfl⟩
  | auto p k ih =>
    obtain ⟨log', h⟩ := Prog.autocommitAt_logging counter lost p fault s log
    simp only [logging, run, h]
    cases p.autocommitAt lost fault s with
    | mk r s' =>
      cases r with
      | error e => exact ⟨log', rfl⟩
      | ok r => exact ih r.1 r.2 s' log'
  | tx p k ih =>
    simp only [logging, run]
    cases fault.next with
    | none => exact ⟨log, rfl⟩
    | some fault₁ =>
      rcases Prog.execAt_logging counter lost p fault₁ s log with ⟨e, h, h'⟩ | ⟨b, fault₂, s', log', h, h'⟩
      · simp only [h, h']
        exact ⟨log, rfl⟩
      · simp only [h, h']
        cases fault₂.next with
        | none => exact ⟨log, rfl⟩
        | some fault₃ => exact ih b fault₃ s' log'

variable {counter}

/-- A counter that statements only count up by one runs through every integer
it passes: what an operation commits to it is all of them, in order. -/
theorem Operation.changes_eq {op : Operation σ ε α} (h : op.Keeps (Counts counter)) (fault : Fault) (s : σ) :
    counter s ≤ counter (op.run lost fault s).2 ∧
      op.changes counter lost fault s = consecutive (counter s) (counter (op.run lost fault s).2) := by
  have hk := Operation.run_keeps lost Logged.refl (fun _ _ _ => Logged.trans) (Operation.logging_keeps h)
    fault (s, [])
  obtain ⟨log', hl⟩ := Operation.run_logging counter lost op fault s []
  unfold changes
  rw [hl] at hk ⊢
  exact ⟨hk.1, by simpa using hk.2⟩

end

end Sql
