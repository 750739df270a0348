import Mathlib.Logic.Basic

/-!
# Database programs

A program is a sequence of statements over a state `σ`, each of which may
fail with an error `ε`. `exec` runs one to its end; `transact` runs one as a
transaction, whose failure leaves the state it began with; `autocommit` runs
one statement after another with nothing to roll back.
-/

namespace Sql

inductive Prog (σ ε α : Type) : Type 1
  | done (a : α)
  | fail (e : ε)
  | stmt {β : Type} (s : σ → Except ε (β × σ)) (k : β → Prog σ ε α)

namespace Prog

variable {σ ε α β γ : Type}

def bind : Prog σ ε α → (α → Prog σ ε β) → Prog σ ε β
  | done a, f => f a
  | fail e, _ => fail e
  | stmt s k, f => stmt s fun b => (k b).bind f

instance : Monad (Prog σ ε) where
  pure := done
  bind := bind

def query (f : σ → α) : Prog σ ε α := stmt (fun s => .ok (f s, s)) done

def exec : Prog σ ε α → σ → Except ε (α × σ)
  | done a, s => .ok (a, s)
  | fail e, _ => .error e
  | stmt t k, s =>
    match t s with
    | .ok (b, s') => (k b).exec s'
    | .error e => .error e

/-- Commit on success, roll back on failure. -/
def transact (p : Prog σ ε α) (s : σ) : Except ε α × σ :=
  match p.exec s with
  | .ok (a, s') => (.ok a, s')
  | .error e => (.error e, s)

/-- Each statement commits on its own: a failure keeps what came before it. -/
def autocommit : Prog σ ε α → σ → Except ε α × σ
  | done a, s => (.ok a, s)
  | fail e, s => (.error e, s)
  | stmt t k, s =>
    match t s with
    | .ok (b, s') => (k b).autocommit s'
    | .error e => (.error e, s)

/-! ## Running a program to its end -/

@[simp] theorem exec_pure (a : α) (s : σ) : (pure a : Prog σ ε α).exec s = .ok (a, s) := rfl

@[simp] theorem exec_fail (e : ε) (s : σ) : (fail e : Prog σ ε α).exec s = .error e := rfl

@[simp] theorem exec_query (f : σ → α) (s : σ) : (query f : Prog σ ε α).exec s = .ok (f s, s) := rfl

theorem exec_bind (p : Prog σ ε α) (f : α → Prog σ ε β) (s : σ) :
    (p >>= f).exec s = match p.exec s with
      | .ok (a, s') => (f a).exec s'
      | .error e => .error e := by
  change (p.bind f).exec s = _
  induction p generalizing s with
  | done a => rfl
  | fail e => rfl
  | stmt t k ih =>
    simp only [bind, exec]
    cases t s with
    | error e => rfl
    | ok r => exact ih r.1 r.2

theorem exec_bind_ok {p : Prog σ ε α} {f : α → Prog σ ε β} {s s' : σ} {b : β} :
    (p >>= f).exec s = .ok (b, s') ↔ ∃ a t, p.exec s = .ok (a, t) ∧ (f a).exec t = .ok (b, s') := by
  rw [exec_bind]
  cases p.exec s with
  | error e => simp
  | ok r => exact ⟨fun h => ⟨r.1, r.2, rfl, h⟩, by rintro ⟨a, t, hr, h⟩; cases hr; exact h⟩

/-! ## Transactions -/

theorem transact_ok {p : Prog σ ε α} {s : σ} {a : α} (h : (p.transact s).1 = .ok a) :
    p.exec s = .ok (a, (p.transact s).2) := by
  unfold transact at h ⊢
  cases he : p.exec s with
  | error e => simp [he] at h
  | ok r => simp only [he] at h ⊢; cases h; rfl

theorem transact_error {p : Prog σ ε α} {s : σ} {e : ε} (h : (p.transact s).1 = .error e) :
    (p.transact s).2 = s := by
  unfold transact at h ⊢
  cases he : p.exec s with
  | error e => rfl
  | ok r => simp [he] at h

theorem transact_of_exec {p : Prog σ ε α} {s s' : σ} {a : α} (h : p.exec s = .ok (a, s')) :
    p.transact s = (.ok a, s') := by
  unfold transact; rw [h]

theorem transact_of_error {p : Prog σ ε α} {s : σ} {e : ε} (h : p.exec s = .error e) :
    p.transact s = (.error e, s) := by
  unfold transact; rw [h]

theorem transact_cases (p : Prog σ ε α) (s : σ) :
    (∃ a s', p.exec s = .ok (a, s') ∧ p.transact s = (.ok a, s')) ∨ ∃ e, p.transact s = (.error e, s) := by
  cases h : p.exec s with
  | ok r => exact Or.inl ⟨r.1, r.2, rfl, transact_of_exec h⟩
  | error e => exact Or.inr ⟨e, transact_of_error h⟩

/-! ## Statement by statement -/

theorem autocommit_bind (p : Prog σ ε α) (f : α → Prog σ ε β) (s : σ) :
    (p >>= f).autocommit s = match p.autocommit s with
      | (.ok a, s') => (f a).autocommit s'
      | (.error e, s') => (.error e, s') := by
  change (p.bind f).autocommit s = _
  induction p generalizing s with
  | done a => rfl
  | fail e => rfl
  | stmt t k ih =>
    simp only [bind, autocommit]
    cases t s with
    | error e => rfl
    | ok r => exact ih r.1 r.2

theorem autocommit_ok {p : Prog σ ε α} {s : σ} {a : α} {s' : σ} :
    p.autocommit s = (.ok a, s') ↔ p.exec s = .ok (a, s') := by
  induction p generalizing s with
  | done b => simp [autocommit, exec]
  | fail e => simp [autocommit, exec]
  | stmt t k ih =>
    simp only [autocommit, exec]
    cases t s with
    | error e => simp
    | ok r => exact ih r.1

/-! ## Relations every statement keeps -/

section
variable (R : σ → σ → Prop)

def Keeps : Prog σ ε α → Prop
  | done _ => True
  | fail _ => True
  | stmt t k => (∀ s b s', t s = .ok (b, s') → R s s') ∧ ∀ b, (k b).Keeps

variable {R}

theorem keeps_pure (a : α) : (pure a : Prog σ ε α).Keeps R := trivial

theorem keeps_fail (e : ε) : (fail e : Prog σ ε α).Keeps R := trivial

theorem keeps_query (hr : ∀ s, R s s) (f : σ → α) : (query f : Prog σ ε α).Keeps R := by
  refine ⟨?_, fun _ => trivial⟩
  intro s b s' h
  cases h; exact hr s

theorem keeps_bind {p : Prog σ ε α} {f : α → Prog σ ε β} (hp : p.Keeps R) (hf : ∀ a, (f a).Keeps R) :
    (p >>= f).Keeps R := by
  change (p.bind f).Keeps R
  induction p with
  | done a => exact hf a
  | fail e => trivial
  | stmt t k ih => exact ⟨hp.1, fun b => ih b (hp.2 b)⟩

variable (hr : ∀ s, R s s) (ht : ∀ a b c, R a b → R b c → R a c)
include hr ht

theorem exec_keeps {p : Prog σ ε α} (hp : p.Keeps R) {s s' : σ} {a : α} (h : p.exec s = .ok (a, s')) :
    R s s' := by
  induction p generalizing s with
  | done b => cases h; exact hr _
  | fail e => cases h
  | stmt t k ih =>
    simp only [exec] at h
    split at h
    · rename_i b s₁ hts
      exact ht _ _ _ (hp.1 _ b s₁ hts) (ih b (hp.2 b) h)
    · cases h

theorem transact_keeps {p : Prog σ ε α} (hp : p.Keeps R) (s : σ) : R s (p.transact s).2 := by
  unfold transact
  cases he : p.exec s with
  | error e => exact hr s
  | ok r => exact exec_keeps hr ht hp he

theorem autocommit_keeps {p : Prog σ ε α} (hp : p.Keeps R) (s : σ) : R s (p.autocommit s).2 := by
  induction p generalizing s with
  | done b => exact hr s
  | fail e => exact hr s
  | stmt t k ih =>
    simp only [autocommit]
    cases hts : t s with
    | error e => exact hr s
    | ok r => exact ht _ _ _ (hp.1 s r.1 r.2 hts) (ih r.1 (hp.2 r.1) r.2)

end

theorem Keeps.mono {R R' : σ → σ → Prop} (h : ∀ s s', R s s' → R' s s') {p : Prog σ ε α} (hp : p.Keeps R) :
    p.Keeps R' := by
  induction p with
  | done a => trivial
  | fail e => trivial
  | stmt t k ih => exact ⟨fun s b s' ht => h s s' (hp.1 s b s' ht), fun b => ih b (hp.2 b)⟩

end Prog

end Sql
