import Mathlib.Logic.Basic

/-!
# Fallible programs over a state

A flow reads and changes a state and ends in a value or in an error; either
way the state it got to stays. A triple is about the runs that end in a value.
-/

def Fallible (σ ε α : Type) : Type := σ → Except ε α × σ

namespace Fallible

variable {σ ε α β : Type}

def run (x : Fallible σ ε α) (s : σ) : Except ε α × σ := x s

instance : Monad (Fallible σ ε) where
  pure a := fun s => (.ok a, s)
  bind x f := fun s =>
    match x s with
    | (.ok a, s') => f a s'
    | (.error e, s') => (.error e, s')

def fail (e : ε) : Fallible σ ε α := fun s => (.error e, s)

def gets (f : σ → α) : Fallible σ ε α := fun s => (.ok (f s), s)

def modify (f : σ → σ) : Fallible σ ε Unit := fun s => (.ok (), f s)

def ofOption (e : ε) : Option α → Fallible σ ε α
  | some a => pure a
  | none => fail e

/-- The outcome of `x` as a value: what a `try` around it sees. -/
def attempt (x : Fallible σ ε α) : Fallible σ ε (Except ε α) := fun s => (.ok (x s).1, (x s).2)

/-- The same, inside a program with errors of its own. -/
def caught {ε' : Type} (x : Fallible σ ε α) : Fallible σ ε' (Except ε α) := fun s => (.ok (x s).1, (x s).2)

/-! ## What a run is made of -/

@[simp] theorem run_pure (a : α) (s : σ) : (pure a : Fallible σ ε α).run s = (.ok a, s) := rfl

@[simp] theorem run_fail (e : ε) (s : σ) : (fail e : Fallible σ ε α).run s = (.error e, s) := rfl

@[simp] theorem run_gets (f : σ → α) (s : σ) : (gets f : Fallible σ ε α).run s = (.ok (f s), s) := rfl

@[simp] theorem run_modify (f : σ → σ) (s : σ) : (modify f : Fallible σ ε Unit).run s = (.ok (), f s) := rfl

@[simp] theorem run_attempt (x : Fallible σ ε α) (s : σ) : x.attempt.run s = (.ok (x.run s).1, (x.run s).2) := rfl

@[simp] theorem run_caught {ε' : Type} (x : Fallible σ ε α) (s : σ) :
    (caught x : Fallible σ ε' _).run s = (.ok (x.run s).1, (x.run s).2) := rfl

theorem run_bind (x : Fallible σ ε α) (f : α → Fallible σ ε β) (s : σ) :
    (x >>= f).run s = match x.run s with
      | (.ok a, s') => (f a).run s'
      | (.error e, s') => (.error e, s') := rfl

theorem run_bind_ok {x : Fallible σ ε α} {f : α → Fallible σ ε β} {s s' : σ} {b : β} :
    (x >>= f).run s = (.ok b, s') ↔ ∃ a t, x.run s = (.ok a, t) ∧ (f a).run t = (.ok b, s') := by
  rw [run_bind]
  cases h : x.run s with
  | mk r t =>
    cases r with
    | ok a =>
      constructor
      · exact fun hb => ⟨a, t, rfl, hb⟩
      · intro ⟨a', t', ht, hb⟩
        cases ht
        exact hb
    | error e => simp

theorem run_attempt_ok {x : Fallible σ ε α} {s s' : σ} {r : Except ε α} :
    x.attempt.run s = (.ok r, s') ↔ x.run s = (r, s') := by
  rw [run_attempt]
  cases x.run s
  simp

theorem bind_assoc {γ : Type} (x : Fallible σ ε α) (f : α → Fallible σ ε β) (g : β → Fallible σ ε γ) :
    x >>= f >>= g = x >>= fun a => f a >>= g := by
  funext s
  change (match (x >>= f).run s with | (.ok b, t) => (g b).run t | (.error e, t) => (.error e, t)) = (x >>= _).run s
  rw [run_bind, run_bind]
  cases x.run s with
  | mk r t => cases r <;> rfl

theorem run_ofOption_ok {e : ε} {o : Option α} {s s' : σ} {a : α} :
    (ofOption e o).run s = (.ok a, s') ↔ o = some a ∧ s' = s := by
  cases o with
  | none => simp [ofOption]
  | some b => simp [ofOption, eq_comm]

theorem ofOption_some_bind (e : ε) (a : α) (f : α → Fallible σ ε β) : ofOption e (some a) >>= f = f a := rfl

/-! ## Triples -/

def Triple (P : σ → Prop) (x : Fallible σ ε α) (Q : α → σ → Prop) : Prop :=
  ∀ s, P s → ∀ a s', x.run s = (.ok a, s') → Q a s'

section
variable {P P' : σ → Prop} {Q Q' : α → σ → Prop} {R : β → σ → Prop}

theorem Triple.pure {a : α} (h : ∀ s, P s → Q a s) : Triple P (pure a : Fallible σ ε α) Q := by
  intro s hs b s' hr
  cases hr
  exact h s hs

theorem Triple.fail {e : ε} : Triple P (fail e : Fallible σ ε α) Q := by
  intro s _ a s' hr
  cases hr

theorem Triple.gets {f : σ → α} (h : ∀ s, P s → Q (f s) s) : Triple P (gets f : Fallible σ ε α) Q := by
  intro s hs a s' hr
  cases hr
  exact h s hs

theorem Triple.modify {f : σ → σ} {Q : Unit → σ → Prop} (h : ∀ s, P s → Q () (f s)) :
    Triple P (modify f : Fallible σ ε Unit) Q := by
  intro s hs a s' hr
  cases hr
  exact h s hs

theorem Triple.ofOption {e : ε} {o : Option α} (h : ∀ a, o = some a → ∀ s, P s → Q a s) :
    Triple P (ofOption e o : Fallible σ ε α) Q := by
  intro s hs a s' hr
  obtain ⟨ha, rfl⟩ := run_ofOption_ok.mp hr
  exact h a ha _ hs

theorem Triple.attempt {x : Fallible σ ε α} (h : Triple P x Q) :
    Triple P x.attempt fun r s => ∀ a, r = .ok a → Q a s := by
  intro s hs r s' hr a ha
  cases hr
  exact h s hs a _ (Prod.ext ha rfl)

theorem Triple.bind {x : Fallible σ ε α} {f : α → Fallible σ ε β} (hx : Triple P x Q)
    (hf : ∀ a, Triple (Q a) (f a) R) :
    Triple P (x >>= f) R := by
  intro s hs b s' hr
  rw [run_bind] at hr
  split at hr
  · rename_i a t ht
    exact hf a t (hx s hs a t ht) b s' hr
  · cases hr

theorem Triple.conseq {x : Fallible σ ε α} (h : Triple P' x Q') (hp : ∀ s, P s → P' s)
    (hq : ∀ a s, Q' a s → Q a s) :
    Triple P x Q :=
  fun s hs a s' hr => hq a s' (h s (hp s hs) a s' hr)

/-- A pure fact about the state before the run can be moved out of the precondition. -/
theorem Triple.assume {p : Prop} {x : Fallible σ ε α} (h : p → Triple P x Q) : Triple (fun s => p ∧ P s) x Q :=
  fun s hs a s' hr => h hs.1 s hs.2 a s' hr

end

/-! ## What a run keeps, however it ends -/

def Keeps (I : σ → Prop) (x : Fallible σ ε α) : Prop := ∀ s, I s → I (x.run s).2

section
variable {I : σ → Prop}

theorem Keeps.pure (a : α) : Keeps I (pure a : Fallible σ ε α) := fun _ h => h

theorem Keeps.gets (f : σ → α) : Keeps I (gets f : Fallible σ ε α) := fun _ h => h

theorem Keeps.ofOption (e : ε) (o : Option α) : Keeps I (ofOption e o : Fallible σ ε α) := by
  intro s h
  cases o <;> exact h

theorem Keeps.bind {x : Fallible σ ε α} {f : α → Fallible σ ε β} (hx : Keeps I x) (hf : ∀ a, Keeps I (f a)) :
    Keeps I (x >>= f) := by
  intro s h
  have h₁ := hx s h
  rw [run_bind]
  split
  · rename_i a t ht
    rw [ht] at h₁
    exact hf a t h₁
  · rename_i e t ht
    rw [ht] at h₁
    exact h₁

end

/-! ## Programs that stop or go on, leaving little behind -/

/-- `x` gives up exactly when `stops` says so, and changes the state within `R`. -/
structure Stops (R : σ → σ → Prop) (stops : Bool) (x : Fallible σ ε Unit) : Prop where
  ends : ∀ s, (x.run s).1.isOk = !stops
  within : ∀ s, R s (x.run s).2

section
variable {R : σ → σ → Prop} {b c : Bool} {x y : Fallible σ ε Unit}

theorem Stops.done (hr : ∀ s, R s s) : Stops R false (pure () : Fallible σ ε Unit) := ⟨fun _ => rfl, hr⟩

theorem Stops.bind (ht : ∀ s t u, R s t → R t u → R s u) (hx : Stops R b x) (hy : Stops R c y) :
    Stops R (b || c) (x >>= fun _ => y) := by
  refine ⟨fun s => ?_, fun s => ?_⟩
  · have h := hx.ends s
    rw [run_bind]
    cases hr : x.run s with
    | mk r t =>
      rw [hr] at h
      cases r with
      | ok a => simpa [← h, Except.isOk, Except.toBool] using hy.ends t
      | error e =>
        have hb : b = true := by simpa [Except.isOk, Except.toBool] using h
        rw [hb]
        rfl
  · have h := hx.within s
    rw [run_bind]
    cases hr : x.run s with
    | mk r t =>
      rw [hr] at h
      cases r with
      | ok a => exact ht _ _ _ h (hy.within t)
      | error e => exact h

theorem Stops.unless (hr : ∀ s, R s s) (p : Bool) (hx : Stops R b x) :
    Stops R (!p && b) (if p then pure () else x) := by
  cases p with
  | true => exact .done hr
  | false => exact hx

theorem Stops.guard (hr : ∀ s, R s s) {p : Prop} [Decidable p] (e : ε) (hx : Stops R b x) :
    Stops R (decide p || b) (if p then fail e else x) := by
  by_cases hp : p
  · rw [if_pos hp, decide_eq_true hp]
    exact ⟨fun _ => rfl, hr⟩
  · rw [if_neg hp, decide_eq_false hp]
    exact hx

end

/-- Every error `x` ends in is one of `E`. -/
def Errs (E : ε → Prop) (x : Fallible σ ε α) : Prop := ∀ s e s', x.run s = (.error e, s') → E e

section
variable {E : ε → Prop}

theorem Errs.pure (a : α) : Errs E (pure a : Fallible σ ε α) := by
  intro s e s' h
  cases h

theorem Errs.fail {e : ε} (h : E e) : Errs E (fail e : Fallible σ ε α) := by
  intro s e' s' he
  cases he
  exact h

theorem Errs.bind {x : Fallible σ ε α} {f : α → Fallible σ ε β} (hx : Errs E x) (hf : ∀ a, Errs E (f a)) :
    Errs E (x >>= f) := by
  intro s e s' h
  rw [run_bind] at h
  split at h
  · exact hf _ _ _ _ h
  · rename_i e' t ht
    cases h
    exact hx _ _ _ ht

end

end Fallible
