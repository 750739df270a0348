import Mathlib.Logic.Basic

/-!
# Labelled runs

A run of a labelled step relation, its events in order, and the induction
that carries a property from the first state to the last.
-/

namespace Lts

variable {σ ε : Type} {step : σ → ε → σ → Prop}

inductive Run (step : σ → ε → σ → Prop) : σ → List ε → σ → Prop
  | nil (s : σ) : Run step s [] s
  | cons {s s' t : σ} {e : ε} {es : List ε} : step s e s' → Run step s' es t → Run step s (e :: es) t

namespace Run

theorem append {s t u : σ} {es fs : List ε} (h : Run step s es t) (h' : Run step t fs u) :
    Run step s (es ++ fs) u := by
  induction h with
  | nil => exact h'
  | cons he _ ih => exact .cons he (ih h')

theorem split {s u : σ} {es fs : List ε} (h : Run step s (es ++ fs) u) :
    ∃ t, Run step s es t ∧ Run step t fs u := by
  induction es generalizing s with
  | nil => exact ⟨s, .nil s, h⟩
  | cons e es ih =>
    cases h with
    | cons he h =>
      obtain ⟨t, h₁, h₂⟩ := ih h
      exact ⟨t, .cons he h₁, h₂⟩

/-- A property kept by every step holds after a run if it holds before it. -/
theorem inv {P : σ → Prop} (hs : ∀ s e s', step s e s' → P s → P s') {s t : σ} {es : List ε}
    (h : Run step s es t) (h0 : P s) : P t := by
  induction h with
  | nil => exact h0
  | cons he _ ih => exact ih (hs _ _ _ he h0)

theorem rel {R : σ → σ → Prop} (hr : ∀ s, R s s) (ht : ∀ a b c, R a b → R b c → R a c)
    (hs : ∀ s e s', step s e s' → R s s') {s t : σ} {es : List ε} (h : Run step s es t) : R s t := by
  induction h with
  | nil s => exact hr s
  | cons he _ ih => exact ht _ _ _ (hs _ _ _ he) ih

theorem mono {step' : σ → ε → σ → Prop} (hs : ∀ s e s', step s e s' → step' s e s') {s t : σ}
    {es : List ε} (h : Run step s es t) : Run step' s es t := by
  induction h with
  | nil s => exact .nil s
  | cons he _ ih => exact .cons (hs _ _ _ he) ih

end Run

/-! ## Machines whose step is a function -/

def Stepwise (enabled : σ → ε → Prop) (next : σ → ε → σ) (s : σ) (e : ε) (s' : σ) : Prop :=
  enabled s e ∧ s' = next s e

def Playable (enabled : σ → ε → Prop) (next : σ → ε → σ) (s : σ) : List ε → Prop
  | [] => True
  | e :: es => enabled s e ∧ Playable enabled next (next s e) es

instance decPlayable (enabled : σ → ε → Prop) [∀ s e, Decidable (enabled s e)] (next : σ → ε → σ)
    (s : σ) :
    (es : List ε) → Decidable (Playable enabled next s es)
  | [] => inferInstanceAs (Decidable True)
  | e :: es =>
    have := decPlayable enabled next (next s e) es
    inferInstanceAs (Decidable (_ ∧ _))

theorem run_script {enabled : σ → ε → Prop} {next : σ → ε → σ} {s : σ} {es : List ε}
    (h : Playable enabled next s es) : Run (Stepwise enabled next) s es (es.foldl next s) := by
  induction es generalizing s with
  | nil => exact .nil s
  | cons e es ih => exact .cons ⟨h.1, rfl⟩ (ih h.2)

/-! ## Guards, reachable states -/

/-- The steps of `step` that meet the condition `C` on the state before them. -/
def Guarded (step : σ → ε → σ → Prop) (C : σ → ε → Prop) (s : σ) (e : ε) (s' : σ) : Prop :=
  step s e s' ∧ C s e

theorem run_guarded_script {enabled : σ → ε → Prop} {C : σ → ε → Prop} {next : σ → ε → σ} {s : σ}
    {es : List ε} (h : Playable (fun s e => enabled s e ∧ C s e) next s es) :
    Run (Guarded (Stepwise enabled next) C) s es (es.foldl next s) :=
  (run_script h).mono fun _ _ _ h => ⟨⟨h.1.1, h.2⟩, h.1.2⟩

/-- Where an event leads to one state only, two guards met along a run are met together. -/
theorem Run.both (hd : ∀ s e s' s'', step s e s' → step s e s'' → s' = s'') {C D : σ → ε → Prop}
    {s t : σ} {es : List ε} (h : Run (Guarded step C) s es t) (h' : Run (Guarded step D) s es t) :
    Run (Guarded step fun s e => C s e ∧ D s e) s es t := by
  induction h with
  | nil s => exact .nil s
  | cons he _ ih =>
    cases h' with
    | cons he' h' =>
      cases hd _ _ _ _ he.1 he'.1
      exact .cons ⟨he.1, he.2, he'.2⟩ (ih h')

def Reachable (init : σ → Prop) (step : σ → ε → σ → Prop) (t : σ) : Prop :=
  ∃ s es, init s ∧ Run step s es t

namespace Reachable

variable {init : σ → Prop}

theorem inv {P : σ → Prop} (h0 : ∀ s, init s → P s) (hs : ∀ s e s', step s e s' → P s → P s') {t : σ}
    (h : Reachable init step t) : P t := by
  obtain ⟨s, es, hi, hr⟩ := h
  exact hr.inv hs (h0 s hi)

theorem run {s t : σ} {es : List ε} (h : Reachable init step s) (hr : Run step s es t) :
    Reachable init step t := by
  obtain ⟨s₀, fs, hi, h₀⟩ := h
  exact ⟨s₀, fs ++ es, hi, h₀.append hr⟩

end Reachable

end Lts
