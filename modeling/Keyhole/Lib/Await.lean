import Keyhole.Lib.Run
import Mathlib.Data.List.Forall2
import Mathlib.Logic.Function.Basic

/-!
# Programs that await

A program of an event loop runs on until it awaits a command, and the other
programs of the pool may take their turns before it is answered. A command
changes what is shared when it is answered, by a value or by an error.
-/

namespace Await

inductive Proc {κ : Type} (ans : κ → Type) (ε α : Type) : Type
  | done (r : Except ε α)
  | await (c : κ) (k : Except ε (ans c) → Proc ans ε α)
  | choose (k : Bool → Proc ans ε α)

namespace Proc

variable {κ ε α β : Type} {ans : κ → Type}

def bind : Proc ans ε α → (α → Proc ans ε β) → Proc ans ε β
  | done (.ok a), f => f a
  | done (.error e), _ => done (.error e)
  | await c k, f => await c fun r => (k r).bind f
  | choose k, f => choose fun b => (k b).bind f

instance : Monad (Proc ans ε) where
  pure a := done (.ok a)
  bind := bind

def perform (c : κ) : Proc ans ε (ans c) := await c done

def throw (e : ε) : Proc ans ε α := done (.error e)

/-- `try { … } catch (e) { … }`. -/
def catchWith : Proc ans ε α → (ε → Proc ans ε α) → Proc ans ε α
  | done (.ok a), _ => done (.ok a)
  | done (.error e), h => h e
  | await c k, h => await c fun r => (k r).catchWith h
  | choose k, h => choose fun b => (k b).catchWith h

/-! ## Programs side by side -/

/-- The outcome of two: the error of `r`, or else that of `r'`. -/
def first (r r' : Except ε Unit) : Except ε Unit :=
  match r with
  | .ok () => r'
  | .error e => .error e

/-- What is left when one of two is done with `r`. -/
def alone (r : Except ε Unit) : Proc ans ε Unit → Proc ans ε Unit
  | done r' => done (first r r')
  | await c k => await c fun a => (k a).alone r
  | choose k => choose fun b => (k b).alone r

/-- The left program goes on by `head left`, and the right one may go first. -/
def meet {ι : Type} (head : (ι → Proc ans ε Unit) → Proc ans ε Unit)
    (left : ι → Proc ans ε Unit → Proc ans ε Unit) :
    Proc ans ε Unit → Proc ans ε Unit
  | done r => head fun a => left a (done r)
  | await d l => choose fun b => if b then head fun a => left a (await d l)
    else await d fun a => meet head left (l a)
  | choose l => choose fun b => if b then head fun a => left a (choose l)
    else choose fun b' => meet head left (l b')

/-- Both run to their end, whichever fails; the outcome is the left one's error where both fail. -/
def both : Proc ans ε Unit → Proc ans ε Unit → Proc ans ε Unit
  | done r => alone r
  | await c k => meet (await c) fun a => both (k a)
  | choose k => meet choose fun b => both (k b)

/-- `Promise.all`, with what the others still do after the first error. Of several errors it fails with the one that
stands first in the list; a promise fails with the one that came first in time. -/
def all : List (Proc ans ε Unit) → Proc ans ε Unit
  | [] => done (.ok ())
  | p :: ps => both p (all ps)

/-! ## What a program ends in -/

section
variable (C : κ → Prop) (A : (c : κ) → Except ε (ans c) → Prop)

/-- Every command the program awaits is one of `C`, and it ends as `Q` says, while the answers are those of `A`. -/
def Meets (Q : Except ε α → Prop) : Proc ans ε α → Prop
  | done r => Q r
  | await c k => C c ∧ ∀ r, A c r → Meets Q (k r)
  | choose k => ∀ b, Meets Q (k b)

end

section
variable {C : κ → Prop} {A : (c : κ) → Except ε (ans c) → Prop} {Q Q' : Except ε α → Prop}

theorem Meets.done {r : Except ε α} (h : Q r) : Meets C A Q (done r : Proc ans ε α) := h

theorem Meets.throw {e : ε} (h : Q (.error e)) : Meets C A Q (throw e : Proc ans ε α) := h

theorem Meets.pure {a : α} (h : Q (.ok a)) : Meets C A Q (pure a : Proc ans ε α) := h

theorem Meets.perform {c : κ} {Q : Except ε (ans c) → Prop} (hc : C c) (h : ∀ r, A c r → Q r) :
    Meets C A Q (perform c : Proc ans ε (ans c)) :=
  ⟨hc, h⟩

theorem Meets.mono {p : Proc ans ε α} (hp : Meets C A Q p) (h : ∀ r, Q r → Q' r) : Meets C A Q' p := by
  induction p with
  | done r => exact h r hp
  | await c k ih => exact ⟨hp.1, fun r hr => ih r (hp.2 r hr)⟩
  | choose k ih => exact fun b => ih b (hp b)

/-- Where nothing is asked of a program, it does that. -/
theorem Meets.trivial (hC : ∀ c, C c) (hQ : ∀ r, Q r) (p : Proc ans ε α) : Meets C A Q p := by
  induction p with
  | done r => exact hQ r
  | await c k ih => exact ⟨hC c, fun r _ => ih r⟩
  | choose k ih => exact ih

theorem Meets.bind {p : Proc ans ε α} {f : α → Proc ans ε β} {P : α → Prop} {R : Except ε β → Prop}
    (hp : Meets C A (fun r => (∀ a, r = .ok a → P a) ∧ ∀ e, r = .error e → R (.error e)) p)
    (hf : ∀ a, P a → Meets C A R (f a)) : Meets C A R (p >>= f) := by
  change Meets C A R (p.bind f)
  induction p with
  | done r =>
    cases r with
    | ok a => exact hf a (hp.1 a rfl)
    | error e => exact hp.2 e rfl
  | await c k ih => exact ⟨hp.1, fun r hr => ih r (hp.2 r hr)⟩
  | choose k ih => exact fun b => ih b (hp b)

theorem Meets.catchWith {p : Proc ans ε α} {h : ε → Proc ans ε α} {E : ε → Prop}
    (hp : Meets C A (fun r => (∀ a, r = .ok a → Q (.ok a)) ∧ ∀ e, r = .error e → E e) p)
    (hh : ∀ e, E e → Meets C A Q (h e)) : Meets C A Q (p.catchWith h) := by
  induction p with
  | done r =>
    cases r with
    | ok a => exact hp.1 a rfl
    | error e => exact hh e (hp.2 e rfl)
  | await c k ih => exact ⟨hp.1, fun r hr => ih r (hp.2 r hr)⟩
  | choose k ih => exact fun b => ih b (hp b)

end

section
variable {C : κ → Prop} {A : (c : κ) → Except ε (ans c) → Prop} {P Q : Prop}

/-- A program that, if it does not fail, has brought about `P`. -/
abbrev Brings (C : κ → Prop) (A : (c : κ) → Except ε (ans c) → Prop) (P : Prop) (p : Proc ans ε Unit) :
    Prop :=
  Meets C A (fun r => r = .ok () → P) p

theorem first_eq_ok {r r' : Except ε Unit} : first r r' = .ok () ↔ r = .ok () ∧ r' = .ok () := by
  cases r <;> simp [first]

theorem brings_alone {r : Except ε Unit} (hr : r = .ok () → P) {q : Proc ans ε Unit} (hq : Brings C A Q q) :
    Brings C A (P ∧ Q) (q.alone r) := by
  induction q with
  | done r' =>
    intro h
    obtain ⟨h, h'⟩ := first_eq_ok.mp h
    exact ⟨hr h, hq h'⟩
  | await c k ih => exact ⟨hq.1, fun a ha => ih a (hq.2 a ha)⟩
  | choose k ih => exact fun b => ih b (hq b)

/-- `T` is what the answer to the left program's next command satisfies. -/
theorem brings_meet {ι : Type} {head : (ι → Proc ans ε Unit) → Proc ans ε Unit}
    {left : ι → Proc ans ε Unit → Proc ans ε Unit} {T : ι → Prop}
    (hhead : ∀ f : ι → Proc ans ε Unit, (∀ a, T a → Brings C A (P ∧ Q) (f a)) →
      Brings C A (P ∧ Q) (head f))
    (hleft : ∀ a, T a → ∀ q, Brings C A Q q → Brings C A (P ∧ Q) (left a q)) {q : Proc ans ε Unit}
    (hq : Brings C A Q q) : Brings C A (P ∧ Q) (meet head left q) := by
  induction q with
  | done r => exact hhead _ fun a ha => hleft a ha _ hq
  | await d l ih =>
    intro b
    cases b with
    | true => exact hhead _ fun a ha => hleft a ha _ hq
    | false => exact ⟨hq.1, fun a ha => ih a (hq.2 a ha)⟩
  | choose l ih =>
    intro b
    cases b with
    | true => exact hhead _ fun a ha => hleft a ha _ hq
    | false => exact fun b' => ih b' (hq b')

theorem brings_both {p q : Proc ans ε Unit} (hp : Brings C A P p) (hq : Brings C A Q q) :
    Brings C A (P ∧ Q) (both p q) := by
  induction p generalizing q with
  | done r => exact brings_alone hp hq
  | await c k ih =>
    refine brings_meet (T := A c) ?_ ?_ hq
    · exact fun f hf => ⟨hp.1, hf⟩
    · exact fun a ha q hq => ih a (hp.2 a ha) hq
  | choose k ih =>
    refine brings_meet (T := fun _ => True) ?_ ?_ hq
    · exact fun f hf b => hf b trivial
    · exact fun b _ q hq => ih b (hp b) hq

theorem brings_all {ι : Type} {P : ι → Prop} {f : ι → Proc ans ε Unit} {is : List ι}
    (h : ∀ i ∈ is, Brings C A (P i) (f i)) : Brings C A (∀ i ∈ is, P i) (all (is.map f)) := by
  induction is with
  | nil =>
    intro _ i hi
    cases hi
  | cons i is ih =>
    refine (brings_both (h i List.mem_cons_self) (ih fun j hj => h j (List.mem_cons_of_mem i hj))).mono ?_
    intro r hr hok j hj
    rcases List.mem_cons.mp hj with rfl | hj
    · exact (hr hok).1
    · exact (hr hok).2 j hj

end

end Proc

/-! ## Pools -/

variable {σ κ ε α J : Type} {ans : κ → Type}

/-- Each program stands beside the job it was started for. -/
structure Pool (σ J : Type) {κ : Type} (ans : κ → Type) (ε α : Type) where
  shared : σ
  task : Nat → Option (J × Proc ans ε α)

inductive Event (J : Type) {κ : Type} (ans : κ → Type) (ε : Type)
  | start (i : Nat) (j : J)
  | answer (i : Nat) (c : κ) (r : Except ε (ans c))
  | pick (i : Nat) (b : Bool)

inductive Step (exec : σ → (c : κ) → Except ε (ans c) → σ → Prop) (body : J → Proc ans ε α) :
    Pool σ J ans ε α → Event J ans ε → Pool σ J ans ε α → Prop
  | start {w : Pool σ J ans ε α} {i : Nat} (j : J) : w.task i = none →
      Step exec body w (.start i j) { w with task := Function.update w.task i (some (j, body j)) }
  | answer {w : Pool σ J ans ε α} {i : Nat} {j : J} {c : κ} {k : Except ε (ans c) → Proc ans ε α}
      {r : Except ε (ans c)} {s : σ} : w.task i = some (j, .await c k) → exec w.shared c r s →
      Step exec body w (.answer i c r) ⟨s, Function.update w.task i (some (j, k r))⟩
  | pick {w : Pool σ J ans ε α} {i : Nat} {j : J} {k : Bool → Proc ans ε α} (b : Bool) :
      w.task i = some (j, .choose k) →
      Step exec body w (.pick i b) { w with task := Function.update w.task i (some (j, k b)) }

section
variable {exec : σ → (c : κ) → Except ε (ans c) → σ → Prop} {body : J → Proc ans ε α}

/-- The answers of a run, of whatever program. -/
def Answered (A : (c : κ) → Except ε (ans c) → Prop) (es : List (Event J ans ε)) : Prop :=
  ∀ i c r, Event.answer i c r ∈ es → A c r

theorem Answered.tail {A : (c : κ) → Except ε (ans c) → Prop} {e : Event J ans ε} {es : List (Event J ans ε)}
    (h : Answered A (e :: es)) : Answered A es :=
  fun i c r hm => h i c r (List.mem_cons_of_mem e hm)

/-- The answers to the programs that `who` is about. -/
def AnsweredTo (who : Nat → J → Prop) (A : (c : κ) → Except ε (ans c) → Prop) (es : List (Event J ans ε)) :
    Prop :=
  ∀ i j c r, who i j → Event.answer i c r ∈ es → A c r

theorem AnsweredTo.tail {who : Nat → J → Prop} {A : (c : κ) → Except ε (ans c) → Prop} {e : Event J ans ε}
    {es : List (Event J ans ε)} (h : AnsweredTo who A (e :: es)) : AnsweredTo who A es :=
  fun i j c r hw hm => h i j c r hw (List.mem_cons_of_mem e hm)

theorem Answered.to {A : (c : κ) → Except ε (ans c) → Prop} {es : List (Event J ans ε)} (h : Answered A es)
    (who : Nat → J → Prop) : AnsweredTo who A es :=
  fun i _ c r _ hm => h i c r hm

/-- A program's job is its own to the end. -/
theorem run_job {w w' : Pool σ J ans ε α} {es : List (Event J ans ε)} (h : Lts.Run (Step exec body) w es w')
    {i : Nat} {j : J} {p : Proc ans ε α} (ht : w.task i = some (j, p)) : ∃ q, w'.task i = some (j, q) := by
  refine h.inv (P := fun w => ∃ q, w.task i = some (j, q)) ?_ ⟨p, ht⟩
  rintro w e w' he ⟨q, hq⟩
  have hupd : ∀ {task : Nat → Option (J × Proc ans ε α)} {i' : Nat} {j' : J} {p' : Proc ans ε α},
      task i = some (j, q) → (i' = i → j' = j) →
        ∃ q, Function.update task i' (some (j', p')) i = some (j, q) := by
    intro task i' j' p' hq hj
    by_cases hi : i = i'
    · subst hi
      rw [Function.update_self, hj rfl]
      exact ⟨_, rfl⟩
    · rw [Function.update_of_ne hi]
      exact ⟨q, hq⟩
  cases he with
  | start j' hn => exact hupd hq fun hi => by rw [hi, hq] at hn; cases hn
  | answer hk hx => exact hupd hq fun hi => by rw [hi, hq] at hk; cases hk; rfl
  | pick b hk => exact hupd hq fun hi => by rw [hi, hq] at hk; cases hk; rfl

/-- Every program of the pool that `who` is about is on its way to what its job is to end in. -/
def OnCourse (C : κ → Prop) (A : (c : κ) → Except ε (ans c) → Prop) (Q : J → Except ε α → Prop)
    (who : Nat → J → Prop) (task : Nat → Option (J × Proc ans ε α)) : Prop :=
  ∀ i j p, who i j → task i = some (j, p) → p.Meets C A (Q j)

section
variable {C : κ → Prop} {A : (c : κ) → Except ε (ans c) → Prop} {Q : J → Except ε α → Prop}
  {who : Nat → J → Prop}
  {task : Nat → Option (J × Proc ans ε α)}

theorem OnCourse.update (h : OnCourse C A Q who task) {i : Nat} {j : J} {p : Proc ans ε α}
    (hp : who i j → p.Meets C A (Q j)) : OnCourse C A Q who (Function.update task i (some (j, p))) := by
  intro i' j' p' hw ht
  by_cases hi : i' = i
  · subst hi
    rw [Function.update_self] at ht
    cases ht
    exact hp hw
  · rw [Function.update_of_ne hi] at ht
    exact h i' j' p' hw ht

variable (hbody : ∀ i j, who i j → (body j).Meets C A (Q j))
include hbody

theorem Step.onCourse {w w' : Pool σ J ans ε α} {e : Event J ans ε} (h : Step exec body w e w')
    (ha : ∀ i j c r, who i j → e = .answer i c r → A c r) (hw : OnCourse C A Q who w.task) :
    OnCourse C A Q who w'.task := by
  cases h with
  | start j hi => exact hw.update fun hwho => hbody _ j hwho
  | answer hi hx => exact hw.update fun hwho => (hw _ _ _ hwho hi).2 _ (ha _ _ _ _ hwho rfl)
  | pick b hi => exact hw.update fun hwho => hw _ _ _ hwho hi b

/-- Along a run that answers them as `A` says, the programs that `who` is about end as their jobs are to end. -/
theorem run_onCourse {w w' : Pool σ J ans ε α} {es : List (Event J ans ε)} (h : Lts.Run (Step exec body) w es w')
    (ha : AnsweredTo who A es) (hw : OnCourse C A Q who w.task) : OnCourse C A Q who w'.task := by
  induction h with
  | nil => exact hw
  | cons he _ ih =>
    refine ih ha.tail (he.onCourse hbody ?_ hw)
    rintro i j c r hwho rfl
    exact ha i j c r hwho List.mem_cons_self

/-- Every command of a program that has come to its end under the job `j` was one of `C`. -/
theorem run_commands {w w' : Pool σ J ans ε α} {es : List (Event J ans ε)} (h : Lts.Run (Step exec body) w es w')
    (ha : AnsweredTo who A es) (hw : OnCourse C A Q who w.task) {i : Nat} {j : J} {p : Proc ans ε α}
    (ht : w'.task i = some (j, p)) (hi : who i j) {c : κ} {r : Except ε (ans c)} (hm : Event.answer i c r ∈ es) :
    C c := by
  induction h with
  | nil => cases hm
  | cons he hr ih =>
    rcases List.mem_cons.mp hm with rfl | hm
    · cases he with
      | answer hk _ =>
        obtain ⟨q, hq⟩ := run_job hr (Function.update_self ..)
        rw [ht] at hq
        cases hq
        exact (hw _ _ _ hi hk).1
    · refine ih ha.tail (he.onCourse hbody ?_ hw) ht hm
      rintro i j c r hwho rfl
      exact ha i j c r hwho List.mem_cons_self

omit hbody in
/-- `I` holds of what is shared, and the answers are of `A`, when no command of `C` breaks it. -/
theorem run_inv (hbody : ∀ j, (body j).Meets C A (Q j)) {I : σ → Prop}
    (hexec : ∀ s c r s', I s → C c → exec s c r s' → A c r ∧ I s') {w w' : Pool σ J ans ε α}
    {es : List (Event J ans ε)} (h : Lts.Run (Step exec body) w es w') (hi : I w.shared)
    (hw : OnCourse C A Q (fun _ _ => True) w.task) :
    I w'.shared ∧ OnCourse C A Q (fun _ _ => True) w'.task := by
  refine h.inv (P := fun w => I w.shared ∧ OnCourse C A Q (fun _ _ => True) w.task) ?_ ⟨hi, hw⟩
  rintro w e w' he ⟨hi, hw⟩
  cases he with
  | start j ht => exact ⟨hi, hw.update fun _ => hbody j⟩
  | answer ht hx =>
    obtain ⟨hc, hk⟩ := hw _ _ _ trivial ht
    obtain ⟨ha, hi⟩ := hexec _ _ _ _ hi hc hx
    exact ⟨hi, hw.update fun _ => hk _ ha⟩
  | pick b ht => exact ⟨hi, hw.update fun _ => hw _ _ _ trivial ht b⟩

end

/-- What no answer of the run undoes. -/
theorem run_keeps {P : σ → Prop} {w w' : Pool σ J ans ε α} {es : List (Event J ans ε)}
    (h : Lts.Run (Step exec body) w es w')
    (hkeep : ∀ i c r s s', Event.answer i c r ∈ es → exec s c r s' → P s → P s') (hp : P w.shared) :
    P w'.shared := by
  induction h with
  | nil => exact hp
  | cons he _ ih =>
    refine ih (fun i c r s s' hm => hkeep i c r s s' (List.mem_cons_of_mem _ hm)) ?_
    cases he with
    | start j ht => exact hp
    | answer ht hx => exact hkeep _ _ _ _ _ List.mem_cons_self hx hp
    | pick b ht => exact hp

/-- What holds all along a run is there when a command is answered. -/
theorem answered_of_keeps {P : σ → Prop} {A : (c : κ) → Except ε (ans c) → Prop} {w w' : Pool σ J ans ε α}
    {es : List (Event J ans ε)} (h : Lts.Run (Step exec body) w es w')
    (hkeep : ∀ i c r s s', Event.answer i c r ∈ es → exec s c r s' → P s → P s') (hp : P w.shared)
    (hA : ∀ s c r s', P s → exec s c r s' → A c r) : Answered A es := by
  induction h with
  | nil =>
    intro i c r hm
    cases hm
  | cons he _ ih =>
    intro i c r hm
    have hk : ∀ i c r s s', Event.answer i c r ∈ _ → exec s c r s' → P s → P s' :=
      fun i c r s s' hm => hkeep i c r s s' (List.mem_cons_of_mem _ hm)
    rcases List.mem_cons.mp hm with rfl | hm
    · cases he with
      | answer _ hx => exact hA _ _ _ _ hp hx
    · refine ih hk ?_ i c r hm
      cases he with
      | start j ht => exact hp
      | answer ht hx => exact hkeep _ _ _ _ _ List.mem_cons_self hx hp
      | pick b ht => exact hp

/-- What an answer brought about, and nothing answered after it undoes, holds at the end. -/
theorem lasting {P : σ → Prop} {w w' : Pool σ J ans ε α} {es : List (Event J ans ε)}
    (h : Lts.Run (Step exec body) w es w') {i : Nat} {c : κ} {r : Except ε (ans c)} (hm : Event.answer i c r ∈ es)
    (hx : ∀ s s', exec s c r s' → P s')
    (hkeep : ∀ i c r s s', Event.answer i c r ∈ es → exec s c r s' → P s → P s') : P w'.shared := by
  induction h with
  | nil => cases hm
  | @cons w w₁ t e es he hr ih =>
    have hk : ∀ i c r s s', Event.answer i c r ∈ es → exec s c r s' → P s → P s' :=
      fun i c r s s' hm => hkeep i c r s s' (List.mem_cons_of_mem _ hm)
    by_cases hes : Event.answer i c r ∈ es
    · exact ih hes hk
    · rcases List.mem_cons.mp hm with rfl | hm
      · cases he with
        | answer _ hexec => exact run_keeps hr hk (hx _ _ hexec)
      · exact absurd hm hes

end

/-! ## Programs that know what they found -/

namespace Proc

section
variable (exec : σ → (c : κ) → Except ε (ans c) → σ → Prop) (I : σ → Prop) (R : σ → σ → Prop)
  (C : σ → κ → Prop)

/-- From `s` on, where the others change what is shared within `R` and keep `I`, every command is one that `C`
admits in the state it is answered in, and the program ends as `Q` says. -/
def Follows (Q : Except ε α → σ → Prop) : Proc ans ε α → σ → Prop
  | done r, s => Q r s
  | await c k, s => ∀ t, R s t → I t → C t c ∧ ∀ r t', exec t c r t' → Follows Q (k r) t'
  | choose k, s => ∀ b, Follows Q (k b) s

end

section
variable {exec : σ → (c : κ) → Except ε (ans c) → σ → Prop} {I : σ → Prop} {R : σ → σ → Prop}
  {C : σ → κ → Prop}
  {Q : Except ε α → σ → Prop}

theorem Follows.perform {c : κ} {Q : Except ε (ans c) → σ → Prop} {s : σ}
    (h : ∀ t, R s t → I t → C t c ∧ ∀ r t', exec t c r t' → Q r t') :
    Follows exec I R C Q (perform c : Proc ans ε (ans c)) s := h

theorem Follows.pure {a : α} {s : σ} (h : Q (.ok a) s) : Follows exec I R C Q (pure a : Proc ans ε α) s := h

theorem Follows.bind {β : Type} {p : Proc ans ε α} {f : α → Proc ans ε β} {P : α → σ → Prop}
    {Q' : Except ε β → σ → Prop} {s : σ}
    (hp : Follows exec I R C (fun r t => (∀ a, r = .ok a → P a t) ∧ ∀ e, r = .error e → Q' (.error e) t) p s)
    (hf : ∀ a t, P a t → Follows exec I R C Q' (f a) t) : Follows exec I R C Q' (p >>= f) s := by
  change Follows exec I R C Q' (p.bind f) s
  induction p generalizing s with
  | done r =>
    cases r with
    | ok a => exact hf a s (hp.1 a rfl)
    | error e => exact hp.2 e rfl
  | await c k ih => exact fun t hr hi => ⟨(hp t hr hi).1, fun r t' hx => ih r ((hp t hr hi).2 r t' hx)⟩
  | choose k ih => exact fun b => ih b (hp b)

theorem Follows.catchWith {p : Proc ans ε α} {h : ε → Proc ans ε α} {E : ε → σ → Prop} {s : σ}
    (hp : Follows exec I R C (fun r t => (∀ a, r = .ok a → Q (.ok a) t) ∧ ∀ e, r = .error e → E e t) p s)
    (hh : ∀ e t, E e t → Follows exec I R C Q (h e) t) : Follows exec I R C Q (p.catchWith h) s := by
  induction p generalizing s with
  | done r =>
    cases r with
    | ok a => exact hp.1 a rfl
    | error e => exact hh e s (hp.2 e rfl)
  | await c k ih => exact fun t hr hi => ⟨(hp t hr hi).1, fun r t' hx => ih r ((hp t hr hi).2 r t' hx)⟩
  | choose k ih => exact fun b => ih b (hp b)

theorem Follows.later (ht : ∀ a b c, R a b → R b c → R a c) (hQ : ∀ r s t, Q r s → R s t → Q r t)
    {p : Proc ans ε α} {s t : σ} (h : Follows exec I R C Q p s) (hr : R s t) : Follows exec I R C Q p t := by
  induction p generalizing s t with
  | done r => exact hQ r s t h hr
  | await c k _ => exact fun u hu hi => h u (ht _ _ _ hr hu) hi
  | choose k ih => exact fun b => ih b (h b) hr

end

end Proc

section
variable {exec : σ → (c : κ) → Except ε (ans c) → σ → Prop} {body : J → Proc ans ε α} {I : σ → Prop}
  {R : σ → σ → Prop} {C : σ → κ → Prop} {Q : J → Except ε α → σ → Prop}

/-- Programs that each do only what `C` admits keep `I` between them. -/
theorem run_follows (hr : ∀ s, R s s) (ht : ∀ a b c, R a b → R b c → R a c)
    (hQ : ∀ j r s t, Q j r s → R s t → Q j r t)
    (hexec : ∀ s c r s', I s → C s c → exec s c r s' → I s' ∧ R s s')
    (hbody : ∀ j s, I s → (body j).Follows exec I R C (Q j) s) {w w' : Pool σ J ans ε α}
    {es : List (Event J ans ε)} (h : Lts.Run (Step exec body) w es w') (hi : I w.shared)
    (hw : ∀ i j p, w.task i = some (j, p) → p.Follows exec I R C (Q j) w.shared) :
    I w'.shared ∧ ∀ i j p, w'.task i = some (j, p) → p.Follows exec I R C (Q j) w'.shared := by
  have hput : ∀ {task : Nat → Option (J × Proc ans ε α)} {s : σ} {i : Nat} {j : J} {p : Proc ans ε α},
      (∀ i j p, task i = some (j, p) → p.Follows exec I R C (Q j) s) → p.Follows exec I R C (Q j) s →
      ∀ i' j' p', Function.update task i (some (j, p)) i' = some (j', p') → p'.Follows exec I R C (Q j') s := by
    intro task s i j p hw hp i' j' p' he
    by_cases hi' : i' = i
    · subst hi'
      rw [Function.update_self] at he
      cases he
      exact hp
    · rw [Function.update_of_ne hi'] at he
      exact hw i' j' p' he
  refine h.inv (P := fun w => I w.shared ∧ ∀ i j p, w.task i = some (j, p) → p.Follows exec I R C (Q j) w.shared)
    ?_ ⟨hi, hw⟩
  rintro w e w' he ⟨hi, hw⟩
  cases he with
  | start j hn => exact ⟨hi, hput hw (hbody j _ hi)⟩
  | answer hk hx =>
    obtain ⟨hc, hnext⟩ := hw _ _ _ hk _ (hr _) hi
    obtain ⟨hi', hrel⟩ := hexec _ _ _ _ hi hc hx
    exact ⟨hi', hput (fun i j p hp => (hw i j p hp).later ht (hQ j) hrel) (hnext _ _ hx)⟩
  | pick b hk => exact ⟨hi, hput hw (hw _ _ _ hk b)⟩

end

/-! ## Runs step by step -/

section
variable {exec : σ → (c : κ) → Except ε (ans c) → σ → Prop} {body : J → Proc ans ε α}
  {task : Nat → Option (J × Proc ans ε α)} {s s' : σ} {i : Nat} {j : J} {es : List (Event J ans ε)}
  {w : Pool σ J ans ε α}

theorem run_start (hn : task i = none)
    (h : Lts.Run (Step exec body) ⟨s, Function.update task i (some (j, body j))⟩ es w) :
    Lts.Run (Step exec body) ⟨s, task⟩ (.start i j :: es) w :=
  .cons (.start j hn) h

theorem run_answer {c : κ} {k : Except ε (ans c) → Proc ans ε α} {r : Except ε (ans c)} (hx : exec s c r s')
    (h : Lts.Run (Step exec body) ⟨s', Function.update task i (some (j, k r))⟩ es w) :
    Lts.Run (Step exec body) ⟨s, Function.update task i (some (j, .await c k))⟩ (.answer i c r :: es) w := by
  refine .cons (.answer (Function.update_self ..) hx) ?_
  rwa [Function.update_idem]

end

/-! ## Looking back along a run -/

section
variable (exec : σ → (c : κ) → Except ε (ans c) → σ → Prop) (body : J → Proc ans ε α)

/-- At some instant of the run `es` from `w`. -/
def During (w : Pool σ J ans ε α) (es : List (Event J ans ε)) (P : σ → Prop) : Prop :=
  ∃ es₁ es₂ u, es = es₁ ++ es₂ ∧ Lts.Run (Step exec body) w es₁ u ∧ P u.shared

/-- `r` is what the command `c` gave at some instant of the run. -/
def Gave (w : Pool σ J ans ε α) (es : List (Event J ans ε)) (c : κ) (r : Except ε (ans c)) : Prop :=
  During exec body w es fun s => ∃ s', exec s c r s'

end

section
variable {exec : σ → (c : κ) → Except ε (ans c) → σ → Prop} {body : J → Proc ans ε α}
  {P P' : σ → Prop}
  {w w' : Pool σ J ans ε α} {e : Event J ans ε} {es fs : List (Event J ans ε)}

theorem Step.starts (he : Step exec body w e w') {i : Nat} {j : J} {p : Proc ans ε α} (hn : w.task i = none)
    (hp : w'.task i = some (j, p)) : e = .start i j := by
  have hupd : ∀ {k : Nat} {j' : J} {p' : Proc ans ε α}, Function.update w.task k (some (j', p')) i = some (j, p) →
      k = i ∧ j' = j := by
    intro k j' p' h
    by_cases hi : i = k
    · subst hi
      rw [Function.update_self] at h
      cases h
      exact ⟨rfl, rfl⟩
    · rw [Function.update_of_ne hi, hn] at h
      cases h
  cases he with
  | start j' hk =>
    obtain ⟨rfl, rfl⟩ := hupd hp
    rfl
  | answer hk hx =>
    obtain ⟨rfl, -⟩ := hupd hp
    rw [hn] at hk
    cases hk
  | pick b hk =>
    obtain ⟨rfl, -⟩ := hupd hp
    rw [hn] at hk
    cases hk

theorem During.mono (h : During exec body w es P) (hP : ∀ s, P s → P' s) : During exec body w es P' := by
  obtain ⟨es₁, es₂, u, he, hr, hp⟩ := h
  exact ⟨es₁, es₂, u, he, hr, hP _ hp⟩

theorem During.cons (he : Step exec body w e w') (h : During exec body w' es P) :
    During exec body w (e :: es) P := by
  obtain ⟨es₁, es₂, u, rfl, hr, hp⟩ := h
  exact ⟨e :: es₁, es₂, u, rfl, .cons he hr, hp⟩

theorem run_gave (h : Lts.Run (Step exec body) w es w') : Answered (Gave exec body w es) es := by
  induction h with
  | nil =>
    intro i c r hm
    cases hm
  | @cons w w₁ t e es he hr ih =>
    intro i c r hm
    rcases List.mem_cons.mp hm with rfl | hm
    · cases he with
      | answer _ hx => exact ⟨[], _, w, rfl, .nil w, _, hx⟩
    · exact (ih i c r hm).cons he

/-- A program that is started in the run, and still goes on at its end, goes on as its body says. -/
theorem started_meets {C : κ → Prop} {A : (c : κ) → Except ε (ans c) → Prop} {Q : Except ε α → Prop}
    {i : Nat} {j j' : J} {p : Proc ans ε α} (hbody : (body j).Meets C A Q)
    (h : Lts.Run (Step exec body) w (.start i j :: es) w') (ha : Answered A (.start i j :: es))
    (hp : w'.task i = some (j', p)) : p.Meets C A Q := by
  cases h with
  | cons he hr =>
    cases he with
    | start _ hi =>
      obtain ⟨q, hq⟩ := run_job hr (Function.update_self ..)
      obtain rfl : j' = j := by
        rw [hp] at hq
        cases hq
        rfl
      have hcourse : OnCourse C A (fun _ : J => Q) (fun k j => k = i ∧ j = j') w'.task := by
        refine run_onCourse ?_ hr (ha.tail.to _) ?_
        · rintro k j ⟨-, rfl⟩
          exact hbody
        · rintro k j p ⟨rfl, rfl⟩ ht
          cases (Function.update_self ..).symm.trans ht
          exact hbody
      exact hcourse i j' p ⟨rfl, rfl⟩ hp

/-- What it is answered next was a command that its body says it may await. -/
theorem started_awaits {C : κ → Prop} {A : (c : κ) → Except ε (ans c) → Prop} {Q : Except ε α → Prop}
    {i : Nat} {j : J} {c : κ} {r : Except ε (ans c)} (hbody : (body j).Meets C A Q)
    (h : Lts.Run (Step exec body) w (.start i j :: es ++ [.answer i c r]) w') (ha : Answered A (.start i j :: es)) :
    C c := by
  obtain ⟨u, hr, hlast⟩ := h.split
  cases hlast with
  | cons he _ =>
    cases he with
    | answer hk _ => exact (started_meets hbody hr ha hk).1

/-- Whatever it was answered was a command of its body. -/
theorem started_awaited {C : κ → Prop} {A : (c : κ) → Except ε (ans c) → Prop} {Q : Except ε α → Prop}
    {i : Nat} {j : J} {c : κ} {r : Except ε (ans c)} (hbody : (body j).Meets C A Q)
    (h : Lts.Run (Step exec body) w (.start i j :: es) w') (ha : Answered A (.start i j :: es))
    (hm : Event.answer i c r ∈ es) : C c := by
  obtain ⟨es₁, es₂, rfl⟩ := List.append_of_mem hm
  have hsplit : Lts.Run (Step exec body) w ((.start i j :: es₁ ++ [.answer i c r]) ++ es₂) w' := by
    simpa using h
  obtain ⟨u, hu, -⟩ := hsplit.split
  refine started_awaits hbody hu fun k c' r' hm' => ha k c' r' ?_
  rw [← List.cons_append]
  exact List.mem_append_left _ hm'

/-- A program that a run ends with and did not begin with was started in it. -/
theorem run_started (h : Lts.Run (Step exec body) w es w') {i : Nat} {j : J} {p : Proc ans ε α}
    (hn : w.task i = none) (hp : w'.task i = some (j, p)) :
    ∃ es₁ es₂ u, es = es₁ ++ .start i j :: es₂ ∧ Lts.Run (Step exec body) w es₁ u ∧
      Lts.Run (Step exec body) u (.start i j :: es₂) w' := by
  induction h with
  | nil =>
    rw [hn] at hp
    cases hp
  | @cons w w₁ t e es he hr ih =>
    cases h₁ : w₁.task i with
    | none =>
      obtain ⟨es₁, es₂, u, rfl, h₁, h₂⟩ := ih h₁ hp
      exact ⟨e :: es₁, es₂, u, rfl, .cons he h₁, h₂⟩
    | some jp =>
      obtain ⟨j', q⟩ := jp
      obtain ⟨q', hq'⟩ := run_job hr h₁
      obtain rfl : j' = j := by
        rw [hp] at hq'
        cases hq'
        rfl
      obtain rfl : e = .start i j' := he.starts hn h₁
      exact ⟨[], es, w, rfl, .nil w, .cons he hr⟩

end

/-! ## What a program is answered from -/

namespace Proc

/-- A program that makes no choice of its own. -/
def Plain : Proc ans ε α → Prop
  | done _ => True
  | await _ k => ∀ r, Plain (k r)
  | choose _ => False

theorem Plain.bind {β : Type} {p : Proc ans ε α} {f : α → Proc ans ε β} (hp : p.Plain)
    (hf : ∀ a, (f a).Plain) :
    (p >>= f).Plain := by
  change (p.bind f).Plain
  induction p with
  | done r =>
    cases r with
    | ok a => exact hf a
    | error e => trivial
  | await c k ih => exact fun r => ih r (hp r)
  | choose k => exact hp.elim

/-- What is left of a program that has been answered from each of these. -/
def hear {M : Type} (f : M → (c : κ) → Except ε (ans c)) : Proc ans ε α → List M → Proc ans ε α
  | await c k, m :: ms => (k (f m c)).hear f ms
  | p, _ => p

end Proc

section
variable {M : Type} (exec : σ → (c : κ) → Except ε (ans c) → σ → Prop) (body : J → Proc ans ε α)
  (f : M → (c : κ) → Except ε (ans c)) (state : M → σ)

/-- A run that answers the program `i` from `ms`, one after the other. -/
inductive Hears (i : Nat) : Pool σ J ans ε α → List (Event J ans ε) → List M → Pool σ J ans ε α → Prop
  | nil (w : Pool σ J ans ε α) : Hears i w [] [] w
  | answer {w v w' : Pool σ J ans ε α} {m : M} {c : κ} {es : List (Event J ans ε)} {ms : List M} :
      Step exec body w (.answer i c (f m c)) v → state m = w.shared → Hears i v es ms w' →
      Hears i w (.answer i c (f m c) :: es) (m :: ms) w'
  | beside {w v w' : Pool σ J ans ε α} {e : Event J ans ε} {es : List (Event J ans ε)} {ms : List M} :
      Step exec body w e v → (∀ c r, e ≠ .answer i c r) → Hears i v es ms w' → Hears i w (e :: es) ms w'

end

section
variable {M : Type} {exec : σ → (c : κ) → Except ε (ans c) → σ → Prop} {body : J → Proc ans ε α}
  {f : M → (c : κ) → Except ε (ans c)} {state : M → σ} {i : Nat} {w w' : Pool σ J ans ε α}
  {es : List (Event J ans ε)} {ms : List M}

theorem hears_of_run (hf : ∀ s c r s', exec s c r s' → ∃ m, state m = s ∧ r = f m c) (i : Nat)
    (h : Lts.Run (Step exec body) w es w') : ∃ ms, Hears exec body f state i w es ms w' := by
  induction h with
  | nil w => exact ⟨[], .nil w⟩
  | @cons w v t e es he _ ih =>
    obtain ⟨ms, hms⟩ := ih
    by_cases hi : ∃ c r, e = .answer i c r
    · obtain ⟨c, r, rfl⟩ := hi
      obtain ⟨m, hm, rfl⟩ : ∃ m, state m = w.shared ∧ r = f m c := by
        cases he with
        | answer _ hx => exact hf _ _ _ _ hx
      exact ⟨m :: ms, .answer he hm hms⟩
    · exact ⟨ms, .beside he (fun c r heq => hi ⟨c, r, heq⟩) hms⟩

theorem Hears.run (h : Hears exec body f state i w es ms w') : Lts.Run (Step exec body) w es w' := by
  induction h with
  | nil w => exact .nil w
  | answer he _ _ ih => exact .cons he ih
  | beside he _ _ ih => exact .cons he ih

theorem Step.other {v : Pool σ J ans ε α} {e : Event J ans ε} (he : Step exec body w e v)
    (hne : ∀ c r, e ≠ .answer i c r) {j : J} {p : Proc ans ε α} (ht : w.task i = some (j, p)) (hp : p.Plain) :
    v.task i = some (j, p) := by
  have hupd : ∀ {k : Nat} {q : Option (J × Proc ans ε α)}, i ≠ k →
    Function.update w.task k q i = some (j, p) :=
    fun hk => by rw [Function.update_of_ne hk, ht]
  cases he with
  | start j' hn =>
    refine hupd ?_
    rintro rfl
    rw [hn] at ht
    cases ht
  | answer hk hx =>
    refine hupd ?_
    rintro rfl
    exact hne _ _ rfl
  | pick b hk =>
    refine hupd ?_
    rintro rfl
    rw [hk] at ht
    cases ht
    exact hp.elim

/-- The answers decide where a program that makes no choices is. -/
theorem Hears.left (h : Hears exec body f state i w es ms w') {j : J} {p : Proc ans ε α}
    (ht : w.task i = some (j, p)) (hp : p.Plain) : w'.task i = some (j, p.hear f ms) := by
  induction h generalizing p with
  | nil w => rw [ht]; cases p <;> rfl
  | answer he _ _ ih =>
    cases he with
    | answer hk _ =>
      rw [hk] at ht
      cases ht
      exact ih (Function.update_self ..) (hp _)
  | beside he hne _ ih => exact ih (he.other hne ht hp) hp

theorem Hears.started {j : J} (h : Hears exec body f state i w (.start i j :: es) ms w') (hp : (body j).Plain) :
    w'.task i = some (j, (body j).hear f ms) := by
  cases h with
  | beside he _ h =>
    cases he with
    | start _ _ => exact h.left (Function.update_self ..) hp

/-- A program whose commands are answered alike from both goes the same way. -/
theorem Hears.agree {C : κ → Prop} {A : (c : κ) → Except ε (ans c) → Prop} {Q : Except ε α → Prop}
    {R : M → M → Prop} (hR : ∀ c m n, C c → R m n → f m c = f n c)
    (h : Hears exec body f state i w es ms w') (ha : Answered A es) {ns : List M} (hms : List.Forall₂ R ms ns)
    {j : J} {p : Proc ans ε α} (ht : w.task i = some (j, p)) (hp : p.Plain) (hmeets : p.Meets C A Q) :
    p.hear f ms = p.hear f ns := by
  induction h generalizing p ns with
  | nil w =>
    cases hms
    rfl
  | @answer w v w' m c es ms he _ _ ih =>
    cases hms with
    | @cons _ n _ ns hmn hms =>
      cases he with
      | answer hk _ =>
        rw [hk] at ht
        cases ht
        have hnext := ih ha.tail hms (Function.update_self ..) (hp _) (hmeets.2 _ (ha _ _ _ List.mem_cons_self))
        simp only [Proc.hear]
        rw [← hR c m n hmeets.1 hmn]
        exact hnext
  | beside he hne _ ih => exact ih ha.tail hms (he.other hne ht hp) hp hmeets

theorem Hears.started_agree {C : κ → Prop} {A : (c : κ) → Except ε (ans c) → Prop} {Q : Except ε α → Prop}
    {R : M → M → Prop} (hR : ∀ c m n, C c → R m n → f m c = f n c) {j : J}
    (h : Hears exec body f state i w (.start i j :: es) ms w') (ha : Answered A (.start i j :: es)) {ns : List M}
    (hms : List.Forall₂ R ms ns) (hp : (body j).Plain) (hmeets : (body j).Meets C A Q) :
    (body j).hear f ms = (body j).hear f ns := by
  cases h with
  | beside he _ h =>
    cases he with
    | start _ _ => exact h.agree hR ha.tail hms (Function.update_self ..) hp hmeets

theorem hears_start {task : Nat → Option (J × Proc ans ε α)} {s : σ} {j : J} (hn : task i = none)
    (h : Hears exec body f state i ⟨s, Function.update task i (some (j, body j))⟩ es ms w) :
    Hears exec body f state i ⟨s, task⟩ (.start i j :: es) ms w :=
  .beside (.start j hn) (by simp) h

theorem hears_answer {task : Nat → Option (J × Proc ans ε α)} {s s' : σ} {j : J} {c : κ}
    {k : Except ε (ans c) → Proc ans ε α} {r : Except ε (ans c)} {m : M} (hm : state m = s) (hr : f m c = r)
    (hx : exec s c r s') (h : Hears exec body f state i ⟨s', Function.update task i (some (j, k r))⟩ es ms w) :
    Hears exec body f state i ⟨s, Function.update task i (some (j, .await c k))⟩ (.answer i c r :: es)
      (m :: ms) w := by
  subst hr
  refine .answer (.answer (Function.update_self ..) hx) hm ?_
  rwa [Function.update_idem]

end

/-! ## A program with the pool to itself -/

/-- `f` is what comes of a command. -/
def Proc.solo (f : σ → (c : κ) → Except ε (ans c) × σ) : Proc ans ε α → σ → Except ε α × σ
  | done r, s => (r, s)
  | await c k, s => (k (f s c).1).solo f (f s c).2
  | choose k, s => (k true).solo f s

section
variable {exec : σ → (c : κ) → Except ε (ans c) → σ → Prop} {body : J → Proc ans ε α}
  {f : σ → (c : κ) → Except ε (ans c) × σ}

theorem solo_perform (c : κ) (s : σ) : (Proc.perform c : Proc ans ε (ans c)).solo f s = f s c := rfl

theorem solo_bind {β : Type} (p : Proc ans ε α) (g : α → Proc ans ε β) (s : σ) :
    (p >>= g).solo f s = match p.solo f s with
      | (.ok a, s') => (g a).solo f s'
      | (.error e, s') => (.error e, s') := by
  change (p.bind g).solo f s = _
  induction p generalizing s with
  | done r => cases r <;> rfl
  | await c k ih => exact ih (f s c).1 (f s c).2
  | choose k ih => exact ih true s

variable (f) in
/-- A run in which the program `i` has the pool to itself: each step answers it, by what `f` makes of the
command. -/
inductive Sole (i : Nat) : Pool σ J ans ε α → List (Event J ans ε) → Pool σ J ans ε α → Prop
  | nil (w : Pool σ J ans ε α) : Sole i w [] w
  | answer {w w' : Pool σ J ans ε α} {j : J} {c : κ} {k : Except ε (ans c) → Proc ans ε α}
      {es : List (Event J ans ε)} : w.task i = some (j, .await c k) →
      Sole i ⟨(f w.shared c).2, Function.update w.task i (some (j, k (f w.shared c).1))⟩ es w' →
      Sole i w (.answer i c (f w.shared c).1 :: es) w'
  | pick {w w' : Pool σ J ans ε α} {j : J} {k : Bool → Proc ans ε α} {es : List (Event J ans ε)} :
      w.task i = some (j, .choose k) → Sole i { w with task := Function.update w.task i (some (j, k true)) } es w' →
      Sole i w (.pick i true :: es) w'

theorem Sole.run (hf : ∀ s c, exec s c (f s c).1 (f s c).2) {i : Nat} {w w' : Pool σ J ans ε α}
    {es : List (Event J ans ε)} (h : Sole f i w es w') : Lts.Run (Step exec body) w es w' := by
  induction h with
  | nil w => exact .nil w
  | answer ht _ ih => exact .cons (.answer ht (hf _ _)) ih
  | pick ht _ ih => exact .cons (.pick true ht) ih

/-- A program that has the pool to itself comes to its end. -/
theorem sole_ends {p : Proc ans ε α} {w : Pool σ J ans ε α} {i : Nat} {j : J} (ht : w.task i = some (j, p)) :
    ∃ es w' r, Sole f i w es w' ∧ w'.task i = some (j, .done r) := by
  induction p generalizing w with
  | done r => exact ⟨[], w, r, .nil w, ht⟩
  | await c k ih =>
    obtain ⟨es, w', r, hs, hd⟩ := ih (f w.shared c).1 (w := ⟨(f w.shared c).2, Function.update w.task i _⟩)
      (Function.update_self ..)
    exact ⟨_, w', r, .answer ht hs, hd⟩
  | choose k ih =>
    obtain ⟨es, w', r, hs, hd⟩ := ih true (w := { w with task := Function.update w.task i _ })
      (Function.update_self ..)
    exact ⟨_, w', r, .pick ht hs, hd⟩

/-- And it is the end that `solo` gives it. -/
theorem Sole.ends {i : Nat} {w w' : Pool σ J ans ε α} {es : List (Event J ans ε)} (h : Sole f i w es w') {j : J}
    {p : Proc ans ε α} (ht : w.task i = some (j, p)) {r : Except ε α} (hd : w'.task i = some (j, .done r)) :
    p.solo f w.shared = (r, w'.shared) := by
  induction h generalizing p with
  | nil w =>
    rw [ht] at hd
    cases hd
    rfl
  | answer hk _ ih =>
    rw [hk] at ht
    cases ht
    exact ih (Function.update_self ..) hd
  | @pick _ _ _ k _ hk _ ih =>
    rw [hk] at ht
    cases ht
    exact ih (p := k true) (Function.update_self ..) hd

end

end Await
