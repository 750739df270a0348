import Mathlib.Data.List.Pairwise

/-!
# Routing by patterns

A pattern is a method and a path of segments, each a literal or a wildcard,
and may take everything below it. The most specific of the patterns that take
a target is its route; a table in which two patterns overlap and neither is
the more specific is refused.
-/

namespace Route

/-- `answers m r`: a pattern for `m` takes requests with method `r`. Of two that take one request, one takes all the
other does. -/
structure Methods (μ : Type) where
  answers : μ → μ → Bool
  refl : ∀ m, answers m m = true
  trans : ∀ a b c, answers a b = true → answers b c = true → answers a c = true
  nested : ∀ a b r, answers a r = true → answers b r = true → answers a b = true ∨ answers b a = true

inductive Seg (σ : Type)
  | lit (s : σ)
  | wild
  deriving DecidableEq, Repr

structure Pattern (μ σ : Type) where
  method : Option μ
  segs : List (Seg σ)
  /-- It ends in a slash. -/
  subtree : Bool
  deriving DecidableEq, Repr

structure Target (μ σ : Type) where
  method : μ
  segs : List σ
  slash : Bool
  deriving DecidableEq, Repr

section
variable {μ σ : Type} [DecidableEq σ] (M : Methods μ) (free : σ → Bool)

/-! ## What a pattern takes -/

/-- A wildcard takes the segments that are `free`. -/
def Seg.takes : Seg σ → σ → Bool
  | lit s, t => s = t
  | wild, t => free t

def takesPath : List (Seg σ) → Bool → List σ → Bool → Bool
  | [], subtree, [], slash => subtree == slash
  | [], subtree, _ :: _, _ => subtree
  | _ :: _, _, [], _ => false
  | p :: ps, subtree, s :: ss, slash => p.takes free s && takesPath ps subtree ss slash

def takesMethod : Option μ → μ → Bool
  | none, _ => true
  | some m, r => M.answers m r

def Pattern.takes (p : Pattern μ σ) (t : Target μ σ) : Bool :=
  takesMethod M p.method t.method && takesPath free p.segs p.subtree t.segs t.slash

/-! ## Which of two is the more specific -/

def Seg.le : Seg σ → Seg σ → Bool
  | lit s, lit t => s = t
  | lit s, wild => free s
  | wild, lit _ => false
  | wild, wild => true

def lePath : List (Seg σ) → Bool → List (Seg σ) → Bool → Bool
  | [], subtree, [], subtree' => subtree == subtree'
  | [], _, _ :: _, _ => false
  | _ :: _, _, [], subtree' => subtree'
  | p :: ps, subtree, q :: qs, subtree' => p.le free q && lePath ps subtree qs subtree'

def leMethod : Option μ → Option μ → Bool
  | _, none => true
  | none, some _ => false
  | some m, some m' => M.answers m' m

/-- Whatever `p` takes, `q` takes. -/
def Pattern.le (p q : Pattern μ σ) : Bool :=
  leMethod M p.method q.method && lePath free p.segs p.subtree q.segs q.subtree

def Seg.apart : Seg σ → Seg σ → Bool
  | lit s, lit t => s ≠ t
  | lit s, wild => !free s
  | wild, lit t => !free t
  | wild, wild => false

def apartPath : List (Seg σ) → Bool → List (Seg σ) → Bool → Bool
  | [], subtree, [], subtree' => subtree != subtree'
  | [], subtree, _ :: _, _ => !subtree
  | _ :: _, _, [], subtree' => !subtree'
  | p :: ps, subtree, q :: qs, subtree' => p.apart free q || apartPath ps subtree qs subtree'

def apartMethod : Option μ → Option μ → Bool
  | some m, some m' => !M.answers m m' && !M.answers m' m
  | _, _ => false

def Pattern.apart (p q : Pattern μ σ) : Bool :=
  apartMethod M p.method q.method || apartPath free p.segs p.subtree q.segs q.subtree

/-- They are equivalent, or overlap and neither is the more specific. -/
def Pattern.conflicts (p q : Pattern μ σ) : Bool := !p.apart M free q && (p.le M free q == q.le M free p)

end

/-! ## Soundness -/

section
variable {μ σ : Type} [DecidableEq σ] {M : Methods μ} {free : σ → Bool} {p q r : Pattern μ σ}
  {t : Target μ σ}

theorem Seg.le_takes {a b : Seg σ} {s : σ} (h : a.le free b = true) (ha : a.takes free s = true) :
    b.takes free s = true := by
  cases a with
  | lit x =>
    obtain rfl : x = s := of_decide_eq_true ha
    cases b with
    | lit y => exact decide_eq_true (of_decide_eq_true h).symm
    | wild => exact h
  | wild =>
    cases b with
    | lit y => cases h
    | wild => exact ha

theorem Seg.apart_takes {a b : Seg σ} {s : σ} (h : a.apart free b = true) (ha : a.takes free s = true)
    (hb : b.takes free s = true) : False := by
  cases a <;> cases b <;> simp_all [Seg.apart, Seg.takes]

theorem Seg.le_refl (a : Seg σ) : a.le free a = true := by
  cases a <;> simp [Seg.le]

theorem Seg.le_trans {a b c : Seg σ} (h : a.le free b = true) (h' : b.le free c = true) : a.le free c = true := by
  cases a <;> cases b <;> cases c <;> simp_all [Seg.le]

theorem takesPath_single {a : σ} {ss : List σ} {slash : Bool} :
    takesPath free [.lit a] false ss slash = true ↔ ss = [a] ∧ slash = false := by
  cases ss with
  | nil => simp [takesPath]
  | cons s ss => cases ss <;> simp [takesPath, Seg.takes, @eq_comm _ a s]

theorem takesPath_subtree {a : σ} {ss : List σ} {slash : Bool} :
    takesPath free [.lit a] true ss slash = true ↔ ss.head? = some a ∧ (slash = true ∨ 1 < ss.length) := by
  cases ss with
  | nil => simp [takesPath]
  | cons s ss => cases ss <;> simp [takesPath, Seg.takes, @eq_comm _ a s]

/-- What is not a subtree's takes paths of its own length, with no slash at the end. -/
theorem takesPath_exact {ps : List (Seg σ)} {ss : List σ} {slash : Bool}
    (h : takesPath free ps false ss slash = true) :
    ps.length = ss.length ∧ slash = false := by
  induction ps generalizing ss with
  | nil =>
    cases ss with
    | nil => exact ⟨rfl, by simpa [takesPath] using h⟩
    | cons s ss => cases h
  | cons a ps ih =>
    cases ss with
    | nil => cases h
    | cons s ss =>
      simp only [takesPath, Bool.and_eq_true] at h
      obtain ⟨hlen, hslash⟩ := ih h.2
      exact ⟨congrArg Nat.succ hlen, hslash⟩

/-- What is taken has the literals where the pattern has them. -/
theorem takesPath_lit {ps : List (Seg σ)} {sub : Bool} {ss : List σ} {slash : Bool} {n : Nat} {a : σ}
    (h : takesPath free ps sub ss slash = true) (hp : ps[n]? = some (.lit a)) : ss[n]? = some a := by
  induction ps generalizing n ss with
  | nil => cases hp
  | cons p ps ih =>
    cases ss with
    | nil => cases h
    | cons s ss =>
      simp only [takesPath, Bool.and_eq_true] at h
      cases n with
      | zero =>
        cases hp
        exact congrArg some (of_decide_eq_true h.1).symm
      | succ n =>
        show ss[n]? = some a
        exact ih h.2 hp

theorem lePath_takes {ps qs : List (Seg σ)} {sub sub' : Bool} (h : lePath free ps sub qs sub' = true) {ss : List σ}
    {slash : Bool} (hp : takesPath free ps sub ss slash = true) : takesPath free qs sub' ss slash = true := by
  induction ps generalizing qs ss with
  | nil =>
    cases qs with
    | nil =>
      obtain rfl : sub = sub' := by simpa [lePath] using h
      exact hp
    | cons q qs => cases h
  | cons a ps ih =>
    cases ss with
    | nil => cases hp
    | cons s ss =>
      cases qs with
      | nil => exact h
      | cons b qs =>
        simp only [lePath, takesPath, Bool.and_eq_true] at h hp ⊢
        exact ⟨Seg.le_takes h.1 hp.1, ih h.2 hp.2⟩

theorem apartPath_takes {ps qs : List (Seg σ)} {sub sub' : Bool} (h : apartPath free ps sub qs sub' = true)
    {ss : List σ} {slash : Bool} (hp : takesPath free ps sub ss slash = true)
    (hq : takesPath free qs sub' ss slash = true) : False := by
  induction ps generalizing qs ss with
  | nil =>
    cases qs with
    | nil => cases ss <;> simp_all [apartPath, takesPath]
    | cons b qs =>
      cases ss with
      | nil => cases hq
      | cons s ss => simp_all [apartPath, takesPath]
  | cons a ps ih =>
    cases ss with
    | nil => cases hp
    | cons s ss =>
      cases qs with
      | nil => simp_all [apartPath, takesPath]
      | cons b qs =>
        simp only [apartPath, takesPath, Bool.or_eq_true, Bool.and_eq_true] at h hp hq
        rcases h with h | h
        · exact Seg.apart_takes h hp.1 hq.1
        · exact ih h hp.2 hq.2

theorem lePath_trans {ps qs rs : List (Seg σ)} {a b c : Bool} (h : lePath free ps a qs b = true)
    (h' : lePath free qs b rs c = true) : lePath free ps a rs c = true := by
  induction ps generalizing qs rs with
  | nil =>
    cases qs with
    | nil => cases rs <;> simp_all [lePath]
    | cons q qs => cases h
  | cons x ps ih =>
    cases rs with
    | nil => cases qs <;> simp_all [lePath]
    | cons z rs =>
      cases qs with
      | nil => cases h'
      | cons y qs =>
        simp only [lePath, Bool.and_eq_true] at h h' ⊢
        exact ⟨Seg.le_trans h.1 h'.1, ih h.2 h'.2⟩

theorem lePath_refl (ps : List (Seg σ)) (sub : Bool) : lePath free ps sub ps sub = true := by
  induction ps with
  | nil => simp [lePath]
  | cons a ps ih => simp [lePath, Seg.le_refl, ih]

theorem Pattern.le_refl (p : Pattern μ σ) : p.le M free p = true := by
  unfold Pattern.le
  rw [lePath_refl, Bool.and_true]
  cases p.method with
  | none => rfl
  | some m => exact M.refl m

theorem Pattern.le_takes (h : p.le M free q = true) (hp : p.takes M free t = true) : q.takes M free t = true := by
  unfold Pattern.le at h
  unfold Pattern.takes at hp ⊢
  rw [Bool.and_eq_true] at h hp ⊢
  refine ⟨?_, lePath_takes h.2 hp.2⟩
  cases hq : q.method with
  | none => rfl
  | some m' =>
    cases hm : p.method with
    | none => simp [leMethod, hq, hm] at h
    | some m =>
      simp only [leMethod, takesMethod, hq, hm] at h hp ⊢
      exact M.trans _ _ _ h.1 hp.1

theorem Pattern.le_trans (h : p.le M free q = true) (h' : q.le M free r = true) : p.le M free r = true := by
  unfold Pattern.le at h h' ⊢
  rw [Bool.and_eq_true] at h h' ⊢
  refine ⟨?_, lePath_trans h.2 h'.2⟩
  cases hr : r.method with
  | none => cases p.method <;> rfl
  | some c =>
    cases hq : q.method with
    | none => simp [leMethod, hq, hr] at h'
    | some b =>
      cases hp : p.method with
      | none => simp [leMethod, hp, hq] at h
      | some a =>
        simp only [leMethod, hp, hq, hr] at h h' ⊢
        exact M.trans _ _ _ h'.1 h.1

theorem Pattern.apart_takes (h : p.apart M free q = true) (hp : p.takes M free t = true)
    (hq : q.takes M free t = true) : False := by
  unfold Pattern.apart at h
  unfold Pattern.takes at hp hq
  rw [Bool.or_eq_true] at h
  rw [Bool.and_eq_true] at hp hq
  rcases h with h | h
  · cases hm : p.method with
    | none => simp [apartMethod, hm] at h
    | some a =>
      cases hm' : q.method with
      | none => simp [apartMethod, hm'] at h
      | some b =>
        simp only [apartMethod, takesMethod, hm, hm', Bool.and_eq_true, Bool.not_eq_true'] at h hp hq
        rcases M.nested _ _ _ hp.1 hq.1 with hn | hn
        · rw [h.1] at hn
          cases hn
        · rw [h.2] at hn
          cases hn
  · exact apartPath_takes h hp.2 hq.2

theorem Seg.apart_comm (a b : Seg σ) : a.apart free b = b.apart free a := by
  cases a <;> cases b <;> simp [Seg.apart, eq_comm]

theorem apartPath_comm (ps qs : List (Seg σ)) (sub sub' : Bool) :
    apartPath free ps sub qs sub' = apartPath free qs sub' ps sub := by
  induction ps generalizing qs with
  | nil =>
    cases qs with
    | nil => exact bne_comm
    | cons b qs => rfl
  | cons a ps ih =>
    cases qs with
    | nil => rfl
    | cons b qs => simp only [apartPath, ih, Seg.apart_comm a b]

theorem Pattern.apart_comm (p q : Pattern μ σ) : p.apart M free q = q.apart M free p := by
  unfold Pattern.apart
  rw [apartPath_comm]
  congr 1
  cases p.method with
  | none => cases q.method <;> rfl
  | some a =>
    cases q.method with
    | none => rfl
    | some b => exact Bool.and_comm _ _

theorem Pattern.conflicts_comm (p q : Pattern μ σ) : p.conflicts M free q = q.conflicts M free p := by
  unfold Pattern.conflicts
  rw [Pattern.apart_comm, Bool.beq_comm]

/-- Of two patterns that take a target and do not conflict, exactly one is the more specific. -/
theorem Pattern.compared (h : p.conflicts M free q = false) (hp : p.takes M free t = true)
    (hq : q.takes M free t = true) :
    (p.le M free q = true ∧ q.le M free p = false) ∨ q.le M free p = true ∧ p.le M free q = false := by
  unfold Pattern.conflicts at h
  rw [Bool.and_eq_false_iff, Bool.not_eq_false'] at h
  rcases h with h | h
  · exact (Pattern.apart_takes h hp hq).elim
  · cases hpq : p.le M free q <;> cases hqp : q.le M free p <;> simp_all

end

/-! ## Tables -/

/-- The routes that were registered; none of them conflicts with another. -/
structure Mux {μ σ : Type} [DecidableEq σ] (M : Methods μ) (free : σ → Bool) (α : Type) where
  routes : List (Pattern μ σ × α)
  clear : routes.Pairwise fun r r' => r.1.conflicts M free r'.1 = false

namespace Mux

variable {μ σ α : Type} [DecidableEq σ] {M : Methods μ} {free : σ → Bool}

/-- A conflict is a panic. -/
def register (routes : List (Pattern μ σ × α)) : Option (Mux M free α) :=
  if h : routes.Pairwise fun r r' => r.1.conflicts M free r'.1 = false then some ⟨routes, h⟩ else none

theorem register_routes {routes : List (Pattern μ σ × α)} {m : Mux M free α} (h : register routes = some m) :
    m.routes = routes := by
  unfold register at h
  split at h
  · cases h
    rfl
  · cases h

def found (m : Mux M free α) (t : Target μ σ) :
    List (Pattern μ σ × α) := m.routes.filter fun r => r.1.takes M free t

/-- Of the routes that take the target, the one more specific than the others. -/
def route (m : Mux M free α) (t : Target μ σ) : Option (Pattern μ σ × α) :=
  (m.found t).find? fun r => (m.found t).all fun r' => r.1.le M free r'.1

variable {m : Mux M free α} {t : Target μ σ} {r r' : Pattern μ σ × α}

theorem mem_found : r ∈ m.found t ↔ r ∈ m.routes ∧ r.1.takes M free t = true := List.mem_filter

theorem clear_of_ne (hr : r ∈ m.routes) (hr' : r' ∈ m.routes) (hne : r ≠ r') :
    r.1.conflicts M free r'.1 = false := by
  have hsymm : Std.Symm fun a b : Pattern μ σ × α => a.1.conflicts M free b.1 = false :=
    ⟨fun a b h => by rwa [Pattern.conflicts_comm]⟩
  exact m.clear.forall hr hr' hne

/-- Two that take one target can be compared. -/
theorem found_total (hr : r ∈ m.found t) (hr' : r' ∈ m.found t) :
    r.1.le M free r'.1 = true ∨ r'.1.le M free r.1 = true := by
  by_cases hne : r = r'
  · subst hne
    exact .inl (Pattern.le_refl r.1)
  · obtain ⟨hm, ht⟩ := mem_found.mp hr
    obtain ⟨hm', ht'⟩ := mem_found.mp hr'
    rcases Pattern.compared (clear_of_ne hm hm' hne) ht ht' with ⟨h, -⟩ | ⟨h, -⟩
    · exact .inl h
    · exact .inr h

theorem least_unique (hr : r ∈ m.found t) (hr' : r' ∈ m.found t) (h : r.1.le M free r'.1 = true)
    (h' : r'.1.le M free r.1 = true) : r = r' := by
  by_contra hne
  obtain ⟨hm, ht⟩ := mem_found.mp hr
  obtain ⟨hm', ht'⟩ := mem_found.mp hr'
  rcases Pattern.compared (clear_of_ne hm hm' hne) ht ht' with ⟨-, hn⟩ | ⟨-, hn⟩
  · rw [h'] at hn
    cases hn
  · rw [h] at hn
    cases hn

theorem exists_least {l : List (Pattern μ σ × α)} (hne : l ≠ [])
    (ht : ∀ r ∈ l, ∀ r' ∈ l, r.1.le M free r'.1 = true ∨ r'.1.le M free r.1 = true) :
    ∃ r ∈ l, ∀ r' ∈ l, r.1.le M free r'.1 = true := by
  induction l with
  | nil => exact absurd rfl hne
  | cons a l ih =>
    by_cases hl : l = []
    · subst hl
      refine ⟨a, List.mem_cons_self, ?_⟩
      intro r' hr'
      rw [List.mem_singleton.mp hr']
      exact Pattern.le_refl a.1
    · obtain ⟨b, hb, hleast⟩ := ih hl fun r hr r' hr' =>
        ht r (List.mem_cons_of_mem a hr) r' (List.mem_cons_of_mem a hr')
      rcases ht a List.mem_cons_self b (List.mem_cons_of_mem a hb) with hab | hba
      · refine ⟨a, List.mem_cons_self, ?_⟩
        intro r' hr'
        rcases List.mem_cons.mp hr' with rfl | hr'
        · exact Pattern.le_refl r'.1
        · exact Pattern.le_trans hab (hleast r' hr')
      · refine ⟨b, List.mem_cons_of_mem a hb, ?_⟩
        intro r' hr'
        rcases List.mem_cons.mp hr' with rfl | hr'
        · exact hba
        · exact hleast r' hr'

/-- The route of a target is the one that takes it and takes nothing that another taking it does not. -/
theorem route_eq_some : m.route t = some r ↔ r ∈ m.routes ∧ r.1.takes M free t = true ∧
    ∀ r' ∈ m.routes, r'.1.takes M free t = true → r.1.le M free r'.1 = true := by
  constructor
  · intro h
    obtain ⟨hm, ht⟩ := mem_found.mp (List.mem_of_find?_eq_some h)
    have hall := List.find?_some h
    rw [List.all_eq_true] at hall
    exact ⟨hm, ht, fun r' hr' ht' => hall r' (mem_found.mpr ⟨hr', ht'⟩)⟩
  · rintro ⟨hm, ht, hleast⟩
    have hfound := mem_found.mpr ⟨hm, ht⟩
    have hall : ((m.found t).all fun r' => r.1.le M free r'.1) = true := by
      rw [List.all_eq_true]
      intro r' hr'
      obtain ⟨hm', ht'⟩ := mem_found.mp hr'
      exact hleast r' hm' ht'
    cases hf : m.route t with
    | none => exact absurd hall (List.find?_eq_none.mp hf r hfound)
    | some r' =>
      have hall' := List.find?_some hf
      rw [List.all_eq_true] at hall'
      rw [least_unique hfound (List.mem_of_find?_eq_some hf)
        (List.all_eq_true.mp hall r' (List.mem_of_find?_eq_some hf))
        (hall' r hfound)]

/-- A target that some route takes has a route. -/
theorem route_isSome (hr : r ∈ m.routes) (ht : r.1.takes M free t = true) : (m.route t).isSome = true := by
  obtain ⟨b, hb, hleast⟩ := exists_least (l := m.found t) (List.ne_nil_of_mem (mem_found.mpr ⟨hr, ht⟩))
    fun r hr r' hr' => found_total hr hr'
  obtain ⟨hmem, htakes⟩ := mem_found.mp hb
  have h := route_eq_some.mpr ⟨hmem, htakes, fun r' hr' ht' => hleast r' (mem_found.mpr ⟨hr', ht'⟩)⟩
  rw [h]
  rfl

end Mux

end Route
