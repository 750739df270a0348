import Mathlib.Order.Basic
import Mathlib.Data.Int.Order.Basic

/-!
# Change feeds

A view gives each key at most one stamped value and has a clock no stamp is
past. A reader sends the clock of the last answer as its cursor, is sent
what is stamped later, and merges it over what it holds. `Tracks` is the
invariant of a reader: what it holds is what the view shows, except for the
keys the next answer will carry.
-/

namespace Feed

structure View (ι V : Type) where
  entry : ι → Option (Int × V)
  clock : Int

structure Answer (ι V : Type) where
  /-- `none` for an answer that starts over. -/
  since : Option Int
  clock : Int
  rows : ι → Option V

structure Reader (ι V : Type) where
  cursor : Int
  held : ι → Option V

section
variable {ι V : Type}

def View.Bounded (A : View ι V) : Prop := ∀ i s v, A.entry i = some (s, v) → s ≤ A.clock

def View.answer (A : View ι V) (since : Option Int) : Answer ι V where
  since := since
  clock := A.clock
  rows i := (A.entry i).bind fun e => if since.all (· < e.1) then some e.2 else none

/-! ## Views over time -/

/-- What `B` shows with a stamp up to the clock of `A` was there in `A`. -/
structure Later (A B : View ι V) : Prop where
  clock : A.clock ≤ B.clock
  old : ∀ i s v, B.entry i = some (s, v) → s ≤ A.clock → A.entry i = some (s, v)

theorem Later.refl (A : View ι V) : Later A A := ⟨le_refl _, fun _ _ _ h _ => h⟩

theorem Later.trans {A B C : View ι V} (h : Later A B) (h' : Later B C) : Later A C where
  clock := h.clock.trans h'.clock
  old i s v hc hs := h.old i s v (h'.old i s v hc (hs.trans h.clock)) hs

theorem Later.new {A B : View ι V} (h : Later A B) {i : ι} {s : Int} {v : V} (hb : B.entry i = some (s, v))
    (hn : A.entry i ≠ some (s, v)) : A.clock < s := by
  by_contra hs
  exact hn (h.old i s v hb (not_lt.mp hs))

def View.map {W : Type} (A : View ι V) (f : V → W) : View ι W where
  entry i := (A.entry i).map fun e => (e.1, f e.2)
  clock := A.clock

theorem map_entry {W : Type} {A : View ι V} {f : V → W} {i : ι} {s : Int} {w : W} :
    (A.map f).entry i = some (s, w) ↔ ∃ v, A.entry i = some (s, v) ∧ f v = w := by
  unfold View.map
  rw [Option.map_eq_some_iff]
  constructor
  · rintro ⟨⟨s', v⟩, he, h⟩
    cases h
    exact ⟨v, he, rfl⟩
  · rintro ⟨v, he, rfl⟩
    exact ⟨(s, v), he, rfl⟩

theorem Later.map {W : Type} {A B : View ι V} (h : Later A B) (f : V → W) : Later (A.map f) (B.map f) where
  clock := h.clock
  old i s w hb hs := by
    obtain ⟨v, hv, rfl⟩ := map_entry.mp hb
    exact map_entry.mpr ⟨v, h.old i s v hv hs, rfl⟩

theorem View.Bounded.map {W : Type} {A : View ι V} (h : A.Bounded) (f : V → W) : (A.map f).Bounded := by
  intro i s w he
  obtain ⟨v, hv, -⟩ := map_entry.mp he
  exact h i s v hv

/-! ## Readers -/

variable (gone : V → Bool)

def keep (v : V) : Option V := if gone v then none else some v

def View.live (A : View ι V) (i : ι) : Option V := (A.entry i).bind fun e => keep gone e.2

def Reader.apply (r : Reader ι V) (a : Answer ι V) : Reader ι V where
  cursor := a.clock
  held i := match a.rows i with
    | some v => keep gone v
    | none => if a.since.isNone then none else r.held i

/-- The next answer above cursor `c` carries this key. -/
def View.Due (A : View ι V) (c : Int) (i : ι) : Prop := ∃ s v, A.entry i = some (s, v) ∧ c < s

structure Tracks (A : View ι V) (r : Reader ι V) : Prop where
  cursor : r.cursor ≤ A.clock
  held : ∀ i, A.Due r.cursor i ∨ r.held i = A.live gone i

/-- What an answer on its way is still worth. -/
structure Sound (A : View ι V) (a : Answer ι V) : Prop where
  clock : a.clock ≤ A.clock
  rows : ∀ i, A.Due a.clock i ∨ match a.rows i with
    | some v => keep gone v = A.live gone i
    | none => ∀ s v, A.entry i = some (s, v) → ∃ c, a.since = some c ∧ s ≤ c

def Retains (A B : View ι V) (P : ι → Prop) : Prop :=
  ∀ i, P i → (A.entry i).isSome = true → (B.entry i).isSome = true

variable {gone}

theorem live_eq {A B : View ι V} {i : ι} (h : A.entry i = B.entry i) : A.live gone i = B.live gone i := by
  unfold View.live
  rw [h]

theorem live_eq_some {A : View ι V} {i : ι} {v : V} :
    A.live gone i = some v ↔ ∃ s, A.entry i = some (s, v) ∧ gone v = false := by
  unfold View.live keep
  rw [Option.bind_eq_some_iff]
  constructor
  · rintro ⟨⟨s, w⟩, he, h⟩
    split at h
    · cases h
    · rename_i hg
      cases h
      exact ⟨s, he, by simpa using hg⟩
  · rintro ⟨s, he, hg⟩
    exact ⟨(s, v), he, by simp [hg]⟩

theorem live_none {A : View ι V} {i : ι} (h : A.entry i = none) : A.live gone i = none := by
  unfold View.live
  rw [h]
  rfl

theorem answer_none {A : View ι V} {since : Option Int} {i : ι} (h : A.entry i = none) :
    (A.answer since).rows i = none := by
  simp [View.answer, h]

theorem answer_some {A : View ι V} {since : Option Int} {i : ι} {s : Int} {v : V} (h : A.entry i = some (s, v)) :
    (A.answer since).rows i = if since.all (· < s) then some v else none := by
  simp [View.answer, h]

theorem held_apply_some {r : Reader ι V} {a : Answer ι V} {i : ι} {v : V} (h : a.rows i = some v) :
    (r.apply gone a).held i = keep gone v := by
  simp [Reader.apply, h]

theorem held_apply_none {r : Reader ι V} {a : Answer ι V} {i : ι} (h : a.rows i = none) :
    (r.apply gone a).held i = if a.since.isNone then none else r.held i := by
  simp [Reader.apply, h]

theorem sound_answer (A : View ι V) (since : Option Int) : Sound gone A (A.answer since) where
  clock := le_refl _
  rows i := by
    right
    unfold View.live
    cases he : A.entry i with
    | none => simp [answer_none he]
    | some e =>
      obtain ⟨s, v⟩ := e
      rw [answer_some he]
      cases since with
      | none => simp [keep]
      | some c =>
        by_cases hs : c < s
        · simp [hs]
        · simp [hs, View.answer, not_lt.mp hs]

theorem later_cases {A B : View ι V} (h : Later A B) (c : Int) (hc : c ≤ A.clock) (i : ι) :
    B.Due c i ∨ (B.entry i = A.entry i ∧ ¬ A.Due c i) ∨ (B.entry i = none ∧ (A.entry i).isSome = true) := by
  cases hb : B.entry i with
  | none =>
    cases ha : A.entry i with
    | none =>
      refine Or.inr (Or.inl ⟨rfl, ?_⟩)
      rintro ⟨s, v, hs, -⟩
      rw [ha] at hs
      cases hs
    | some e => exact Or.inr (Or.inr ⟨rfl, rfl⟩)
  | some e =>
    obtain ⟨s, v⟩ := e
    by_cases hs : c < s
    · exact Or.inl ⟨s, v, hb, hs⟩
    · have ha := h.old i s v hb ((not_lt.mp hs).trans hc)
      refine Or.inr (Or.inl ⟨ha.symm, ?_⟩)
      rintro ⟨s', v', hs', hlt⟩
      rw [ha] at hs'
      cases hs'
      exact hs hlt

theorem tracks_later {A B : View ι V} {r : Reader ι V} (h : Later A B) (ht : Tracks gone A r)
    (hr : Retains A B fun i => (r.held i).isSome = true) : Tracks gone B r where
  cursor := ht.cursor.trans h.clock
  held i := by
    rcases later_cases h r.cursor ht.cursor i with hd | ⟨he, hn⟩ | ⟨he, ha⟩
    · exact Or.inl hd
    · right
      rw [live_eq he]
      exact (ht.held i).resolve_left hn
    · right
      rw [live_none he]
      cases hh : r.held i with
      | none => rfl
      | some v =>
        have := hr i (Option.isSome_iff_exists.mpr ⟨v, hh⟩) ha
        rw [he] at this
        cases this

theorem sound_later {A B : View ι V} {a : Answer ι V} (h : Later A B) (hs : Sound gone A a)
    (hr : Retains A B fun i => ∃ v, a.rows i = some v ∧ gone v = false) : Sound gone B a where
  clock := hs.clock.trans h.clock
  rows i := by
    rcases later_cases h a.clock hs.clock i with hd | ⟨he, hn⟩ | ⟨he, ha⟩
    · exact Or.inl hd
    · right
      have := (hs.rows i).resolve_left hn
      cases hv : a.rows i with
      | none =>
        rw [hv] at this
        intro s v hb
        exact this s v (he ▸ hb)
      | some v =>
        rw [hv] at this
        exact this.trans (live_eq he).symm
    · right
      cases hv : a.rows i with
      | none =>
        intro s v hb
        rw [he] at hb
        cases hb
      | some v =>
        change keep gone v = B.live gone i
        rw [live_none he]
        unfold keep
        by_cases hg : gone v = true
        · rw [if_pos hg]
        · have := hr i ⟨v, hv, by simpa using hg⟩ ha
          rw [he] at this
          cases this

/-- A sound answer keeps a reader on track when it does not leave a gap below
itself: it starts over, or the reader is at its cursor or past it. -/
theorem tracks_apply {A : View ι V} {r : Reader ι V} {a : Answer ι V} (ht : Tracks gone A r) (hs : Sound gone A a)
    (hc : ∀ c, a.since = some c → c ≤ r.cursor) : Tracks gone A (r.apply gone a) where
  cursor := hs.clock
  held i := by
    rcases hs.rows i with hd | h
    · exact Or.inl hd
    · right
      cases hv : a.rows i with
      | some v =>
        rw [hv] at h
        exact (held_apply_some hv).trans h
      | none =>
        rw [hv] at h
        rw [held_apply_none hv]
        cases he : A.entry i with
        | none =>
          rw [live_none he]
          split
          · rfl
          · rcases ht.held i with ⟨s, v, hd, -⟩ | hh
            · rw [he] at hd
              cases hd
            · rw [hh, live_none he]
        | some e =>
          obtain ⟨s, v⟩ := e
          obtain ⟨c, hsince, hle⟩ := h s v he
          rw [hsince, if_neg (by simp)]
          rcases ht.held i with ⟨s', v', hd, hlt⟩ | hh
          · rw [he] at hd
            cases hd
            exact absurd (hle.trans (hc c hsince)) (not_le.mpr hlt)
          · exact hh

theorem converged {A : View ι V} {r : Reader ι V} (hb : A.Bounded) (ht : Tracks gone A r) (hc : r.cursor = A.clock)
    (i : ι) : r.held i = A.live gone i := by
  rcases ht.held i with ⟨s, v, he, hs⟩ | h
  · exact absurd (hb i s v he) (not_le.mpr (hc ▸ hs))
  · exact h

end

end Feed
