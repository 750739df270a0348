import Mathlib.Data.List.Basic

/-!
# Comma-separated values

The grammar of a lenient RFC 4180 over any alphabet, and the texts it derives.
A record is ended by any of three terminators, a quote inside a bare cell is
data, blank lines are skipped, and rows may have any number of cells.
-/

namespace Csv

structure Marks (α : Type) where
  quote : α
  comma : α
  cr : α
  lf : α
  bom : α
  distinct : [quote, comma, cr, lf, bom].Nodup

variable {α : Type} (m : Marks α)

/-- The inside of a quoted cell and what it means. -/
inductive Escaped : List α → List α → Prop
  | nil : Escaped [] []
  | char {c : α} {s v : List α} (hc : c ≠ m.quote) (h : Escaped s v) : Escaped (c :: s) (c :: v)
  | quote {s v : List α} (h : Escaped s v) : Escaped (m.quote :: m.quote :: s) (m.quote :: v)

def Marks.Free (s : List α) : Prop := ∀ c ∈ s, c ≠ m.comma ∧ c ≠ m.cr ∧ c ≠ m.lf

inductive Cell : List α → List α → Prop
  | bare {s : List α} (hq : s.head? ≠ some m.quote) (hf : m.Free s) : Cell s s
  | quoted {s v : List α} (h : Escaped m s v) : Cell (m.quote :: (s ++ [m.quote])) v

inductive Row : List α → List (List α) → Prop
  | last {s v : List α} (h : Cell m s v) : Row s [v]
  | more {s v s' : List α} {vs : List (List α)} (h : Cell m s v) (h' : Row s' vs) :
    Row (s ++ m.comma :: s') (v :: vs)

inductive Terminator : List α → Prop
  | crlf : Terminator [m.cr, m.lf]
  | lf : Terminator [m.lf]
  | cr : Terminator [m.cr]

/-- A line of the file: nothing, or a row. A line of `""` is a row. -/
inductive Line : List α → List (List (List α)) → Prop
  | blank : Line [] []
  | row {s : List α} {vs : List (List α)} (h : Row m s vs) (hs : s ≠ []) : Line s [vs]

inductive Body : List α → List (List (List α)) → Prop
  | last {s : List α} {rows : List (List (List α))} (h : Line m s rows) : Body s rows
  | line {s t s' : List α} {rows rows' : List (List (List α))} (h : Line m s rows) (ht : Terminator m t)
      (h' : Body s' rows') : Body (s ++ t ++ s') (rows ++ rows')

/-- A mark at the head of the text is not part of the first cell. -/
inductive Derives : List α → List (List (List α)) → Prop
  | marked {s : List α} {rows : List (List (List α))} (h : Body m s rows) : Derives (m.bom :: s) rows
  | unmarked {s : List α} {rows : List (List (List α))} (hb : s.head? ≠ some m.bom) (h : Body m s rows) :
      Derives s rows

/-! ## Where a cell ends -/

def Marks.Ends (t : List α) : Prop := ∀ c ∈ t.head?, c = m.comma ∨ c = m.cr ∨ c = m.lf

def Marks.EndsRow (t : List α) : Prop := ∀ c ∈ t.head?, c = m.cr ∨ c = m.lf

variable {m}

theorem Marks.EndsRow.ends {t : List α} (h : m.EndsRow t) : m.Ends t := fun c hc => Or.inr (h c hc)

theorem Marks.ends_nil : m.Ends [] := by
  intro c hc
  cases hc

theorem Marks.endsRow_nil : m.EndsRow [] := by
  intro c hc
  cases hc

theorem Marks.ends_comma (t : List α) : m.Ends (m.comma :: t) := by
  intro c hc
  cases hc
  exact Or.inl rfl

theorem Terminator.endsRow {t : List α} (h : Terminator m t) (s : List α) : m.EndsRow (t ++ s) := by
  intro c hc
  cases h <;> cases hc
  · exact Or.inl rfl
  · exact Or.inr rfl
  · exact Or.inl rfl

/-- The marks are different characters. -/
theorem Marks.ne :
    m.quote ∉ [m.comma, m.cr, m.lf, m.bom] ∧ m.comma ∉ [m.cr, m.lf, m.bom] ∧ m.cr ∉ [m.lf, m.bom] := by
  obtain ⟨hquote, h⟩ := List.nodup_cons.mp m.distinct
  obtain ⟨hcomma, h⟩ := List.nodup_cons.mp h
  exact ⟨hquote, hcomma, (List.nodup_cons.mp h).1⟩

theorem Cell.head {s v : List α} (h : Cell m s v) : s.head? ≠ some m.lf := by
  cases h with
  | bare hq hf =>
    intro hhead
    obtain ⟨s', rfl⟩ := List.head?_eq_some_iff.mp hhead
    exact (hf m.lf (by simp)).2.2 rfl
  | quoted h => simpa using fun h => m.ne.1 (by simp [h])

theorem Row.head {s : List α} {vs : List (List α)} (h : Row m s vs) : s.head? ≠ some m.lf := by
  cases h with
  | last h => exact h.head
  | @more s v s' vs h h' =>
    cases s with
    | nil => simpa using fun h => m.ne.2.1 (by simp [h])
    | cons c s => exact h.head

theorem Body.of_lf {s : List α} {rows : List (List (List α))} (h : Body m (m.lf :: s) rows) : Body m s rows := by
  generalize ht : m.lf :: s = t at h
  cases h with
  | last h =>
    cases h with
    | blank => cases ht
    | row h hs =>
      subst ht
      exact absurd rfl h.head
  | @line s₁ t₁ s₂ rows₁ rows₂ h ht' h' =>
    cases h with
    | blank =>
      cases ht' with
      | crlf => exact absurd (List.cons.inj ht).1 fun h => m.ne.2.2 (by simp [h])
      | lf =>
        cases ht
        exact h'
      | cr => exact absurd (List.cons.inj ht).1 fun h => m.ne.2.2 (by simp [h])
    | row h hs =>
      cases s₁ with
      | nil => exact absurd rfl hs
      | cons c s₁ =>
        have hc : m.lf = c := (List.cons.inj ht).1
        exact absurd (congrArg some hc.symm) h.head

/-! ## What stands at the head of any text -/

section
variable [DecidableEq α]

theorem free_split (m : Marks α) (t : List α) : ∃ s t', t = s ++ t' ∧ m.Free s ∧ m.Ends t' := by
  induction t with
  | nil =>
    refine ⟨[], [], rfl, ?_, Marks.ends_nil⟩
    intro c hc
    cases hc
  | cons c t ih =>
    by_cases hc : c = m.comma ∨ c = m.cr ∨ c = m.lf
    · refine ⟨[], c :: t, rfl, ?_, ?_⟩
      · intro d hd
        cases hd
      · intro d hd
        cases hd
        exact hc
    · obtain ⟨s, t', rfl, hs, ht⟩ := ih
      refine ⟨c :: s, t', rfl, ?_, ht⟩
      intro d hd
      cases List.mem_cons.mp hd with
      | inl h => subst h; tauto
      | inr h => exact hs d h

/-- Up to the quote that closes, or to the end of the text. -/
theorem escaped_split (m : Marks α) : ∀ t : List α,
    (∃ s v t', t = s ++ m.quote :: t' ∧ Escaped m s v ∧ t'.head? ≠ some m.quote) ∨ ∃ v, Escaped m t v
  | [] => Or.inr ⟨[], .nil⟩
  | c :: t => by
    by_cases hc : c = m.quote
    · subst hc
      cases t with
      | nil => exact Or.inl ⟨[], [], [], rfl, .nil, by simp⟩
      | cons d t =>
        by_cases hd : d = m.quote
        · subst hd
          cases escaped_split m t with
          | inl h =>
            obtain ⟨s, v, t', rfl, hs, ht⟩ := h
            exact Or.inl ⟨m.quote :: m.quote :: s, m.quote :: v, t', rfl, .quote hs, ht⟩
          | inr h =>
            obtain ⟨v, hv⟩ := h
            exact Or.inr ⟨m.quote :: v, .quote hv⟩
        · exact Or.inl ⟨[], [], d :: t, rfl, .nil, by simpa using hd⟩
    · cases escaped_split m t with
      | inl h =>
        obtain ⟨s, v, t', rfl, hs, ht⟩ := h
        exact Or.inl ⟨c :: s, c :: v, t', rfl, .char hc hs, ht⟩
      | inr h =>
        obtain ⟨v, hv⟩ := h
        exact Or.inr ⟨c :: v, .char hc hv⟩

/-- A cell, or a quoted one that is closed too early, or one that is never closed. -/
theorem cell_split (m : Marks α) (t : List α) :
    (∃ s v t', t = s ++ t' ∧ Cell m s v ∧ m.Ends t') ∨
    (∃ s v t', t = m.quote :: (s ++ m.quote :: t') ∧ Escaped m s v ∧ t'.head? ≠ some m.quote ∧
      ¬ m.Ends t') ∨
    ∃ s v, t = m.quote :: s ∧ Escaped m s v := by
  by_cases hq : t.head? = some m.quote
  · obtain ⟨t, rfl⟩ := List.head?_eq_some_iff.mp hq
    cases escaped_split m t with
    | inl h =>
      obtain ⟨s, v, t', rfl, hs, ht⟩ := h
      by_cases hends : m.Ends t'
      · exact Or.inl ⟨m.quote :: (s ++ [m.quote]), v, t', by simp, .quoted hs, hends⟩
      · exact Or.inr (Or.inl ⟨s, v, t', rfl, hs, ht, hends⟩)
    | inr h =>
      obtain ⟨v, hv⟩ := h
      exact Or.inr (Or.inr ⟨t, v, rfl, hv⟩)
  · obtain ⟨s, t', rfl, hs, ht⟩ := free_split m t
    refine Or.inl ⟨s, s, t', rfl, .bare ?_ hs, ht⟩
    cases s with
    | nil => simp
    | cons c s => exact hq

end

/-! ## Writing -/

inductive Ending
  | crlf
  | lf
  | cr
  deriving DecidableEq, Repr

def Ending.text (m : Marks α) : Ending → List α
  | crlf => [m.cr, m.lf]
  | lf => [m.lf]
  | cr => [m.cr]

structure Written (α : Type) where
  value : List α
  quoted : Bool

structure WrittenRow (α : Type) where
  first : Written α
  others : List (Written α)
  ending : Ending

def WrittenRow.values (r : WrittenRow α) : List (List α) := r.first.value :: r.others.map (·.value)

section
variable [DecidableEq α]

def escape (m : Marks α) (v : List α) : List α := v.flatMap fun c => if c = m.quote then [m.quote, m.quote] else [c]

def Written.text (m : Marks α) (w : Written α) : List α :=
  if w.quoted then m.quote :: (escape m w.value ++ [m.quote]) else w.value

def WrittenRow.text (m : Marks α) (r : WrittenRow α) : List α :=
  r.first.text m ++ r.others.flatMap fun w => m.comma :: w.text m

/-- The last row is terminated or not. -/
def writeRows (m : Marks α) (final : Bool) : List (WrittenRow α) → List α
  | [] => []
  | [r] => r.text m ++ if final then r.ending.text m else []
  | r :: rs => r.text m ++ r.ending.text m ++ writeRows m final rs

def write (m : Marks α) (bom final : Bool) (rows : List (WrittenRow α)) : List α :=
  (if bom then [m.bom] else []) ++ writeRows m final rows

end

/-- A bare cell holds no comma and no terminator and starts with no quote. -/
def Written.Admissible (m : Marks α) (w : Written α) : Prop :=
  w.quoted = false → w.value.head? ≠ some m.quote ∧ m.Free w.value

/-- A row that is one empty cell is written in quotes: it would be a blank line. -/
structure WrittenRow.Admissible (m : Marks α) (r : WrittenRow α) : Prop where
  cells : ∀ w ∈ r.first :: r.others, w.Admissible m
  nonblank : r.others = [] → r.first.value = [] → r.first.quoted = true

structure Admissible (m : Marks α) (bom : Bool) (rows : List (WrittenRow α)) : Prop where
  each : ∀ r ∈ rows, r.Admissible m
  unmarked : bom = false → ∀ r ∈ rows.head?, r.first.value.head? = some m.bom → r.first.quoted = true

section
variable [DecidableEq α]

theorem escape_escaped (m : Marks α) (v : List α) : Escaped m (escape m v) v := by
  induction v with
  | nil => exact .nil
  | cons c v ih =>
    by_cases hc : c = m.quote
    · subst hc
      simpa [escape] using Escaped.quote ih
    · simpa [escape, hc] using Escaped.char hc ih

theorem Written.Admissible.cell {w : Written α} (h : w.Admissible m) : Cell m (w.text m) w.value := by
  unfold Written.text
  cases hq : w.quoted with
  | true => exact .quoted (escape_escaped m w.value)
  | false => exact .bare (h hq).1 (h hq).2

theorem WrittenRow.Admissible.row {r : WrittenRow α} (h : r.Admissible m) : Row m (r.text m) r.values := by
  obtain ⟨first, others, ending⟩ := r
  have hcells := h.cells
  clear h
  unfold WrittenRow.text WrittenRow.values
  simp only at hcells ⊢
  induction others generalizing first with
  | nil => simpa using Row.last (hcells first (by simp)).cell
  | cons w others ih =>
    have htail := ih w fun w' hw' => hcells w' (List.mem_cons_of_mem _ hw')
    simpa using Row.more (hcells first (by simp)).cell htail

theorem Written.text_eq_nil {w : Written α} (h : w.text m = []) : w.value = [] ∧ w.quoted = false := by
  unfold Written.text at h
  cases hq : w.quoted with
  | true => simp [hq] at h
  | false => simpa [hq] using h

theorem WrittenRow.Admissible.text_ne_nil {r : WrittenRow α} (h : r.Admissible m) : r.text m ≠ [] := by
  intro hnil
  obtain ⟨hfirst, hothers⟩ := List.append_eq_nil_iff.mp hnil
  have hnone : r.others = [] := by
    cases ho : r.others with
    | nil => rfl
    | cons w ws => simp [ho] at hothers
  obtain ⟨hvalue, hquoted⟩ := Written.text_eq_nil hfirst
  rw [h.nonblank hnone hvalue] at hquoted
  cases hquoted

theorem WrittenRow.Admissible.line {r : WrittenRow α} (h : r.Admissible m) : Line m (r.text m) [r.values] :=
  .row h.row h.text_ne_nil

omit [DecidableEq α] in
theorem Ending.terminator (e : Ending) : Terminator m (e.text m) := by
  cases e with
  | crlf => exact .crlf
  | lf => exact .lf
  | cr => exact .cr

theorem writeRows_body (final : Bool) {rows : List (WrittenRow α)} (h : ∀ r ∈ rows, r.Admissible m) :
    Body m (writeRows m final rows) (rows.map (·.values)) := by
  induction rows with
  | nil => exact .last .blank
  | cons r rows ih =>
    have hline := (h r (by simp)).line
    have hrows : ∀ r' ∈ rows, r'.Admissible m := fun r' hr' => h r' (List.mem_cons_of_mem _ hr')
    cases rows with
    | nil =>
      cases final with
      | true => simpa [writeRows] using Body.line hline r.ending.terminator (.last .blank)
      | false => simpa [writeRows] using Body.last hline
    | cons r' rows => exact Body.line hline r.ending.terminator (ih hrows)

theorem WrittenRow.text_head {r : WrittenRow α} (hbom : r.first.value.head? = some m.bom → r.first.quoted = true) :
    (r.text m).head? ≠ some m.bom := by
  unfold WrittenRow.text Written.text
  cases hq : r.first.quoted with
  | true => simpa using fun h => m.ne.1 (by simp [h])
  | false =>
    cases hv : r.first.value with
    | nil =>
      cases r.others with
      | nil => simp
      | cons w ws => simpa using fun h => m.ne.2.1 (by simp [h])
    | cons c v =>
      intro hhead
      have hquoted := hbom (by simpa [hv] using hhead)
      rw [hq] at hquoted
      cases hquoted

theorem writeRows_head {rows : List (WrittenRow α)} (final : Bool) (h : Admissible m false rows) :
    (writeRows m final rows).head? ≠ some m.bom := by
  have hhead : ∀ r rest, rows = r :: rest → ∀ t, (r.text m ++ t).head? ≠ some m.bom := by
    intro r rest hrows t
    have hr := h.unmarked rfl r (by simp [hrows])
    have hne := (h.each r (by simp [hrows])).text_ne_nil
    rw [List.head?_append_of_ne_nil _ hne]
    exact WrittenRow.text_head hr
  cases rows with
  | nil => simp [writeRows]
  | cons r rest =>
    cases rest with
    | nil => exact hhead r [] rfl _
    | cons r' rest =>
      unfold writeRows
      rw [List.append_assoc]
      exact hhead r _ rfl _

/-- What is written is derived, and means what was to be written. -/
theorem write_derives (bom final : Bool) {rows : List (WrittenRow α)} (h : Admissible m bom rows) :
    Derives m (write m bom final rows) (rows.map (·.values)) := by
  cases bom with
  | true => exact .marked (writeRows_body final h.each)
  | false => exact .unmarked (writeRows_head final h) (writeRows_body final h.each)

end

end Csv
