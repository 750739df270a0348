import Keyhole.Import.Lines
import Mathlib.Data.List.Forall2

/-!
# The number of a line

A line of the file ends with CRLF, with a line feed or with a carriage return.
The scanner is followed here by an account of where each record begins; the
one terminator its counter does not see is a carriage return inside quotes
that has no line feed after it.
-/

namespace Keyhole.Import

/-! ## The lines of a text -/

def endsLine (ch : CodeUnit) (next : Option CodeUnit) : Bool := ch = LF || (ch = CR && next ≠ some LF)

def terminators : Text → Nat
  | [] => 0
  | ch :: t => (endsLine ch t.head?).toNat + terminators t

def lineAfter (before : Text) : Nat := 1 + terminators before

theorem terminators_append {a b : Text} (h : a.getLast? ≠ some CR ∨ b.head? ≠ some LF) :
    terminators (a ++ b) = terminators a + terminators b := by
  induction a with
  | nil => simp [terminators]
  | cons ch a ih =>
    cases a with
    | nil =>
      have : endsLine ch b.head? = endsLine ch none := by
        unfold endsLine
        by_cases hch : ch = CR
        · have hb : b.head? ≠ some LF := by simpa [hch] using h
          simp [hb]
        · simp [hch]
      simp [terminators, this]
    | cons c a =>
      have := ih (by simpa using h)
      simp only [List.cons_append, terminators, List.head?_cons] at this ⊢
      omega

/-! ## Where a record begins -/

/-- The text before a place, and how many carriage returns of their own in it are inside quotes. -/
structure Origin where
  before : Text
  missed : Nat
  deriving DecidableEq, Repr

/-- The scanner, what it has read, and the beginnings of the current record, of
the records it has returned and of those its errors are about. -/
structure Located where
  scan : Scan
  here : Origin
  start : Origin
  records : List Origin
  errors : List Origin

def Located.begin : Located := ⟨.start, ⟨[], 0⟩, ⟨[], 0⟩, [], []⟩

/-- What is returned on the way from `l.scan` to `st` is of the current record. -/
def Located.advance (l : Located) (st : Scan) (here : Origin) : Located where
  scan := st
  here := here
  start := if st.records.length = l.scan.records.length then l.start else here
  records := l.records ++ List.replicate (st.records.length - l.scan.records.length) l.start
  errors := l.errors ++ List.replicate (st.errors.length - l.scan.errors.length) l.start

/-- A line ends here and the counter stays. -/
def Scan.misses (st : Scan) (ch : CodeUnit) (next : Option CodeUnit) : Bool :=
  st.inQuotes && ch = CR && next ≠ some LF

def Located.step (l : Located) (ch : CodeUnit) (next : Option CodeUnit) : Located × Bool :=
  let (st, both) := l.scan.step ch next
  (l.advance st
    { before := l.here.before ++ ch :: (if both then next.toList else [])
      missed := l.here.missed + (l.scan.misses ch next).toNat }, both)

def Located.run (l : Located) : Text → Located
  | [] => l
  | [ch] => (l.step ch none).1
  | ch :: next :: text =>
    match l.step ch (some next) with
    | (l, true) => l.run text
    | (l, false) => l.run (next :: text)

def locate (text : Text) : Located :=
  let l := Located.begin.run text
  l.advance l.scan.finish l.here

theorem locate_cons (l : Located) (ch : CodeUnit) (t : Text) :
    l.run (ch :: t) = (l.step ch t.head?).1.run (if (l.step ch t.head?).2 then t.tail else t) := by
  cases t with
  | nil =>
    rw [Located.run]
    cases h : (l.step ch none).2 <;> simp [h, Located.run]
  | cons next t =>
    rw [Located.run]
    simp only [List.head?_cons, List.tail_cons]
    split
    · rename_i l' h
      simp [h]
    · rename_i l' h
      simp [h]

/-- The account follows the scanner and does not lead it. -/
theorem locate_scan (l : Located) (t : Text) : (l.run t).scan = l.scan.run t := by
  induction hn : t.length using Nat.strongRecOn generalizing l t with
  | _ n ih =>
    cases t with
    | nil => rfl
    | cons ch t =>
      rw [locate_cons, run_cons]
      have hboth : (l.step ch t.head?).2 = (l.scan.step ch t.head?).2 := rfl
      rw [hboth]
      refine ih _ ?_ _ _ rfl
      cases (l.scan.step ch t.head?).2 <;> simp at hn ⊢ <;> omega

/-! ## What one step does -/

/-- The branches of a step, each with what it was taken on. -/
inductive Stepped (st : Scan) (ch : CodeUnit) (next : Option CodeUnit) : Scan × Bool → Prop
  | doubled (hin : st.inQuotes = true) (hch : ch = QUOTE) (hn : next = some QUOTE) :
      Stepped st ch next (st.push QUOTE, true)
  | close (hin : st.inQuotes = true) (hch : ch = QUOTE) : Stepped st ch next (st.close next, false)
  | data (hin : st.inQuotes = true) (hch : ch ≠ QUOTE) : Stepped st ch next (st.quotedData ch, false)
  | open (hin : st.inQuotes = false) (hch : ch = QUOTE) : Stepped st ch next (st.open, false)
  | field (hin : st.inQuotes = false) (hch : ch = DELIMITER) : Stepped st ch next (st.endField, false)
  | ending (hin : st.inQuotes = false) (hch : ch = CR ∨ ch = LF) :
      Stepped st ch next (st.terminate, ch = CR && next = some LF)
  | bare (hin : st.inQuotes = false) (hch : ch ≠ CR ∧ ch ≠ LF) : Stepped st ch next (st.push ch, false)

theorem stepped (st : Scan) (ch : CodeUnit) (next : Option CodeUnit) : Stepped st ch next (st.step ch next) := by
  unfold Scan.step
  cases hin : st.inQuotes with
  | true =>
    simp only [if_true]
    by_cases hch : ch = QUOTE
    · by_cases hn : next = some QUOTE
      · simpa only [hch, hn, if_true] using Stepped.doubled hin hch hn
      · simpa only [hch, hn, if_true, if_false] using Stepped.close hin hch
    · simpa only [hch, if_false] using Stepped.data hin hch
  | false =>
    simp only [Bool.false_eq_true, if_false]
    split
    · rename_i h
      simp only [Bool.and_eq_true, decide_eq_true_eq] at h
      exact .open hin h.1.1
    · split
      · rename_i h
        exact .field hin h
      · split
        · rename_i h
          exact .ending hin (by simpa using h)
        · rename_i h
          exact .bare hin (by simpa using h)

@[simp] theorem terminators_cons (ch : CodeUnit) (t : Text) :
    terminators (ch :: t) = (endsLine ch t.head?).toNat + terminators t := rfl

theorem endsLine_none {ch : CodeUnit} (h : ch ≠ CR ∧ ch ≠ LF) (next : Option CodeUnit) :
    endsLine ch next = false := by
  simp [endsLine, h.1, h.2]

theorem misses_closed {st : Scan} (h : st.inQuotes = false) (ch : CodeUnit) (next : Option CodeUnit) :
    st.misses ch next = false := by
  simp [Scan.misses, h]

theorem misses_bare {ch : CodeUnit} (h : ch ≠ CR) (st : Scan) (next : Option CodeUnit) :
    st.misses ch next = false := by
  simp [Scan.misses, h]

theorem close_line (st : Scan) (next : Option CodeUnit) : (st.close next).line = st.line := by
  unfold Scan.close
  split <;> rfl

theorem quotedData_line {st : Scan} (hin : st.inQuotes = true) (ch : CodeUnit) (next : Option CodeUnit) :
    (st.quotedData ch).line + (st.misses ch next).toNat = st.line + (endsLine ch next).toNat := by
  unfold Scan.quotedData Scan.misses endsLine
  by_cases hlf : ch = LF
  · subst hlf
    simp [hin, show ¬ LF = CR by decide]
  · simp [hin, hlf]

theorem step_line (st : Scan) (ch : CodeUnit) (t : Text) :
    (st.step ch t.head?).1.line + (st.misses ch t.head?).toNat +
      terminators (if (st.step ch t.head?).2 then t.tail else t) = st.line + terminators (ch :: t) := by
  rw [terminators_cons]
  have hq : QUOTE ≠ CR ∧ QUOTE ≠ LF := by decide
  have hd : DELIMITER ≠ CR ∧ DELIMITER ≠ LF := by decide
  generalize hs : st.step ch t.head? = s
  have h := stepped st ch t.head?
  rw [hs] at h
  cases h with
  | doubled hin hch hn =>
    obtain ⟨t', rfl⟩ : ∃ t', t = QUOTE :: t' := by
      cases t with
      | nil => cases hn
      | cons c t => exact ⟨t, by simpa using hn⟩
    rw [hch, misses_bare hq.1, endsLine_none hq]
    simp [endsLine_none hq, Scan.push]
  | close hin hch => simp [hch, misses_bare hq.1, endsLine_none hq, close_line]
  | data hin hch =>
    have := quotedData_line hin ch t.head?
    simp only [Bool.false_eq_true, if_false]
    omega
  | «open» hin hch => simp [hch, misses_bare hq.1, endsLine_none hq, Scan.open]
  | field hin hch => simp [hch, misses_bare hd.1, endsLine_none hd, Scan.endField]
  | ending hin hch =>
    have hl : st.terminate.line = st.line + 1 := rfl
    rw [misses_closed hin]
    by_cases hn : ch = CR ∧ t.head? = some LF
    · obtain ⟨rfl, hn⟩ := hn
      obtain ⟨t', rfl⟩ : ∃ t', t = LF :: t' := by
        cases t with
        | nil => cases hn
        | cons c t => exact ⟨t, by simpa using hn⟩
      simp [hl, endsLine, show ¬ CR = LF by decide]
      omega
    · have he : endsLine ch t.head? = true := by
        rcases hch with rfl | rfl
        · simp [endsLine, show t.head? ≠ some LF from fun h => hn ⟨rfl, h⟩]
        · simp [endsLine]
      have hb : (ch = CR && t.head? = some LF : Bool) = false := by simpa using hn
      simp only [hb, he, hl]
      simp
      omega
  | bare hin hch => simp [misses_closed hin, endsLine_none hch, Scan.push]

/-- `rs` and `es` are what the step returns. -/
structure Returned (st st' : Scan) (rs : List RawRecord) (es : List ImportRowError) : Prop where
  records : st'.records = st.records ++ rs
  errors : st'.errors = st.errors ++ es
  lines : ∀ r ∈ rs, r.line = st.recordLine
  rows : ∀ e ∈ es, e.row = st.recordLine
  same : rs = [] → st'.recordLine = st.recordLine ∧
    (st.recordHadQuote = true ∨ es ≠ [] → st'.recordHadQuote = true)
  ended : rs ≠ [] → es = [] ∧ st'.recordLine = st'.line

theorem Returned.nothing {st st' : Scan} (hr : st'.records = st.records) (he : st'.errors = st.errors)
    (hl : st'.recordLine = st.recordLine) (hq : st.recordHadQuote = true → st'.recordHadQuote = true) :
    Returned st st' [] [] where
  records := by simp [hr]
  errors := by simp [he]
  lines r h := by cases h
  rows e h := by cases h
  same _ := ⟨hl, fun h => hq (h.resolve_right (by simp))⟩
  ended h := absurd rfl h

theorem close_returned {st : Scan} (h : st.Ordered) (hin : st.inQuotes = true) (next : Option CodeUnit) :
    ∃ es, Returned st (st.close next) [] es := by
  unfold Scan.close
  split
  · refine ⟨[⟨st.recordLine, undoubled⟩], by simp, rfl, by simp, by simp, ?_, by simp⟩
    exact fun _ => ⟨rfl, fun _ => (h.quoted hin).2⟩
  · exact ⟨[], .nothing rfl rfl rfl id⟩

theorem terminate_returned (st : Scan) : ∃ r, Returned st st.terminate [r] [] :=
  ⟨_, rfl, by simp [Scan.terminate, Scan.endRecord, Scan.endField], by simp [Scan.endField], by simp, by simp,
    fun _ => ⟨rfl, rfl⟩⟩

theorem step_returned {st : Scan} (h : st.Ordered) (ch : CodeUnit) (next : Option CodeUnit) :
    ∃ rs es, Returned st (st.step ch next).1 rs es ∧
      (rs ≠ [] → st.inQuotes = false ∧ (ch = CR ∨ ch = LF)) := by
  generalize hs : st.step ch next = s
  have hst := stepped st ch next
  rw [hs] at hst
  cases hst with
  | doubled hin hch hn => exact ⟨[], [], .nothing rfl rfl rfl id, by simp⟩
  | close hin hch =>
    obtain ⟨es, hes⟩ := close_returned h hin next
    exact ⟨[], es, hes, by simp⟩
  | data hin hch => exact ⟨[], [], .nothing rfl rfl rfl id, by simp⟩
  | «open» hin hch => exact ⟨[], [], .nothing rfl rfl rfl fun _ => rfl, by simp⟩
  | field hin hch => exact ⟨[], [], .nothing rfl rfl rfl id, by simp⟩
  | ending hin hch =>
    obtain ⟨r, hr⟩ := terminate_returned st
    exact ⟨[r], [], hr, fun _ => ⟨hin, hch⟩⟩
  | bare hin hch => exact ⟨[], [], .nothing rfl rfl rfl id, by simp⟩

/-! ## The account of a run -/

/-- The number given is short by what the counter has missed. -/
def Short (line : Nat) (o : Origin) : Prop := line + o.missed = lineAfter o.before

structure Located.Inv (text : Text) (l : Located) (rest : Text) : Prop where
  ordered : l.scan.Ordered
  read : l.here.before ++ rest = text
  line : l.scan.line + l.here.missed + terminators rest = lineAfter text
  start : Short l.scan.recordLine l.start
  records : List.Forall₂ Short (l.scan.records.map (·.line)) l.records
  errors : List.Forall₂ Short (l.scan.errors.map (·.row)) l.errors
  named : ∀ o ∈ l.errors, o ∈ l.records ∨ o = l.start ∧ l.scan.recordHadQuote = true

theorem forall₂_replicate {β : Type} {f : β → Nat} {o : Origin} {n : Nat} {ys : List β}
    (h : ∀ y ∈ ys, f y = n) (ho : Short n o) : List.Forall₂ Short (ys.map f) (List.replicate ys.length o) := by
  induction ys with
  | nil => exact .nil
  | cons y ys ih =>
    have hy : Short (f y) o := by
      rw [h y List.mem_cons_self]
      exact ho
    exact .cons hy (ih fun x hx => h x (List.mem_cons_of_mem _ hx))

section
variable {text rest : Text} {l : Located}

theorem advance_start {st : Scan} {here : Origin} {rs : List RawRecord} (h : st.records = l.scan.records ++ rs) :
    (l.advance st here).start = if rs = [] then l.start else here := by
  unfold Located.advance
  simp only [h, List.length_append, Nat.add_eq_left, List.length_eq_zero_iff]

theorem advance_records {st : Scan} {here : Origin} {rs : List RawRecord} (h : st.records = l.scan.records ++ rs) :
    (l.advance st here).records = l.records ++ List.replicate rs.length l.start := by
  simp [Located.advance, h]

theorem advance_errors {st : Scan} {here : Origin} {es : List ImportRowError}
    (h : st.errors = l.scan.errors ++ es) :
    (l.advance st here).errors = l.errors ++ List.replicate es.length l.start := by
  simp [Located.advance, h]

theorem advance_short {st : Scan} (here : Origin) {rs : List RawRecord} {es : List ImportRowError}
    (h : l.Inv text rest) (hr : st.records = l.scan.records ++ rs) (he : st.errors = l.scan.errors ++ es)
    (hrs : ∀ r ∈ rs, r.line = l.scan.recordLine) (hes : ∀ e ∈ es, e.row = l.scan.recordLine) :
    List.Forall₂ Short (st.records.map (·.line)) (l.advance st here).records ∧
      List.Forall₂ Short (st.errors.map (·.row)) (l.advance st here).errors := by
  rw [advance_records hr, advance_errors he, hr, he, List.map_append, List.map_append]
  exact ⟨List.rel_append h.records (forall₂_replicate hrs h.start),
    List.rel_append h.errors (forall₂_replicate hes h.start)⟩

theorem advance_named {st : Scan} {here : Origin} {rs : List RawRecord} {es : List ImportRowError}
    (h : Returned l.scan st rs es)
    (hn : ∀ o ∈ l.errors, o ∈ l.records ∨ o = l.start ∧ l.scan.recordHadQuote = true) :
    ∀ o ∈ (l.advance st here).errors,
      o ∈ (l.advance st here).records ∨ o = (l.advance st here).start ∧ st.recordHadQuote = true := by
  intro o ho
  rw [advance_errors h.errors, List.mem_append] at ho
  rw [advance_records h.records, advance_start h.records, List.mem_append]
  by_cases hrs : rs = []
  · rw [if_pos hrs]
    rcases ho with ho | ho
    · rcases hn o ho with ho | ⟨ho, hq⟩
      · exact Or.inl (Or.inl ho)
      · exact Or.inr ⟨ho, (h.same hrs).2 (Or.inl hq)⟩
    · obtain ⟨hne, rfl⟩ := List.mem_replicate.mp ho
      exact Or.inr ⟨rfl, (h.same hrs).2 (Or.inr (by simpa using hne))⟩
  · left
    have hlast : l.start ∈ List.replicate rs.length l.start := by simp [hrs]
    rw [(h.ended hrs).1] at ho
    rcases ho with ho | ho
    · rcases hn o ho with ho | ⟨rfl, -⟩
      · exact Or.inl ho
      · exact Or.inr hlast
    · simp at ho

theorem ending_whole {ch : CodeUnit} {t : Text} (hin : l.scan.inQuotes = false) (hch : ch = CR ∨ ch = LF) :
    (l.step ch t.head?).1.here.before.getLast? ≠ some CR ∨
      (if (l.step ch t.head?).2 then t.tail else t).head? ≠ some LF := by
  unfold Located.step
  rw [step_ending hin hch]
  by_cases hn : ch = CR ∧ t.head? = some LF
  · left
    simp [Located.advance, hn, show LF ≠ CR by decide]
  · have hb : (decide (ch = CR) && decide (t.head? = some LF)) = false := by simpa using hn
    simp only [hb, Bool.false_eq_true, if_false, Located.advance]
    rcases hch with rfl | rfl
    · exact Or.inr fun h => hn ⟨rfl, h⟩
    · left
      simp [show LF ≠ CR by decide]

theorem step_read {ch : CodeUnit} {t : Text} :
    (l.step ch t.head?).1.here.before ++ (if (l.step ch t.head?).2 then t.tail else t) = l.here.before ++
      ch :: t := by
  have hb : (l.step ch t.head?).2 = (l.scan.step ch t.head?).2 := rfl
  rw [hb]
  unfold Located.step Located.advance
  generalize l.scan.step ch t.head? = s
  obtain ⟨st, both⟩ := s
  cases both with
  | true => cases t <;> simp
  | false => simp

theorem step_inv {ch : CodeUnit} {t : Text} (h : l.Inv text (ch :: t)) :
    (l.step ch t.head?).1.Inv text (if (l.step ch t.head?).2 then t.tail else t) := by
  obtain ⟨rs, es, hret, hend⟩ := step_returned h.ordered ch t.head?
  have hread := (step_read (l := l)).trans h.read
  have hline : (l.step ch t.head?).1.scan.line + (l.step ch t.head?).1.here.missed +
      terminators (if (l.step ch t.head?).2 then t.tail else t) = lineAfter text := by
    have hl : (l.step ch t.head?).1.scan.line + (l.scan.misses ch t.head?).toNat +
        terminators (if (l.step ch t.head?).2 then t.tail else t) = l.scan.line + terminators (ch :: t) :=
      step_line l.scan ch t
    have hm : (l.step ch t.head?).1.here.missed = l.here.missed + (l.scan.misses ch t.head?).toNat := rfl
    have := h.line
    omega
  have hstart : (l.step ch t.head?).1.start = if rs = [] then l.start else (l.step ch t.head?).1.here :=
    advance_start hret.records
  have hshort := advance_short (l.step ch t.head?).1.here h hret.records hret.errors hret.lines hret.rows
  refine ⟨step_ordered _ _ _ h.ordered, hread, hline, ?_, hshort.1, hshort.2, advance_named hret h.named⟩
  rw [hstart]
  by_cases hrs : rs = []
  · rw [if_pos hrs, Short, show (l.step ch t.head?).1.scan.recordLine = _ from (hret.same hrs).1]
    exact h.start
  · obtain ⟨hin, hch⟩ := hend hrs
    have hsum := terminators_append (ending_whole (t := t) hin hch)
    rw [hread] at hsum
    rw [if_neg hrs, Short, show (l.step ch t.head?).1.scan.recordLine = _ from (hret.ended hrs).2]
    simp only [lineAfter] at hline ⊢
    change (l.step ch t.head?).1.scan.line + _ = _
    omega

theorem run_inv (h : l.Inv text rest) : (l.run rest).Inv text [] := by
  induction hn : rest.length using Nat.strongRecOn generalizing l rest with
  | _ n ih =>
    cases rest with
    | nil => exact h
    | cons ch t =>
      rw [locate_cons]
      refine ih _ ?_ (step_inv h) rfl
      cases (l.step ch t.head?).2 <;> simp at hn ⊢ <;> omega

end

theorem begin_inv (text : Text) : Located.begin.Inv text text where
  ordered := start_ordered
  read := rfl
  line := rfl
  start := rfl
  records := .nil
  errors := .nil
  named o h := by cases h

/-! ## The lines a scan gives -/

/-- Every record and every error is given the line its record begins on. -/
def LinesRight (text : Text) : Prop :=
  (scan text).records.map (·.line) = (locate text).records.map (lineAfter ·.before) ∧
    (scan text).errors.map (·.row) = (locate text).errors.map (lineAfter ·.before)

theorem forall₂_right {lines : List Nat} {os : List Origin} (h : List.Forall₂ Short lines os) :
    lines = os.map (lineAfter ·.before) ↔ ∀ o ∈ os, o.missed = 0 := by
  induction h with
  | nil => simp
  | @cons line o lines os hs _ ih =>
    have : line = lineAfter o.before ↔ o.missed = 0 := by
      unfold Short at hs
      omega
    simp [ih, this]

/-- What the end of the file returns is of the record in progress, and only such a record has been reported. -/
theorem finish_returned {st : Scan} (h : st.Ordered) : ∃ rs es, st.finish.records = st.records ++ rs ∧
    st.finish.errors = st.errors ++ es ∧ (∀ r ∈ rs, r.line = st.recordLine) ∧
      (∀ e ∈ es, e.row = st.recordLine) ∧
    (rs = [] → es = [] ∧ st.recordHadQuote = false) := by
  cases hin : st.inQuotes with
  | true =>
    rw [finish_unclosed hin]
    exact ⟨[_], [_], rfl, rfl, by simp [Scan.reportUnclosed, Scan.endField], by simp, by simp⟩
  | false =>
    rw [finish_closed hin]
    by_cases hp : st.pending = true
    · rw [if_pos hp]
      exact ⟨[_], [], rfl, by simp [Scan.endRecord, Scan.endField], by simp [Scan.endField], by simp, by simp⟩
    · rw [if_neg hp]
      refine ⟨[], [], by simp, by simp, by simp, by simp, fun _ => ⟨rfl, ?_⟩⟩
      by_contra hq
      rw [Bool.not_eq_false] at hq
      rcases h.begun hq with hw | hf
      · exact hp (by simp [Scan.pending, hw])
      · exact hp (by simp [Scan.pending, hf])

theorem finish_named {text : Text} {l : Located} (h : l.Inv text []) :
    ∀ o ∈ (l.advance l.scan.finish l.here).errors, o ∈ (l.advance l.scan.finish l.here).records := by
  obtain ⟨rs, es, hr, he, -, -, hnone⟩ := finish_returned h.ordered
  intro o ho
  rw [advance_errors he, List.mem_append] at ho
  rw [advance_records hr, List.mem_append]
  by_cases hrs : rs = []
  · obtain ⟨rfl, hq⟩ := hnone hrs
    rcases ho with ho | ho
    · exact (h.named o ho).imp_right fun hstart => absurd hstart.2 (by simp [hq])
    · simp at ho
  · have hlast : l.start ∈ List.replicate rs.length l.start := by simp [hrs]
    rcases ho with ho | ho
    · rcases h.named o ho with ho | ⟨rfl, -⟩
      · exact Or.inl ho
      · exact Or.inr hlast
    · rw [(List.mem_replicate.mp ho).2]
      exact Or.inr hlast

/-- The numbers are right when no record begins after a carriage return of its own inside quotes. -/
theorem lines_right_iff (text : Text) : LinesRight text ↔ ∀ o ∈ (locate text).records, o.missed = 0 := by
  have h := run_inv (begin_inv text)
  obtain ⟨rs, es, hr, he, hrs, hes, -⟩ := finish_returned h.ordered
  obtain ⟨hrecords, herrors⟩ := advance_short (Located.begin.run text).here h hr he hrs hes
  have hscan : scan text = ⟨(Located.begin.run text).scan.finish.records,
    (Located.begin.run text).scan.finish.errors⟩ := by
    rw [locate_scan]
    rfl
  unfold LinesRight
  rw [hscan]
  constructor
  · exact fun hright => (forall₂_right hrecords).mp hright.1
  · exact fun hz => ⟨(forall₂_right hrecords).mpr hz, (forall₂_right herrors).mpr fun o ho =>
      hz o (finish_named h o ho)⟩

/-- A carriage return in a note, and a row after it. -/
theorem quoted_return_uncounted : ¬ ∀ text, LinesRight text := by
  intro h
  exact absurd (h (ascii "\"a\rb\"\nc")) (by unfold LinesRight; decide)

end Keyhole.Import
