import Keyhole.Import.Scanning

/-!
# What the reader accepts

The scanner and the grammar go through a text together: a cell of the grammar
takes the scanner to the end of a field, a row to the end of a record. Where
the text does not go on as the grammar would, an error is reported.
-/

namespace Keyhole.Import
open Csv

def marks : Marks CodeUnit := ⟨QUOTE, DELIMITER, CR, LF, BOM, by decide⟩

variable {st : Scan} {s v t : Text}

/-! ## Cells -/

def Scan.pushAll (st : Scan) (s : Text) : Scan := { st with field := st.field ++ s }

def Scan.quoted (st : Scan) (v : Text) : Scan :=
  { st with field := st.field ++ v, line := st.line + v.count LF }

theorem run_free (hin : st.inQuotes = false) (hfree : marks.Free s)
    (hq : s.head? = some QUOTE → st.field ≠ [] ∨ st.fieldWasQuoted = true) :
    st.run (s ++ t) = (st.pushAll s).run t := by
  induction s generalizing st with
  | nil => simp [Scan.pushAll]
  | cons c s ih =>
    have hc := hfree c (by simp)
    rw [List.cons_append, run_cons, step_bare hin (fun h => hq (by rw [h]; rfl)) hc]
    simp only [Bool.false_eq_true, if_false]
    rw [@ih (st.push c) hin (fun d hd => hfree d (List.mem_cons_of_mem _ hd))
      (fun _ => Or.inl (by simp [Scan.push]))]
    simp [Scan.push, Scan.pushAll]

theorem run_escaped (h : Escaped marks s v) (hin : st.inQuotes = true) : st.run (s ++ t) = (st.quoted v).run t := by
  induction h generalizing st with
  | nil => simp [Scan.quoted]
  | @char c s v hc h ih =>
    have hstep : st.step c (s ++ t).head? = (st.quotedData c, false) := by
      unfold Scan.step
      simp [hin, show c ≠ QUOTE from hc]
    rw [List.cons_append, run_cons, hstep]
    simp only [Bool.false_eq_true, if_false]
    rw [@ih (st.quotedData c) hin]
    congr 1
    by_cases hl : c = LF
    · simp [Scan.quotedData, Scan.quoted, hl]
      omega
    · simp [Scan.quotedData, Scan.quoted, hl]
  | @quote s v h ih =>
    have hstep : st.step QUOTE (QUOTE :: (s ++ t)).head? = (st.push QUOTE, true) := by
      unfold Scan.step
      simp [hin]
    change st.run (QUOTE :: QUOTE :: (s ++ t)) = _
    rw [run_cons, hstep]
    simp only [if_true, List.tail_cons]
    rw [@ih (st.push QUOTE) hin]
    congr 1
    simp [Scan.push, Scan.quoted, show marks.quote = QUOTE from rfl, show ¬ QUOTE = LF by decide]

structure Scan.AtField (st : Scan) : Prop where
  field : st.field = []
  inQuotes : st.inQuotes = false
  fieldWasQuoted : st.fieldWasQuoted = false
  recordReported : st.recordReported = false

structure Scan.Reads (st : Scan) (s v : Text) (st' : Scan) : Prop where
  records : st'.records = st.records
  errors : st'.errors = st.errors
  fields : st'.fields = st.fields
  field : st'.field = v
  inQuotes : st'.inQuotes = false
  recordHadQuote : st'.recordHadQuote = (st.recordHadQuote || st'.fieldWasQuoted)
  recordReported : st'.recordReported = false
  nonempty : s ≠ [] → v ≠ [] ∨ st'.fieldWasQuoted = true

theorem endsField_ends : endsField t.head? = true ↔ marks.Ends t := by
  unfold endsField Marks.Ends
  cases t with
  | nil => simp
  | cons c t => simp [marks, or_assoc]

theorem run_cell (h : Cell marks s v) (hst : st.AtField) (ht : marks.Ends t) :
    ∃ st', st.Reads s v st' ∧ st.run (s ++ t) = st'.run t := by
  cases h with
  | bare hq hf =>
    refine ⟨st.pushAll s, ?_, run_free hst.inQuotes hf fun h => absurd h hq⟩
    exact ⟨rfl, rfl, rfl, by simp [Scan.pushAll, hst.field], hst.inQuotes,
      by simp [Scan.pushAll, hst.fieldWasQuoted], hst.recordReported, Or.inl⟩
  | @quoted s v h =>
    have hends : endsField t.head? = true := endsField_ends.mpr ht
    have hne : t.head? ≠ some QUOTE := by
      intro hq
      rw [hq] at hends
      exact absurd hends (by decide)
    have hclose : (st.open.quoted v).close t.head? = { st.open.quoted v with inQuotes := false } := by
      unfold Scan.close
      simp [hends]
    refine ⟨{ st.open.quoted v with inQuotes := false }, ?_, ?_⟩
    · exact ⟨rfl, rfl, rfl, by simp [Scan.quoted, Scan.open, hst.field], rfl, by simp [Scan.quoted, Scan.open],
        hst.recordReported, fun _ => Or.inr rfl⟩
    · change st.run (QUOTE :: ((s ++ [QUOTE]) ++ t)) = _
      rw [run_cons, step_open hst.inQuotes hst.field hst.fieldWasQuoted]
      simp only [Bool.false_eq_true, if_false, List.append_assoc, List.singleton_append]
      rw [run_escaped h rfl, run_cons, step_close rfl hne, hclose]
      rfl

/-! ## Rows -/

structure Scan.ReadsRow (st : Scan) (s : Text) (vs : List Text) (st' : Scan) : Prop where
  records : st'.records = st.records
  errors : st'.errors = st.errors
  fields : st'.fields ++ [st'.field] = st.fields ++ vs
  inQuotes : st'.inQuotes = false
  pending : s ≠ [] ∨ st.fields ≠ [] → st'.pending = true
  nonblank : s ≠ [] ∨ st.fields ≠ [] → st'.recordHadQuote = true ∨ st'.fields ≠ [] ∨ st'.field ≠ []

theorem Scan.Reads.row {st' : Scan} (h : st.Reads s v st') : st.ReadsRow s [v] st' where
  records := h.records
  errors := h.errors
  fields := by rw [h.fields, h.field]
  inQuotes := h.inQuotes
  pending hs := by
    unfold Scan.pending
    rw [h.fields, h.field]
    cases hs with
    | inl hs =>
      cases h.nonempty hs with
      | inl hv => simp [hv]
      | inr hw => simp [hw]
    | inr hf => simp [hf]
  nonblank hs := by
    rw [h.fields, h.field, h.recordHadQuote]
    cases hs with
    | inl hs =>
      cases h.nonempty hs with
      | inl hv => exact Or.inr (Or.inr hv)
      | inr hw => left; simp [hw]
    | inr hf => exact Or.inr (Or.inl hf)

theorem run_row {vs : List Text} (h : Row marks s vs) (hst : st.AtField) (ht : marks.EndsRow t) :
    ∃ st', st.ReadsRow s vs st' ∧ st.run (s ++ t) = st'.run t := by
  induction h generalizing st with
  | last h =>
    obtain ⟨st', hread, hrun⟩ := run_cell h hst ht.ends
    exact ⟨st', hread.row, hrun⟩
  | @more s v s' vs h h' ih =>
    obtain ⟨st₁, hread, hrun⟩ := run_cell h hst (marks.ends_comma (s' ++ t))
    have hcomma : st₁.run (marks.comma :: (s' ++ t)) = st₁.endField.run (s' ++ t) := by
      change st₁.run (DELIMITER :: (s' ++ t)) = _
      rw [run_cons, step_comma hread.inQuotes]
      rfl
    obtain ⟨st', hrow, hrun'⟩ := @ih st₁.endField ⟨rfl, hread.inQuotes, rfl, hread.recordReported⟩
    have hfields : st₁.endField.fields ≠ [] := by simp [Scan.endField]
    refine ⟨st', ⟨hrow.records.trans hread.records, hrow.errors.trans hread.errors, ?_, hrow.inQuotes,
      fun _ => hrow.pending (Or.inr hfields), fun _ => hrow.nonblank (Or.inr hfields)⟩, ?_⟩
    · rw [hrow.fields]
      simp [Scan.endField, hread.fields, hread.field]
    · rw [List.append_assoc, List.cons_append, hrun, hcomma, hrun']

/-! ## Bodies -/

structure Scan.AtRecord (st : Scan) : Prop extends st.AtField where
  fields : st.fields = []
  recordHadQuote : st.recordHadQuote = false

def values (records : List RawRecord) : List (List Text) := (records.filter (!·.blank)).map (·.fields)

theorem start_atRecord : Scan.start.AtRecord := ⟨⟨rfl, rfl, rfl, rfl⟩, rfl, rfl⟩

theorem terminate_atRecord (h : st.inQuotes = false) : st.terminate.AtRecord := ⟨⟨rfl, h, rfl, rfl⟩, rfl, rfl⟩

theorem values_append (r r' : List RawRecord) : values (r ++ r') = values r ++ values r' := by
  simp [values]

theorem ReadsRow_endRecord {vs : List Text} {st' : Scan} (hst : st.AtRecord) (h : st.ReadsRow s vs st')
    (hs : s ≠ []) :
    values st'.endRecord.records = values st.records ++ [vs] := by
  have hfields : st'.fields ++ [st'.field] = vs := by rw [h.fields, hst.fields, List.nil_append]
  have hblank : (!st'.recordHadQuote && vs.length == 1 && vs.head? == some []) = false := by
    rw [← hfields]
    cases h.nonblank (Or.inl hs) with
    | inl hq => simp [hq]
    | inr hf =>
      cases hsf : st'.fields with
      | nil =>
        simp only [hsf, ne_eq, not_true_eq_false, false_or] at hf
        simp [hf]
      | cons f fs => simp
  unfold Scan.endRecord Scan.endField
  simp only [hfields, hblank, values_append, h.records]
  rfl

theorem run_line {rows : List (List Text)} (h : Line marks s rows) (hst : st.AtRecord) (ht : marks.EndsRow t) :
    ∃ st' : Scan, st.run (s ++ t) = st'.run t ∧ st'.inQuotes = false ∧ st'.errors = st.errors ∧
      values st'.endRecord.records = values st.records ++ rows ∧
      values st'.finish.records = values st.records ++ rows ∧ st'.finish.errors = st.errors := by
  cases h with
  | blank =>
    have hpending : st.pending = false := by
      simp [Scan.pending, hst.field, hst.fields, hst.fieldWasQuoted, hst.inQuotes]
    refine ⟨st, rfl, hst.inQuotes, rfl, ?_, ?_, ?_⟩
    · simp [Scan.endRecord, Scan.endField, hst.field, hst.fields, hst.recordHadQuote, values]
    · simp [finish_closed hst.inQuotes, hpending]
    · simp [finish_closed hst.inQuotes, hpending]
  | row h hs =>
    obtain ⟨st', hrow, hrun⟩ := run_row h hst.toAtField ht
    have hfinish : st'.finish = st'.endRecord := by
      simp [finish_closed hrow.inQuotes, hrow.pending (Or.inl hs)]
    refine ⟨st', hrun, hrow.inQuotes, hrow.errors, ReadsRow_endRecord hst hrow hs, ?_, ?_⟩
    · rw [hfinish]
      exact ReadsRow_endRecord hst hrow hs
    · rw [hfinish]
      exact hrow.errors

/-- A terminator ends the record. A line feed after a carriage return goes with it. -/
theorem run_terminator (h : Terminator marks s) (hin : st.inQuotes = false) :
    st.run (s ++ t) = st.terminate.run t ∨
      ∃ t', s = [CR] ∧ t = LF :: t' ∧ st.run (s ++ t) = st.terminate.run t' := by
  cases h with
  | crlf =>
    left
    change st.run (CR :: LF :: t) = _
    rw [run_cons, step_ending hin (Or.inl rfl)]
    rfl
  | lf =>
    left
    change st.run (LF :: t) = _
    rw [run_cons, step_ending hin (Or.inr rfl)]
    rfl
  | cr =>
    change st.run (CR :: t) = _ ∨ _
    by_cases ht : t.head? = some LF
    · right
      obtain ⟨t', rfl⟩ := List.head?_eq_some_iff.mp ht
      refine ⟨t', rfl, rfl, ?_⟩
      change st.run (CR :: LF :: t') = _
      rw [run_cons, step_ending hin (Or.inl rfl)]
      rfl
    · left
      rw [run_cons, step_ending hin (Or.inl rfl)]
      simp [ht]

theorem run_body {rows : List (List Text)} (h : Body marks s rows) (hst : st.AtRecord) :
    values (st.run s).finish.records = values st.records ++ rows ∧ (st.run s).finish.errors = st.errors := by
  induction hn : s.length using Nat.strongRecOn generalizing st s rows with
  | _ n ih =>
    cases h with
    | last h =>
      obtain ⟨st', hrun, -, -, -, hvalues, herrors⟩ := run_line h hst marks.endsRow_nil
      rw [List.append_nil] at hrun
      rw [hrun]
      exact ⟨hvalues, herrors⟩
    | @line s₁ t₁ s₂ rows₁ rows₂ h ht h' =>
      obtain ⟨st', hrun, hin, herrors, hvalues, -⟩ := run_line h hst (ht.endsRow s₂)
      have hshort : s₂.length < n := by
        have hpos : 0 < t₁.length := by cases ht <;> simp
        simp only [List.length_append] at hn
        omega
      have hat := terminate_atRecord hin
      rw [List.append_assoc, hrun]
      cases run_terminator (t := s₂) ht hin with
      | inl hrun' =>
        obtain ⟨hrows, herr⟩ := ih s₂.length hshort h' hat rfl
        rw [hrun', hrows, herr, show st'.terminate.records = st'.endRecord.records from rfl, hvalues,
          List.append_assoc]
        exact ⟨rfl, herrors⟩
      | inr hrun' =>
        obtain ⟨s₃, -, rfl, hrun'⟩ := hrun'
        obtain ⟨hrows, herr⟩ := ih s₃.length (by simp at hshort; omega) h'.of_lf hat rfl
        rw [hrun', hrows, herr, show st'.terminate.records = st'.endRecord.records from rfl, hvalues,
          List.append_assoc]
        exact ⟨rfl, herrors⟩

/-! ## No error, no other text -/

theorem errors_length (st : Scan) (t : Text) : st.errors.length ≤ (st.run t).finish.errors.length :=
  (errors_stay st t).length_le

theorem run_early (h : Escaped marks s v) (hst : st.AtField) (hne : t.head? ≠ some QUOTE) (ht : ¬ marks.Ends t) :
    st.errors.length < (st.run (QUOTE :: (s ++ QUOTE :: t))).finish.errors.length := by
  have hends : endsField t.head? = false := by
    rw [← Bool.not_eq_true, endsField_ends]
    exact ht
  rw [run_cons, step_open hst.inQuotes hst.field hst.fieldWasQuoted]
  simp only [Bool.false_eq_true, if_false]
  rw [run_escaped h rfl, run_cons, step_close rfl hne]
  simp only [Bool.false_eq_true, if_false]
  refine Nat.lt_of_lt_of_le ?_ (errors_length _ t)
  unfold Scan.close
  simp [hends, hst.recordReported, Scan.quoted, Scan.open]

theorem run_unclosed (h : Escaped marks s v) (hst : st.AtField) :
    st.errors.length < (st.run (QUOTE :: s)).finish.errors.length := by
  have hrun : st.run (QUOTE :: s) = st.open.quoted v := by
    rw [run_cons, step_open hst.inQuotes hst.field hst.fieldWasQuoted]
    simp only [Bool.false_eq_true, if_false]
    have hs := run_escaped (t := []) h (show st.open.inQuotes = true from rfl)
    rw [List.append_nil] at hs
    exact hs
  rw [hrun, finish_unclosed rfl]
  simp [Scan.endRecord, Scan.endField, Scan.reportUnclosed, Scan.quoted, Scan.open]

theorem ends_cases (h : marks.Ends t) : (∃ t', t = DELIMITER :: t') ∨ marks.EndsRow t := by
  cases t with
  | nil => exact Or.inr marks.endsRow_nil
  | cons c t =>
    cases h c rfl with
    | inl hc => exact Or.inl ⟨t, by rw [hc]; rfl⟩
    | inr hc =>
      right
      intro d hd
      cases hd
      exact hc

theorem row_or_error (hst : st.AtField) (t : Text) :
    (∃ s vs t', t = s ++ t' ∧ Row marks s vs ∧ marks.EndsRow t') ∨
      st.errors.length < (st.run t).finish.errors.length := by
  induction hn : t.length using Nat.strongRecOn generalizing st t with
  | _ n ih =>
    obtain h | h | h := cell_split marks t
    · obtain ⟨s, v, t', rfl, hcell, hends⟩ := h
      cases ends_cases hends with
      | inr hrow => exact Or.inl ⟨s, [v], t', rfl, .last hcell, hrow⟩
      | inl hcomma =>
        obtain ⟨t', rfl⟩ := hcomma
        obtain ⟨st', hread, hrun⟩ := run_cell hcell hst hends
        have hshort : t'.length < n := by
          simp only [List.length_append, List.length_cons] at hn
          omega
        cases @ih t'.length hshort st'.endField ⟨rfl, hread.inQuotes, rfl, hread.recordReported⟩ t' rfl with
        | inl h =>
          obtain ⟨s', vs, t'', rfl, hrow, hends'⟩ := h
          exact Or.inl ⟨s ++ DELIMITER :: s', v :: vs, t'', by simp, .more hcell hrow, hends'⟩
        | inr h =>
          right
          rw [hrun, run_cons, step_comma hread.inQuotes, ← hread.errors]
          exact h
    · obtain ⟨s, v, t', rfl, hs, hne, hends⟩ := h
      exact Or.inr (run_early hs hst hne hends)
    · obtain ⟨s, v, rfl, hs⟩ := h
      exact Or.inr (run_unclosed hs hst)

theorem line_of_row {vs : List Text} (h : Row marks s vs) : ∃ rows, Line marks s rows := by
  by_cases hs : s = []
  · subst hs
    exact ⟨[], .blank⟩
  · exact ⟨[vs], .row h hs⟩

theorem endsRow_cases (h : marks.EndsRow t) :
    t = [] ∨ ∃ e t', t = e ++ t' ∧ Terminator marks e ∧ (e = [CR] → t'.head? ≠ some LF) := by
  cases t with
  | nil => exact Or.inl rfl
  | cons c t =>
    right
    cases h c rfl with
    | inr hc => exact ⟨[LF], t, by rw [hc]; rfl, .lf, fun h => absurd h (by decide)⟩
    | inl hc =>
      by_cases ht : t.head? = some LF
      · obtain ⟨t', rfl⟩ := List.head?_eq_some_iff.mp ht
        exact ⟨[CR, LF], t', by rw [hc]; rfl, .crlf, by simp⟩
      · exact ⟨[CR], t, by rw [hc]; rfl, .cr, fun _ => ht⟩

theorem body_of_run (hst : st.AtRecord) (t : Text) (herr : (st.run t).finish.errors = st.errors) :
    ∃ rows, Body marks t rows := by
  induction hn : t.length using Nat.strongRecOn generalizing st t with
  | _ n ih =>
    cases row_or_error hst.toAtField t with
    | inr h =>
      rw [herr] at h
      exact absurd h (Nat.lt_irrefl _)
    | inl h =>
      obtain ⟨s, vs, t', rfl, hrow, hends⟩ := h
      obtain ⟨rows, hline⟩ := line_of_row hrow
      cases endsRow_cases hends with
      | inl h =>
        subst h
        rw [List.append_nil]
        exact ⟨rows, .last hline⟩
      | inr h =>
        obtain ⟨e, t'', rfl, he, hcr⟩ := h
        obtain ⟨st', hrun, hin, herrors, -⟩ := run_line hline hst hends
        have hshort : t''.length < n := by
          have hpos : 0 < e.length := by cases he <;> simp
          simp only [List.length_append] at hn
          omega
        have hrun' : st'.run (e ++ t'') = st'.terminate.run t'' := by
          cases run_terminator (t := t'') he hin with
          | inl h => exact h
          | inr h =>
            obtain ⟨t₃, hc, ht, -⟩ := h
            exact absurd (by rw [ht]; rfl) (hcr hc)
        rw [hrun, hrun'] at herr
        obtain ⟨rows', hbody⟩ := ih t''.length hshort (terminate_atRecord hin) t'' (herr.trans herrors.symm) rfl
        rw [← List.append_assoc]
        exact ⟨rows ++ rows', .line hline he hbody⟩

/-! ## The reader -/

theorem parseCsvRecords_eq (text : Text) :
    (parseCsvRecords text).rows.map (·.values) = values (scan (withoutBom text)).records ∧
      (parseCsvRecords text).errors = (scan (withoutBom text)).errors := by
  unfold parseCsvRecords values
  simp [Function.comp_def]

theorem derives_iff (text : Text) (rows : List (List Text)) :
    Derives marks text rows ↔ Body marks (withoutBom text) rows := by
  unfold withoutBom
  constructor
  · intro h
    cases h with
    | marked h => exact h
    | unmarked hb h =>
      rw [if_neg (by exact hb)]
      exact h
  · intro h
    split at h
    · rename_i hb
      obtain ⟨t, rfl⟩ := List.head?_eq_some_iff.mp hb
      exact .marked h
    · rename_i hb
      exact .unmarked hb h

theorem parseCsvRecords_of_derives {text : Text} {rows : List (List Text)} (h : Derives marks text rows) :
    (parseCsvRecords text).errors = [] ∧ (parseCsvRecords text).rows.map (·.values) = rows := by
  obtain ⟨hvalues, herrors⟩ := run_body ((derives_iff text rows).mp h) start_atRecord
  obtain ⟨hv, he⟩ := parseCsvRecords_eq text
  rw [hv, he]
  exact ⟨herrors, hvalues⟩

/-- The reader accepts what the grammar derives and nothing else, reads it as it is derived, and
reads back whatever is written. -/
theorem parseCsvRecords_exact (text : Text) :
    ((parseCsvRecords text).errors = [] ↔ ∃ rows, Derives marks text rows) ∧
    (∀ rows, Derives marks text rows → (parseCsvRecords text).rows.map (·.values) = rows) ∧
    ∀ (bom final : Bool) (rows : List (WrittenRow CodeUnit)), Admissible marks bom rows →
      (parseCsvRecords (write marks bom final rows)).errors = [] ∧
      (parseCsvRecords (write marks bom final rows)).rows.map (·.values) = rows.map (·.values) := by
  refine ⟨⟨fun h => ?_, fun h => ?_⟩, fun rows h => (parseCsvRecords_of_derives h).2,
    fun bom final rows h => ?_⟩
  · rw [(parseCsvRecords_eq text).2] at h
    obtain ⟨rows, hbody⟩ := body_of_run start_atRecord (withoutBom text) h
    exact ⟨rows, (derives_iff text rows).mpr hbody⟩
  · obtain ⟨rows, hrows⟩ := h
    exact (parseCsvRecords_of_derives hrows).1
  · exact parseCsvRecords_of_derives (write_derives bom final h)

/-- A header, and a password with a comma and a quote in it. -/
def quotedPassword : List (WrittenRow CodeUnit) :=
  [⟨⟨ascii "name", false⟩, [⟨ascii "password", false⟩], .crlf⟩,
   ⟨⟨ascii "mail", false⟩, [⟨ascii "pa\"s,s", true⟩], .lf⟩]

theorem quotedPassword_admissible : Admissible marks false quotedPassword where
  each := by
    intro r hr
    simp only [quotedPassword, List.mem_cons, List.not_mem_nil, or_false] at hr
    have hplain : ∀ v : Text, v.head? ≠ some QUOTE →
      (v.all fun c => c ≠ DELIMITER ∧ c ≠ CR ∧ c ≠ LF) = true →
        Written.Admissible marks ⟨v, false⟩ :=
      fun v hq hf _ => ⟨hq, fun c hc => of_decide_eq_true (List.all_eq_true.mp hf c hc)⟩
    obtain rfl | rfl := hr
    · refine ⟨?_, by simp⟩
      intro w hw
      simp only [List.mem_cons, List.not_mem_nil, or_false] at hw
      obtain rfl | rfl := hw
      · exact hplain _ (by decide) (by decide)
      · exact hplain _ (by decide) (by decide)
    · refine ⟨?_, by simp⟩
      intro w hw
      simp only [List.mem_cons, List.not_mem_nil, or_false] at hw
      obtain rfl | rfl := hw
      · exact hplain _ (by decide) (by decide)
      · exact fun h => by cases h
  unmarked _ r hr := by
    cases hr
    decide

theorem parseCsvRecords_exact_quoted :
    (parseCsvRecords (write marks false false quotedPassword)).rows.map (·.values) =
      [[ascii "name", ascii "password"], [ascii "mail", ascii "pa\"s,s"]] :=
  ((parseCsvRecords_exact []).2.2 false false quotedPassword quotedPassword_admissible).2

end Keyhole.Import
