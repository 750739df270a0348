import Keyhole.Import.Grammar
import Keyhole.Import.Lines

/-!
# A header read from the beginning of a file

A file cut short gives the header the whole file gives, except that the cell
at the cut may be the beginning of a longer one and that cells may follow.
-/

namespace Keyhole.Import

/-- `cut` is the last cell of the one row, and the beginning of a cell of the other. -/
def Extends (row row' : List Text) : Prop :=
  ∃ before cut cell more, row = before ++ [cut] ∧ row' = before ++ cell :: more ∧ cut <+: cell

theorem Extends.refl (before : List Text) (cut : Text) : Extends (before ++ [cut]) (before ++ [cut]) :=
  ⟨before, cut, cut, [], rfl, rfl, List.prefix_rfl⟩

theorem Extends.trans {a b c : List Text} (hab : Extends a b) (hbc : Extends b c) : Extends a c := by
  obtain ⟨before, cut, cell, more, rfl, rfl, hcut⟩ := hab
  obtain ⟨before', cut', cell', more', hb, rfl, hcut'⟩ := hbc
  cases more with
  | nil =>
    obtain ⟨rfl, hcell⟩ := List.append_inj' hb rfl
    obtain ⟨rfl, -⟩ := List.cons.inj hcell
    exact ⟨before, cut, cell', more', rfl, rfl, hcut.trans hcut'⟩
  | cons next more =>
    obtain ⟨last, hlast⟩ : ∃ last, before' = before ++ cell :: last := by
      have hne := List.dropLast_append_getLast (List.cons_ne_nil next more)
      refine ⟨(next :: more).dropLast, ?_⟩
      have hd := congrArg List.dropLast hb
      rw [List.dropLast_append_of_ne_nil (by simp), List.dropLast_cons_of_ne_nil (by simp)] at hd
      simpa using hd.symm
    subst hlast
    exact ⟨before, cut, cell, last ++ cell' :: more', rfl, by simp, hcut⟩

theorem Extends.ne_blank {a b : List Text} (h : Extends a b) (ha : a ≠ [[]]) : b ≠ [[]] := by
  obtain ⟨before, cut, cell, more, rfl, rfl, hcut⟩ := h
  intro he
  cases before with
  | nil =>
    obtain ⟨rfl, -⟩ := List.cons.inj he
    exact ha (by rw [List.prefix_nil.mp hcut, List.nil_append])
  | cons first before => exact absurd (congrArg List.length he) (by simp)

/-! ## The record in progress -/

/-- The cells of the record in progress, the last one as far as it is read. -/
def Scan.cells (st : Scan) : List Text := st.fields ++ [st.field]

/-- A quote is remembered for as long as its record is in progress. -/
structure Scan.Quoting (st : Scan) : Prop where
  field : st.inQuotes = true → st.fieldWasQuoted = true
  record : st.recordHadQuote = true → st.fieldWasQuoted = true ∨ st.fields ≠ []

theorem start_quoting : Scan.start.Quoting :=
  ⟨fun h => absurd h Bool.false_ne_true, fun h => absurd h Bool.false_ne_true⟩

theorem step_quoting (st : Scan) (ch : CodeUnit) (next : Option CodeUnit) (h : st.Quoting) :
    (st.step ch next).1.Quoting := by
  rcases step_cases st ch next with ⟨c, he⟩ | ⟨hin, he⟩ | he | he | ⟨hin, he⟩ | ⟨hin, he⟩
  · rw [he]
    exact ⟨h.field, h.record⟩
  · rw [he]
    unfold Scan.close
    split <;> exact ⟨fun hq => absurd hq Bool.false_ne_true, h.record⟩
  · rw [he]
    exact ⟨h.field, h.record⟩
  · rw [he]
    exact ⟨fun _ => rfl, fun _ => .inl rfl⟩
  · rw [he]
    exact ⟨fun hq => absurd hq (by simp [Scan.endField, hin]), fun _ => .inr (by simp [Scan.endField])⟩
  · rw [he]
    exact ⟨fun hq => absurd hq (by simp [Scan.terminate, Scan.endRecord, Scan.endField, hin]),
      fun hq => absurd hq Bool.false_ne_true⟩

theorem Scan.Quoting.pending {st : Scan} (h : st.Quoting) (hq : st.recordHadQuote = true) : st.pending = true := by
  unfold Scan.pending
  rcases h.record hq with hf | hf
  · simp [hf]
  · cases hc : st.fields with
    | nil => exact absurd hc hf
    | cons cell cells => simp

/-- A record that continues `cells`; `quoted` when one of them had a quote. -/
structure RawRecord.Completes (r : RawRecord) (cells : List Text) (quoted : Bool) : Prop where
  extends_cells : Extends cells r.fields
  blank : r.blank = true → r.fields = [[]] ∧ quoted = false

theorem endRecord_records (st : Scan) :
    ∃ r : RawRecord, st.endRecord.records = st.records ++ [r] ∧ r.fields = st.cells ∧
      (r.blank = true ↔ r.fields = [[]] ∧ st.recordHadQuote = false) := by
  refine ⟨_, rfl, rfl, ?_⟩
  simp only [Scan.endField, Bool.and_eq_true, beq_iff_eq, Bool.not_eq_true']
  constructor
  · rintro ⟨⟨hq, hlen⟩, hhead⟩
    obtain ⟨c, hc⟩ := List.length_eq_one_iff.mp hlen
    rw [hc, List.head?_cons, Option.some.injEq] at hhead
    exact ⟨hc.trans (by rw [hhead]), hq⟩
  · rintro ⟨hc, hq⟩
    rw [hc]
    exact ⟨⟨hq, rfl⟩, rfl⟩

/-- From a state in which `cells` were in progress after `records`. -/
def Continues (records : List RawRecord) (cells : List Text) (quoted : Bool) (st : Scan) : Prop :=
  (st.records = records ∧ Extends cells st.cells ∧ (quoted = true → st.recordHadQuote = true)) ∨
    ∃ r rest, st.records = records ++ r :: rest ∧ r.Completes cells quoted

section
variable {records : List RawRecord} {cells : List Text} {quoted : Bool} {st : Scan}

theorem endRecord_continues (h : Continues records cells quoted st) :
    ∃ r rest, st.endRecord.records = records ++ r :: rest ∧ r.Completes cells quoted := by
  obtain ⟨last, hlast, hfields, hblank⟩ := endRecord_records st
  rcases h with ⟨hrec, hcells, hq⟩ | ⟨r, rest, hrec, hcells⟩
  · refine ⟨last, [], by rw [hlast, hrec], hfields ▸ hcells, fun hb => ?_⟩
    obtain ⟨he, hn⟩ := hblank.mp hb
    exact ⟨he, by simpa [hn] using hq⟩
  · exact ⟨r, rest ++ [last], by rw [hlast, hrec, List.append_assoc, List.cons_append], hcells⟩

theorem step_continues (st : Scan) (ch : CodeUnit) (next : Option CodeUnit)
    (h : Continues records cells quoted st) :
    Continues records cells quoted (st.step ch next).1 := by
  have hkeep : ∀ st' : Scan, st'.records = st.records → Extends st.cells st'.cells →
      (st.recordHadQuote = true → st'.recordHadQuote = true) → Continues records cells quoted st' := by
    intro st' hr hc hq'
    rcases h with ⟨hrec, hcells, hq⟩ | ⟨r, rest, hrec, hcells⟩
    · exact .inl ⟨hr.trans hrec, hcells.trans hc, fun h => hq' (hq h)⟩
    · exact .inr ⟨r, rest, hr.trans hrec, hcells⟩
  have hsame : Extends st.cells st.cells := Extends.refl st.fields st.field
  have hpush : ∀ c, Extends st.cells (st.push c).cells := fun c =>
    ⟨st.fields, st.field, st.field ++ [c], [], rfl, rfl, List.prefix_append _ _⟩
  rcases step_cases st ch next with ⟨c, he⟩ | ⟨-, he⟩ | he | he | ⟨-, he⟩ | ⟨-, he⟩
  · rw [he]
    exact hkeep _ rfl (hpush c) id
  · rw [he]
    unfold Scan.close
    split <;> exact hkeep _ rfl hsame id
  · rw [he]
    exact hkeep _ rfl (hpush ch) id
  · rw [he]
    exact hkeep _ rfl hsame fun _ => rfl
  · rw [he]
    exact hkeep _ rfl ⟨st.fields, st.field, st.field, [[]], rfl, by simp [Scan.cells, Scan.endField],
      List.prefix_rfl⟩ id
  · rw [he]
    exact .inr (endRecord_continues h)

theorem finish_records (st : Scan) :
    st.finish.records = if st.pending then st.endRecord.records else st.records := by
  unfold Scan.finish
  cases hin : st.inQuotes with
  | false =>
    simp only [Bool.false_eq_true, if_false]
    split <;> rfl
  | true =>
    have hp : st.pending = true ∧ st.reportUnclosed.pending = true := by
      unfold Scan.pending Scan.reportUnclosed
      simp [hin]
    simp only [if_true, hp.1, hp.2]
    rfl

theorem finish_keeps (h : Continues records cells quoted st) : records <+: st.finish.records := by
  rw [finish_records]
  split
  · obtain ⟨r, rest, hrec, -⟩ := endRecord_continues h
    exact ⟨r :: rest, hrec.symm⟩
  · rcases h with ⟨hrec, -⟩ | ⟨r, rest, hrec, -⟩
    · exact hrec ▸ List.prefix_rfl
    · exact ⟨r :: rest, hrec.symm⟩

theorem finish_continues (h : Continues records cells quoted st) (hst : st.Quoting)
    (hne : cells ≠ [[]] ∨ quoted = true) :
    ∃ r rest, st.finish.records = records ++ r :: rest ∧ r.Completes cells quoted := by
  rw [finish_records]
  split
  · exact endRecord_continues h
  · next hp =>
    rcases h with ⟨hrec, hcells, hq⟩ | hdone
    · rcases hne with hne | hne
      · have hblank := hcells.ne_blank hne
        unfold Scan.pending at hp
        simp only [Bool.or_eq_true, bne_iff_ne, ne_eq, Bool.not_eq_true', List.isEmpty_eq_false_iff,
          not_or, not_not,
          Bool.not_eq_true] at hp
        exact absurd (by rw [Scan.cells, hp.1.1.1, hp.1.1.2, List.nil_append]) hblank
      · exact absurd (hst.pending (hq hne)) hp
    · exact hdone

end

/-! ## The cut -/

/-- Only a quote at the cut is read otherwise: what follows may show that it is data. -/
theorem step_lookahead (st : Scan) (ch : CodeUnit) (next : Option CodeUnit) :
    (st.step ch next).1.records = (st.step ch none).1.records ∧
      (st.step ch next).1.fields = (st.step ch none).1.fields ∧
      (st.step ch none).1.field <+: (st.step ch next).1.field ∧
      ((st.step ch none).1.recordHadQuote = true → (st.step ch next).1.recordHadQuote = true) := by
  have hclose : ∀ next, (st.close next).records = st.records ∧ (st.close next).fields = st.fields ∧
      (st.close next).field = st.field ∧ (st.close next).recordHadQuote = st.recordHadQuote := by
    intro next
    unfold Scan.close
    split <;> exact ⟨rfl, rfl, rfl, rfl⟩
  unfold Scan.step
  by_cases hin : st.inQuotes = true
  · simp only [hin, if_true]
    by_cases hch : ch = QUOTE
    · simp only [hch, if_true, reduceCtorEq, if_false]
      obtain ⟨hr, hf, hd, hq⟩ := hclose none
      by_cases hn : next = some QUOTE
      · simp only [hn, if_true]
        exact ⟨hr.symm, hf.symm, hd ▸ List.prefix_append _ _, fun h => hq ▸ h⟩
      · simp only [hn, if_false]
        obtain ⟨hr', hf', hd', hq'⟩ := hclose next
        exact ⟨hr'.trans hr.symm, hf'.trans hf.symm,
          (hd.trans hd'.symm) ▸ List.prefix_rfl, by rw [hq, hq']; exact id⟩
    · rw [if_neg hch, if_neg hch]
      exact ⟨rfl, rfl, List.prefix_rfl, id⟩
  · simp only [hin, Bool.false_eq_true, if_false]
    split
    · exact ⟨rfl, rfl, List.prefix_rfl, id⟩
    · split
      · exact ⟨rfl, rfl, List.prefix_rfl, id⟩
      · split <;> exact ⟨rfl, rfl, List.prefix_rfl, id⟩

theorem run_cut (st : Scan) (before after : Text) :
    ∃ (st' : Scan) (rest : Text), st.run (before ++ after) = st'.run rest ∧
      st'.records = (st.run before).records ∧
      st'.fields = (st.run before).fields ∧ (st.run before).field <+: st'.field ∧
      ((st.run before).recordHadQuote = true → st'.recordHadQuote = true) ∧ (st.Quoting → st'.Quoting) := by
  induction hn : before.length using Nat.strongRecOn generalizing st before with
  | _ n ih =>
    match before with
    | [] => exact ⟨st, after, rfl, rfl, rfl, List.prefix_rfl, id, id⟩
    | [ch] =>
      obtain ⟨hr, hf, hd, hq⟩ := step_lookahead st ch after.head?
      exact ⟨_, _, by rw [List.cons_append, List.nil_append, run_cons], hr, hf, hd, hq,
        step_quoting st ch after.head?⟩
    | ch :: next :: before =>
      rw [List.cons_append, run_cons, run_cons, List.cons_append, List.head?_cons, List.head?_cons, List.tail_cons,
        List.tail_cons]
      have hquoting := step_quoting st ch (some next)
      cases (st.step ch (some next)).2 with
      | true =>
        obtain ⟨st', rest, h⟩ := ih before.length (by simp at hn; omega) (st.step ch (some next)).1 before rfl
        exact ⟨st', rest, h.1, h.2.1, h.2.2.1, h.2.2.2.1, h.2.2.2.2.1, fun hq => h.2.2.2.2.2 (hquoting hq)⟩
      | false =>
        obtain ⟨st', rest, h⟩ := ih (next :: before).length (by simp at hn ⊢; omega) (st.step ch (some next)).1
          (next :: before) rfl
        exact ⟨st', rest, h.1, h.2.1, h.2.2.1, h.2.2.2.1, h.2.2.2.2.1, fun hq => h.2.2.2.2.2 (hquoting hq)⟩

/-! ## The header -/

def headRow (records : List RawRecord) : Option (List Text) := (values records).head?

theorem header_eq (text : Text) : (parseCsv text).header = (headRow (scan (withoutBom text)).records).getD [] := by
  unfold parseCsv headRow values
  simp only
  split
  · next h => rw [h]; rfl
  · next r rest h => rw [h]; rfl

theorem headRow_append {records : List RawRecord} {row : List Text} (h : headRow records = some row)
    (more : List RawRecord) : headRow (records ++ more) = some row := by
  unfold headRow at h ⊢
  rw [values_append, List.head?_append, h, Option.some_or]

theorem headRow_next {records : List RawRecord} (h : headRow records = none) (r : RawRecord)
    (rest : List RawRecord) :
    headRow (records ++ r :: rest) = if r.blank then headRow rest else some r.fields := by
  unfold headRow at h ⊢
  rw [values_append, List.head?_append, h, Option.none_or]
  unfold values
  cases hb : r.blank <;> simp [hb]

theorem headRow_cut (before after : Text) {row : List Text} (h : headRow (scan before).records = some row) :
    headRow (scan (before ++ after)).records = some row ∨
      ∃ row', headRow (scan (before ++ after)).records = some row' ∧ Extends row row' := by
  have hwhole : (scan (before ++ after)).records = (Scan.start.run (before ++ after)).finish.records := rfl
  obtain ⟨st', rest, hrun, hr, hf, hd, hq, hquoting⟩ := run_cut Scan.start before after
  change headRow (Scan.start.run before).finish.records = some row at h
  generalize Scan.start.run before = st at h hr hf hd hq
  have hcont : Continues st.records st.cells st.recordHadQuote (st'.run rest) :=
    run_invariant step_continues
      (.inl ⟨hr, ⟨st.fields, st.field, st'.field, [], rfl, by rw [Scan.cells, hf], hd⟩, hq⟩) rest
  rw [hwhole, hrun]
  cases hfirst : headRow st.records with
  | some first =>
    -- the header was complete before the cut
    obtain ⟨more, hmore⟩ := finish_keeps hcont
    have hnow : Continues st.records st.cells st.recordHadQuote st :=
      .inl ⟨rfl, Extends.refl st.fields st.field, id⟩
    obtain ⟨last, hlast⟩ := finish_keeps hnow
    rw [← hlast, headRow_append hfirst] at h
    exact .inl (by rw [← hmore, headRow_append hfirst, h])
  | none =>
    rw [finish_records] at h
    split at h
    · obtain ⟨r, hrec, hcells, hblank⟩ := endRecord_records st
      rw [hrec, headRow_next hfirst, hcells] at h
      split at h
      · cases h
      · next hb =>
        cases h
        rw [hblank, hcells, not_and_or, Bool.not_eq_false] at hb
        obtain ⟨r', rest', hrec', hext⟩ := finish_continues hcont
          (run_invariant step_quoting (hquoting start_quoting) rest) hb
        have hseen : r'.blank = false := by
          by_contra hblank'
          obtain ⟨hfields, hn⟩ := hext.blank (by simpa using hblank')
          rcases hb with hb | hb
          · exact hext.extends_cells.ne_blank hb hfields
          · rw [hn] at hb
            cases hb
        exact .inr ⟨r'.fields, by rw [hrec', headRow_next hfirst, hseen]; rfl, hext.extends_cells⟩
    · rw [hfirst] at h
      cases h

theorem withoutBom_take (text : Text) (n : Nat) :
    ∃ m after, withoutBom (text.take (n + 1)) = (withoutBom text).take m ∧
    withoutBom text = (withoutBom text).take m ++ after := by
  unfold withoutBom
  cases text with
  | nil => exact ⟨0, [], rfl, rfl⟩
  | cons c text =>
    simp only [List.take_succ_cons, List.head?_cons, List.tail_cons, Option.some.injEq]
    by_cases h : c = BOM
    · rw [if_pos h, if_pos h]
      exact ⟨n, text.drop n, rfl, (List.take_append_drop n text).symm⟩
    · rw [if_neg h, if_neg h]
      exact ⟨n + 1, text.drop n, rfl, by rw [List.take_succ_cons, List.cons_append, List.take_append_drop]⟩

theorem header_take (text : Text) (n : Nat) (hne : (parseCsv (text.take (n + 1))).header ≠ []) :
    (parseCsv (text.take (n + 1))).header = (parseCsv text).header ∨
      Extends (parseCsv (text.take (n + 1))).header (parseCsv text).header := by
  obtain ⟨m, after, hcut, hwhole⟩ := withoutBom_take text n
  rw [header_eq, hcut] at hne ⊢
  cases hrow : headRow (scan ((withoutBom text).take m)).records with
  | none =>
    rw [hrow] at hne
    exact absurd rfl hne
  | some row =>
    have hfull : (parseCsv text).header = (headRow (scan ((withoutBom text).take m ++ after)).records).getD [] := by
      rw [header_eq, ← hwhole]
    rw [Option.getD_some, hfull]
    rcases headRow_cut _ after hrow with h | ⟨row', h, hext⟩
    · exact .inl (by rw [h, Option.getD_some])
    · exact .inr (by rw [h, Option.getD_some]; exact hext)

end Keyhole.Import
