import Keyhole.Import.Csv

/-!
# Scanning from any state

What a scan has returned so far and the line it is at do not matter to what
it does next: it only adds to the one and counts on from the other.
-/

namespace Keyhole.Import

def RawRecord.shift (δ : Nat) (r : RawRecord) : RawRecord := { r with line := r.line + δ }

def ImportRowError.shift (δ : Nat) (e : ImportRowError) : ImportRowError := { e with row := e.row + δ }

/-- The same scan `δ` lines further on, after `records` and `errors`. -/
def Scan.shift (δ : Nat) (records : List RawRecord) (errors : List ImportRowError) (st : Scan) : Scan :=
  { st with
    records := records ++ st.records.map (·.shift δ)
    errors := errors ++ st.errors.map (·.shift δ)
    line := st.line + δ
    recordLine := st.recordLine + δ
    quoteOpenedLine := st.quoteOpenedLine + δ }

variable {δ : Nat} {records : List RawRecord} {errors : List ImportRowError}

/-! ## One code unit -/

theorem endField_shift (st : Scan) :
    (st.shift δ records errors).endField = st.endField.shift δ records errors := rfl

theorem push_shift (st : Scan) (ch : CodeUnit) :
    (st.shift δ records errors).push ch = (st.push ch).shift δ records errors := rfl

theorem open_shift (st : Scan) : (st.shift δ records errors).open = st.open.shift δ records errors := rfl

theorem quotedData_shift (st : Scan) (ch : CodeUnit) :
    (st.shift δ records errors).quotedData ch = (st.quotedData ch).shift δ records errors := by
  unfold Scan.quotedData Scan.shift
  by_cases h : ch = LF
  · simp only [h, if_true]
    congr 1
    omega
  · simp only [h, if_false]

theorem close_shift (st : Scan) (next : Option CodeUnit) :
    (st.shift δ records errors).close next = (st.close next).shift δ records errors := by
  unfold Scan.close
  rw [show (st.shift δ records errors).recordReported = st.recordReported from rfl]
  split
  · unfold Scan.shift
    simp [ImportRowError.shift]
  · rfl

theorem endRecord_shift (st : Scan) :
    (st.shift δ records errors).endRecord = st.endRecord.shift δ records errors := by
  unfold Scan.endRecord Scan.endField Scan.shift
  simp [RawRecord.shift]

theorem terminate_shift (st : Scan) :
    (st.shift δ records errors).terminate = st.terminate.shift δ records errors := by
  unfold Scan.terminate
  rw [endRecord_shift]
  unfold Scan.shift
  simp only [Scan.mk.injEq, true_and, and_true]
  omega

theorem step_shift (st : Scan) (ch : CodeUnit) (next : Option CodeUnit) :
    (st.shift δ records errors).step ch next =
      ((st.step ch next).1.shift δ records errors, (st.step ch next).2) := by
  have hq : (st.shift δ records errors).inQuotes = st.inQuotes := rfl
  have hf : (st.shift δ records errors).field = st.field := rfl
  have hw : (st.shift δ records errors).fieldWasQuoted = st.fieldWasQuoted := rfl
  unfold Scan.step
  rw [hq, hf, hw]
  by_cases hin : st.inQuotes = true
  · simp only [hin, if_true]
    by_cases hch : ch = QUOTE
    · simp only [hch, if_true]
      by_cases hn : next = some QUOTE
      · simp only [hn, if_true, push_shift]
      · simp only [hn, if_false, close_shift]
    · simp only [hch, if_false, quotedData_shift]
  · simp only [hin, Bool.false_eq_true, if_false]
    split
    · rw [open_shift]
    · split
      · rw [endField_shift]
      · split
        · rw [terminate_shift]
        · rw [push_shift]

/-! ## A text -/

theorem run_cons (st : Scan) (ch : CodeUnit) (t : Text) :
    st.run (ch :: t) = (st.step ch t.head?).1.run (if (st.step ch t.head?).2 then t.tail else t) := by
  cases t with
  | nil =>
    rw [Scan.run]
    cases h : (st.step ch none).2 <;> simp [h, Scan.run]
  | cons next t =>
    rw [Scan.run]
    simp only [List.head?_cons, List.tail_cons]
    split
    · rename_i st' h
      simp [h]
    · rename_i st' h
      simp [h]

theorem run_shift (st : Scan) (t : Text) :
    (st.shift δ records errors).run t = (st.run t).shift δ records errors := by
  induction hn : t.length using Nat.strongRecOn generalizing st t with
  | _ n ih =>
    cases t with
    | nil => rfl
    | cons ch t =>
      rw [run_cons, run_cons, step_shift]
      simp only
      cases (st.step ch t.head?).2 with
      | true => exact ih t.tail.length (by simp at hn ⊢; omega) _ _ rfl
      | false => exact ih t.length (by simp at hn ⊢; omega) _ _ rfl

theorem reportUnclosed_shift (st : Scan) :
    (st.shift δ records errors).reportUnclosed = st.reportUnclosed.shift δ records errors := by
  unfold Scan.reportUnclosed Scan.shift
  simp [ImportRowError.shift, Nat.add_sub_add_right]

theorem finish_shift (st : Scan) : (st.shift δ records errors).finish = st.finish.shift δ records errors := by
  have hopen : (if (st.shift δ records errors).inQuotes then (st.shift δ records errors).reportUnclosed
      else st.shift δ records errors) = (if st.inQuotes then st.reportUnclosed else st).shift δ records errors := by
    rw [reportUnclosed_shift]
    exact (apply_ite (Scan.shift δ records errors) _ _ _).symm
  unfold Scan.finish
  simp only [hopen, endRecord_shift]
  exact (apply_ite (Scan.shift δ records errors) _ _ _).symm

theorem shift_self (st : Scan) : ({ st with records := [], errors := [] }).shift 0 st.records st.errors = st := by
  unfold Scan.shift
  simp

theorem errors_stay (st : Scan) (t : Text) : st.errors <+: (st.run t).finish.errors := by
  have h := congrArg Scan.errors (@finish_shift 0 st.records st.errors
    (({ st with records := [], errors := [] } : Scan).run t))
  rw [← run_shift, shift_self] at h
  rw [h]
  exact List.prefix_append _ _

/-! ## Which step it is -/

variable {st : Scan}

theorem step_bare {c : CodeUnit} (hin : st.inQuotes = false)
    (hq : c = QUOTE → st.field ≠ [] ∨ st.fieldWasQuoted = true) (hc : c ≠ DELIMITER ∧ c ≠ CR ∧ c ≠ LF)
    (next : Option CodeUnit) : st.step c next = (st.push c, false) := by
  unfold Scan.step
  simp only [hin, Bool.false_eq_true, if_false, hc.1, hc.2.1, hc.2.2, decide_false, Bool.or_self]
  rw [if_neg]
  simp only [Bool.and_eq_true, decide_eq_true_eq, beq_iff_eq, Bool.not_eq_true']
  rintro ⟨⟨hch, hf⟩, hw⟩
  cases hq hch with
  | inl h => exact h hf
  | inr h => rw [hw] at h; cases h

theorem step_open (hin : st.inQuotes = false) (hf : st.field = []) (hw : st.fieldWasQuoted = false)
    (next : Option CodeUnit) : st.step QUOTE next = (st.open, false) := by
  unfold Scan.step
  simp [hin, hf, hw]

theorem step_comma (hin : st.inQuotes = false) (next : Option CodeUnit) :
    st.step DELIMITER next = (st.endField, false) := by
  unfold Scan.step
  simp [hin, show ¬ DELIMITER = QUOTE by decide]

theorem step_ending {c : CodeUnit} (hin : st.inQuotes = false) (hc : c = CR ∨ c = LF) (next : Option CodeUnit) :
    st.step c next = (st.terminate, c = CR && next = some LF) := by
  have hne : c ≠ QUOTE ∧ c ≠ DELIMITER := by
    cases hc with
    | inl h => subst h; decide
    | inr h => subst h; decide
  unfold Scan.step
  simp [hin, hne.1, hne.2, hc]

theorem step_close (hin : st.inQuotes = true) {next : Option CodeUnit} (hn : next ≠ some QUOTE) :
    st.step QUOTE next = (st.close next, false) := by
  unfold Scan.step
  simp [hin, hn]

/-! ## The end of the file -/

theorem finish_closed (h : st.inQuotes = false) : st.finish = if st.pending then st.endRecord else st := by
  unfold Scan.finish
  simp only [h, Bool.false_eq_true, if_false]

theorem finish_unclosed (h : st.inQuotes = true) : st.finish = st.reportUnclosed.endRecord := by
  have hpending : st.reportUnclosed.pending = true := by simp [Scan.pending, Scan.reportUnclosed, h]
  unfold Scan.finish
  simp only [h, if_true]
  exact if_pos hpending

end Keyhole.Import
