import Keyhole.Import.Scanning

/-!
# Records and their lines

A record is on a line of its own, every error names the line of a record, and
after a terminator the scanner is where it would be at the start of a file.
-/

namespace Keyhole.Import

/-! ## Resuming after a record -/

/-- From one position of the scanner to another, over a part of the text. -/
inductive Steps (st : Scan) (t : Text) : Scan → Text → Prop
  | refl : Steps st t st t
  | step {st' : Scan} {ch : CodeUnit} {t' : Text} (h : Steps st t st' (ch :: t')) :
      Steps st t (st'.step ch t'.head?).1 (if (st'.step ch t'.head?).2 then t'.tail else t')

theorem Steps.run {st st' : Scan} {t t' : Text} (h : Steps st t st' t') : st.run t = st'.run t' := by
  induction h with
  | refl => rfl
  | step h ih => rw [ih, run_cons]

def Scan.openedAt (st : Scan) (q : Nat) : Scan := { st with quoteOpenedLine := q }

theorem step_openedAt {st : Scan} (hin : st.inQuotes = false) (q : Nat) (ch : CodeUnit) (next : Option CodeUnit) :
    (st.openedAt q).step ch next = st.step ch next ∨
      ((st.openedAt q).step ch next = ((st.step ch next).1.openedAt q, (st.step ch next).2) ∧
        (st.step ch next).1.inQuotes = false) := by
  have hin' : (st.openedAt q).inQuotes = false := hin
  unfold Scan.step
  rw [hin, hin']
  simp only [Bool.false_eq_true, if_false]
  by_cases hopen : (ch = QUOTE && st.field == [] && !st.fieldWasQuoted) = true
  · left
    rw [if_pos hopen, if_pos (by exact hopen)]
    rfl
  · right
    rw [if_neg hopen, if_neg (by exact hopen)]
    split
    · exact ⟨rfl, hin⟩
    · split
      · exact ⟨rfl, hin⟩
      · exact ⟨rfl, hin⟩

theorem quoteOpenedLine_unread {st : Scan} (hin : st.inQuotes = false) (q : Nat) (t : Text) :
    ((st.openedAt q).run t).finish.result = (st.run t).finish.result := by
  induction hn : t.length using Nat.strongRecOn generalizing st t with
  | _ n ih =>
    cases t with
    | nil =>
      change (st.openedAt q).finish.result = st.finish.result
      rw [finish_closed hin, finish_closed (show (st.openedAt q).inQuotes = false from hin)]
      rw [show (st.openedAt q).pending = st.pending from rfl]
      cases st.pending <;> rfl
    | cons ch t =>
      rw [run_cons, run_cons]
      cases step_openedAt hin q ch t.head? with
      | inl h => rw [h]
      | inr h =>
        rw [h.1]
        refine ih _ ?_ h.2 _ rfl
        cases (st.step ch t.head?).2 <;> simp at hn ⊢ <;> omega

theorem terminate_eq {st : Scan} (h : st.inQuotes = false) : st.terminate =
    (Scan.start.shift st.line st.terminate.records st.terminate.errors).openedAt st.terminate.quoteOpenedLine := by
  unfold Scan.terminate Scan.endRecord Scan.endField Scan.shift Scan.openedAt
  simp [Scan.start, h, Nat.add_comm]

def afterEnding (ch : CodeUnit) (rest : Text) : Text := if ch = CR ∧ rest.head? = some LF then rest.tail else rest

/-- After the terminator of a record, damaged or not, the rest of the text is scanned as if it stood alone. -/
theorem scan_resume {text rest : Text} {st : Scan} {ch : CodeUnit} (h : Steps Scan.start text st (ch :: rest))
    (hin : st.inQuotes = false) (hch : ch = CR ∨ ch = LF) : scan text =
      ⟨st.terminate.records ++ (scan (afterEnding ch rest)).records.map (·.shift st.line),
        st.terminate.errors ++ (scan (afterEnding ch rest)).errors.map (·.shift st.line)⟩ := by
  have hstep : st.run (ch :: rest) = st.terminate.run (afterEnding ch rest) := by
    rw [run_cons, step_ending hin hch]
    simp [afterEnding]
  unfold scan
  rw [h.run, hstep, terminate_eq hin, quoteOpenedLine_unread rfl, run_shift, finish_shift, ← terminate_eq hin]
  rfl

/-! ## The order of the lines -/

theorem run_invariant {P : Scan → Prop} (hstep : ∀ st ch next, P st → P (st.step ch next).1) {st : Scan}
    (h : P st) (t : Text) : P (st.run t) := by
  induction hn : t.length using Nat.strongRecOn generalizing st t with
  | _ n ih =>
    cases t with
    | nil => exact h
    | cons ch t =>
      rw [run_cons]
      refine ih _ ?_ (hstep st ch t.head? h) _ rfl
      cases (st.step ch t.head?).2 <;> simp at hn ⊢ <;> omega

theorem step_cases (st : Scan) (ch : CodeUnit) (next : Option CodeUnit) :
    (∃ c, (st.step ch next).1 = st.push c) ∨ (st.inQuotes = true ∧ (st.step ch next).1 = st.close next) ∨
    (st.step ch next).1 = st.quotedData ch ∨ (st.step ch next).1 = st.open ∨
    (st.inQuotes = false ∧ (st.step ch next).1 = st.endField) ∨
    (st.inQuotes = false ∧ (st.step ch next).1 = st.terminate) := by
  unfold Scan.step
  cases hin : st.inQuotes with
  | true =>
    simp only [if_true]
    by_cases hch : ch = QUOTE
    · by_cases hn : next = some QUOTE
      · exact Or.inl ⟨QUOTE, by simp [hch, hn]⟩
      · exact Or.inr (Or.inl ⟨trivial, by simp [hch, hn]⟩)
    · exact Or.inr (Or.inr (Or.inl (by simp [hch])))
  | false =>
    simp only [Bool.false_eq_true, if_false]
    split
    · exact Or.inr (Or.inr (Or.inr (Or.inl rfl)))
    · split
      · exact Or.inr (Or.inr (Or.inr (Or.inr (Or.inl ⟨trivial, rfl⟩))))
      · split
        · exact Or.inr (Or.inr (Or.inr (Or.inr (Or.inr ⟨trivial, rfl⟩))))
        · exact Or.inl ⟨ch, rfl⟩

/-- An error is at the line of a record that is not blank, or of the current one. -/
def Scan.Named (st : Scan) : Prop :=
  ∀ e ∈ st.errors, (e.row = st.recordLine ∧ st.recordHadQuote = true) ∨
    ∃ r ∈ st.records, r.line = e.row ∧ r.blank = false

/-- The records come line after line. -/
structure Scan.Ordered (st : Scan) : Prop where
  increasing : (st.records.map (·.line)).Pairwise (· < ·)
  before : ∀ r ∈ st.records, r.line < st.recordLine
  line : st.recordLine ≤ st.line
  named : st.Named
  quoted : st.inQuotes = true → st.fieldWasQuoted = true ∧ st.recordHadQuote = true
  begun : st.recordHadQuote = true → st.fieldWasQuoted = true ∨ st.fields ≠ []

theorem endRecord_named {st : Scan} (h : st.Named) :
    ∀ e ∈ st.endRecord.errors, ∃ r ∈ st.endRecord.records, r.line = e.row ∧ r.blank = false := by
  intro e he
  cases h e he with
  | inl hcur =>
    refine ⟨_, List.mem_append_right _ (List.mem_singleton_self _), hcur.1.symm, ?_⟩
    simp [hcur.2, Scan.endField]
  | inr hold =>
    obtain ⟨r, hr, hline⟩ := hold
    exact ⟨r, List.mem_append_left _ hr, hline⟩

theorem endRecord_increasing {st : Scan} (h : (st.records.map (·.line)).Pairwise (· < ·))
    (hbefore : ∀ r ∈ st.records, r.line < st.recordLine) :
    (st.endRecord.records.map (·.line)).Pairwise (· < ·) := by
  unfold Scan.endRecord Scan.endField
  rw [List.map_append, List.pairwise_append]
  refine ⟨h, by simp, ?_⟩
  intro a ha b hb
  obtain ⟨r, hr, rfl⟩ := List.mem_map.mp ha
  simp only [List.map_cons, List.map_nil, List.mem_singleton] at hb
  subst hb
  exact hbefore r hr

theorem terminate_ordered {st : Scan} (h : st.Ordered) (hin : st.inQuotes = false) : st.terminate.Ordered where
  increasing := endRecord_increasing h.increasing h.before
  before r hr := by
    have hline := h.line
    change r.line < st.line + 1
    cases List.mem_append.mp hr with
    | inl hold =>
      have hr' := h.before r hold
      omega
    | inr hnew =>
      rw [List.mem_singleton.mp hnew]
      change st.recordLine < st.line + 1
      omega
  line := Nat.le_refl _
  named e he := Or.inr (endRecord_named h.named e he)
  quoted hq := by
    rw [show st.terminate.inQuotes = st.inQuotes from rfl, hin] at hq
    cases hq
  begun hq := by cases hq

theorem close_ordered {st : Scan} (h : st.Ordered) (hin : st.inQuotes = true) (next : Option CodeUnit) :
    (st.close next).Ordered := by
  obtain ⟨hwas, hhad⟩ := h.quoted hin
  unfold Scan.close
  split
  · refine ⟨h.increasing, h.before, h.line, ?_, Bool.noConfusion, fun _ => Or.inl hwas⟩
    intro e he
    cases List.mem_append.mp he with
    | inl hold => exact h.named e hold
    | inr hnew => exact Or.inl ⟨by rw [List.mem_singleton.mp hnew], hhad⟩
  · exact ⟨h.increasing, h.before, h.line, h.named, Bool.noConfusion, fun _ => Or.inl hwas⟩

theorem open_ordered {st : Scan} (h : st.Ordered) : st.open.Ordered where
  increasing := h.increasing
  before := h.before
  line := h.line
  named e he := by
    cases h.named e he with
    | inl hcur => exact Or.inl ⟨hcur.1, rfl⟩
    | inr hold => exact Or.inr hold
  quoted _ := ⟨rfl, rfl⟩
  begun _ := Or.inl rfl

theorem step_ordered (st : Scan) (ch : CodeUnit) (next : Option CodeUnit) (h : st.Ordered) :
    (st.step ch next).1.Ordered := by
  obtain ⟨c, he⟩ | ⟨hin, he⟩ | he | he | ⟨hin, he⟩ | ⟨hin, he⟩ := step_cases st ch next
  · rw [he]
    exact ⟨h.increasing, h.before, h.line, h.named, h.quoted, h.begun⟩
  · rw [he]
    exact close_ordered h hin next
  · rw [he]
    refine ⟨h.increasing, h.before, ?_, h.named, h.quoted, h.begun⟩
    have hline := h.line
    unfold Scan.quotedData
    by_cases hlf : ch = LF
    · simp only [hlf, if_true]
      omega
    · simp only [hlf, if_false]
      exact hline
  · rw [he]
    exact open_ordered h
  · rw [he]
    refine ⟨h.increasing, h.before, h.line, h.named, fun hq => ?_, fun _ => Or.inr (by simp [Scan.endField])⟩
    rw [show st.endField.inQuotes = st.inQuotes from rfl, hin] at hq
    cases hq
  · rw [he]
    exact terminate_ordered h hin

theorem start_ordered : Scan.start.Ordered where
  increasing := List.Pairwise.nil
  before r hr := by cases hr
  line := Nat.le_refl _
  named e he := by cases he
  quoted hq := by cases hq
  begun hq := by cases hq

theorem scan_ordered (text : Text) : ((scan text).records.map (·.line)).Pairwise (· < ·) ∧
    ∀ e ∈ (scan text).errors, ∃ r ∈ (scan text).records, r.line = e.row ∧ r.blank = false := by
  have h : (Scan.start.run text).Ordered := run_invariant step_ordered start_ordered text
  unfold scan
  revert h
  generalize Scan.start.run text = st
  intro h
  cases hin : st.inQuotes with
  | true =>
    rw [finish_unclosed hin]
    refine ⟨endRecord_increasing h.increasing h.before, @endRecord_named st.reportUnclosed ?_⟩
    intro e he
    cases List.mem_append.mp he with
    | inl hold => exact h.named e hold
    | inr hnew => exact Or.inl ⟨by rw [List.mem_singleton.mp hnew]; rfl, (h.quoted hin).2⟩
  | false =>
    rw [finish_closed hin]
    cases hp : st.pending with
    | true => exact ⟨endRecord_increasing h.increasing h.before, endRecord_named h.named⟩
    | false =>
      refine ⟨h.increasing, fun e he => ?_⟩
      cases h.named e he with
      | inr hold => exact hold
      | inl hcur =>
        simp only [Scan.pending, Bool.or_eq_false_iff] at hp
        cases h.begun hcur.2 with
        | inl hwas => simp [hwas] at hp
        | inr hfields => simp [hfields] at hp

/-! ## The size of a field -/

def Scan.Within (n : Nat) (st : Scan) : Prop :=
  st.field.length ≤ n ∧ (∀ f ∈ st.fields, f.length ≤ n) ∧
    ∀ r ∈ st.records, ∀ f ∈ r.fields, f.length ≤ n

theorem endField_within {n : Nat} {st : Scan} (h : st.Within n) : st.endField.Within n := by
  obtain ⟨hfield, hfields, hrecords⟩ := h
  refine ⟨Nat.zero_le n, ?_, hrecords⟩
  intro f hf
  cases List.mem_append.mp hf with
  | inl hold => exact hfields f hold
  | inr hnew =>
    rw [List.mem_singleton.mp hnew]
    exact hfield

theorem endRecord_within {n : Nat} {st : Scan} (h : st.Within n) : st.endRecord.Within n := by
  obtain ⟨hfield, hfields, hrecords⟩ := endField_within h
  refine ⟨hfield, fun f hf => (by cases hf), ?_⟩
  intro r hr
  cases List.mem_append.mp hr with
  | inl hold => exact hrecords r hold
  | inr hnew =>
    rw [List.mem_singleton.mp hnew]
    exact hfields

theorem Scan.Within.mono {n m : Nat} {st : Scan} (h : st.Within n) (hnm : n ≤ m) : st.Within m :=
  ⟨Nat.le_trans h.1 hnm, fun f hf => Nat.le_trans (h.2.1 f hf) hnm,
    fun r hr f hf => Nat.le_trans (h.2.2 r hr f hf) hnm⟩

theorem step_within {n : Nat} {st : Scan} (h : st.Within n) (ch : CodeUnit) (next : Option CodeUnit) :
    (st.step ch next).1.Within (n + 1) := by
  have hlater := h.mono (Nat.le_succ n)
  have hlonger : ∀ c : CodeUnit, (st.field ++ [c]).length ≤ n + 1 := by
    intro c
    have hfield := h.1
    rw [List.length_append, List.length_singleton]
    omega
  obtain ⟨c, he⟩ | ⟨-, he⟩ | he | he | ⟨-, he⟩ | ⟨-, he⟩ := step_cases st ch next
  · rw [he]
    exact ⟨hlonger c, hlater.2⟩
  · rw [he]
    unfold Scan.close
    split
    · exact hlater
    · exact hlater
  · rw [he]
    exact ⟨hlonger ch, hlater.2⟩
  · rw [he]
    exact hlater
  · rw [he]
    exact endField_within hlater
  · rw [he]
    exact endRecord_within hlater

theorem run_within {n : Nat} {st : Scan} (h : st.Within n) (t : Text) : (st.run t).Within (n + t.length) := by
  induction hn : t.length using Nat.strongRecOn generalizing n st t with
  | _ k ih =>
    cases t with
    | nil =>
      subst hn
      exact h
    | cons ch t =>
      rw [run_cons]
      have hshort : (if (st.step ch t.head?).2 then t.tail else t).length + 1 ≤ k := by
        cases (st.step ch t.head?).2 <;> simp at hn ⊢ <;> omega
      exact (ih _ hshort (step_within h ch t.head?) _ rfl).mono (by omega)

theorem scan_within (text : Text) : ∀ r ∈ (scan text).records, ∀ f ∈ r.fields, f.length ≤ text.length := by
  have hrun : (Scan.start.run text).Within (0 + text.length) :=
    run_within ⟨Nat.le_refl 0, fun f hf => (by cases hf), fun r hr => (by cases hr)⟩ text
  rw [Nat.zero_add] at hrun
  have hfinish : (Scan.start.run text).finish.Within text.length := by
    unfold Scan.finish
    cases (Scan.start.run text).inQuotes with
    | true =>
      simp only [if_true]
      split
      · exact endRecord_within hrun
      · exact hrun
    | false =>
      simp only [Bool.false_eq_true, if_false]
      split
      · exact endRecord_within hrun
      · exact hrun
  exact hfinish.2.2

theorem header_within (text : Text) : ∀ column ∈ (parseCsv text).header, column.length ≤ text.length := by
  have hshort : (withoutBom text).length ≤ text.length := by
    unfold withoutBom
    split
    · simp
    · exact Nat.le_refl _
  have hscan := scan_within (withoutBom text)
  unfold parseCsv
  simp only
  split
  · intro column hc
    cases hc
  · rename_i headerRecord meaningful h
    intro column hc
    have hmem : headerRecord ∈ (scan (withoutBom text)).records :=
      List.mem_of_mem_filter
        (h ▸ List.mem_cons_self : headerRecord ∈ (scan (withoutBom text)).records.filter (!·.blank))
    exact Nat.le_trans (hscan headerRecord hmem column hc) hshort

end Keyhole.Import
