import Keyhole.Import.JsonParsers
import Keyhole.Import.Rows

/-!
# What an error is about

A parser that knows its file says something of a row or of a record. Only a
file that it does not know is refused in a sentence about "this file".
-/

namespace Keyhole.Import

/-! ## What an error is about -/

/-- How a refusal of the whole file begins. -/
def THIS_FILE : Text := ascii "This file"

def AboutRow (e : ImportRowError) : Prop := ¬ THIS_FILE <+: e.message

def OnlyRows {α : Type} (outcome : Except ImportRowError α) : Prop := ∀ e, outcome = .error e → AboutRow e

theorem aboutRow_of_begins {row : Nat} {s t : Text} (hlen : THIS_FILE.length ≤ s.length) (hs : ¬ THIS_FILE <+: s) :
    AboutRow ⟨row, s ++ t⟩ := fun h =>
  hs (List.prefix_of_prefix_length_le h (List.prefix_append s t) hlen)

theorem aboutRow_of_head {row : Nat} {message : Text} (h : message.head? ≠ some (Json.unit 'T')) :
    AboutRow ⟨row, message⟩ := by
  rintro ⟨rest, rfl⟩
  exact h rfl

theorem onlyRows_ok {α : Type} (a : α) : OnlyRows (.ok a : Except ImportRowError α) := nofun

theorem onlyRows_pure {α : Type} (a : α) : OnlyRows (pure a : Except ImportRowError α) := nofun

theorem onlyRows_error {α : Type} {e : ImportRowError} (h : AboutRow e) :
    OnlyRows (.error e : Except ImportRowError α) := by
  intro e' he
  cases he
  exact h

theorem onlyRows_bind {α β : Type} {x : Except ImportRowError α} {f : α → Except ImportRowError β}
    (hx : OnlyRows x) (hf : ∀ a, OnlyRows (f a)) : OnlyRows (x >>= f) := by
  cases x with
  | error e => exact onlyRows_error (hx e rfl)
  | ok a => exact hf a

/-! ## The rows of a CSV -/

theorem onlyRows_surplus (row : CsvRow) (width : Nat) : OnlyRows (refuseSurplus row width) := by
  unfold refuseSurplus surplusFieldsError
  by_cases h : row.extra = []
  · rw [if_pos h]
    exact onlyRows_ok ()
  · rw [if_neg h]
    apply onlyRows_error
    simp only [List.append_assoc]
    exact aboutRow_of_begins (by decide) (by decide)

theorem onlyRows_password (line : Nat) (value : Option Text) : OnlyRows (requiredPassword line value) := by
  have hends : ¬ THIS_FILE <+: ascii "This row ends before its password column" := by decide
  have hempty : ¬ THIS_FILE <+: ascii "This row has an empty password, so it was not imported" := by decide
  cases value with
  | none => exact onlyRows_error hends
  | some value =>
    rw [requiredPassword]
    split
    · exact onlyRows_error hempty
    · exact onlyRows_ok value

section
variable (p : Platform) (columns : Columns) (width : Nat) (row : CsvRow)

theorem browserItem_onlyRows (layout : BrowserLayout) : OnlyRows (browserItem p layout columns width row) :=
  onlyRows_bind (onlyRows_surplus row width) fun _ => onlyRows_bind (onlyRows_password _ _) fun _ => onlyRows_pure _

theorem lastPassItem_onlyRows : OnlyRows (lastPassItem p columns width row) := by
  refine onlyRows_bind (onlyRows_surplus row width) fun _ => ?_
  simp only
  split
  · exact onlyRows_pure _
  · exact onlyRows_bind (onlyRows_password _ _) fun _ => onlyRows_pure _

theorem keePassItem_onlyRows (layout : KeePassLayout) : OnlyRows (keePassItem layout columns width row) := by
  refine onlyRows_bind (onlyRows_surplus row width) fun _ => onlyRows_bind (onlyRows_password _ _) fun _ => ?_
  simp only
  split <;> exact onlyRows_pure _

theorem nordPassItem_onlyRows : OnlyRows (nordPassItem p columns width row) := by
  refine onlyRows_bind (onlyRows_surplus row width) fun _ => ?_
  simp only
  generalize (if word p _ = [] then _ else _ : Option ImportItemType) = kind
  cases kind with
  | none =>
    apply onlyRows_error
    simp only [List.append_assoc]
    exact aboutRow_of_begins (by decide) (by decide)
  | some kind =>
    refine onlyRows_bind ?_ fun _ => onlyRows_pure _
    unfold nordPassLogin
    split
    · exact onlyRows_pure _
    · exact onlyRows_bind (onlyRows_password _ _) fun _ => onlyRows_pure _

theorem dashlaneItem_onlyRows : OnlyRows (dashlaneItem columns width row) :=
  onlyRows_bind (onlyRows_surplus row width) fun _ => onlyRows_bind (onlyRows_password _ _) fun _ => onlyRows_pure _

theorem bitwardenItem_onlyRows : OnlyRows (bitwardenItem p columns width row) := by
  refine onlyRows_bind (onlyRows_surplus row width) fun _ => ?_
  simp only
  generalize (if word p _ = [] then _ else _ : Option ImportItemType) = kind
  cases kind with
  | none =>
    apply onlyRows_error
    simp only [List.append_assoc]
    exact aboutRow_of_begins (by decide) (by decide)
  | some kind =>
    refine onlyRows_bind ?_ fun _ => onlyRows_pure _
    unfold bitwardenLogin
    split
    · exact onlyRows_pure _
    · exact onlyRows_bind (onlyRows_password _ _) fun _ => onlyRows_pure _

theorem onePasswordItem_onlyRows : OnlyRows (onePasswordItem p columns width row) :=
  onlyRows_bind (onlyRows_surplus row width) fun _ => onlyRows_bind (onlyRows_password _ _) fun _ => onlyRows_pure _

end

/-! ## A table -/

theorem scan_aboutRows (text : Text) : ∀ e ∈ (scan text).errors, AboutRow e := by
  have hdouble : ¬ THIS_FILE <+: undoubled := by decide
  have hstep : ∀ (st : Scan) ch next, (∀ e ∈ st.errors, AboutRow e) →
    ∀ e ∈ (st.step ch next).1.errors, AboutRow e := by
    intro st ch next h
    rcases step_cases st ch next with ⟨c, he⟩ | ⟨-, he⟩ | he | he | ⟨-, he⟩ | ⟨-, he⟩
    · exact he ▸ h
    · rw [he]
      unfold Scan.close
      split
      · simp only [List.forall_mem_append, List.forall_mem_singleton]
        exact ⟨h, hdouble⟩
      · exact h
    all_goals exact he ▸ h
  have hstart : ∀ e ∈ Scan.start.errors, AboutRow e := by simp [Scan.start]
  have hrun := run_invariant (P := fun st => ∀ e ∈ st.errors, AboutRow e) hstep hstart text
  change ∀ e ∈ (Scan.start.run text).finish.errors, AboutRow e
  generalize Scan.start.run text = st at hrun
  unfold Scan.finish
  split
  · have hunclosed : AboutRow ⟨st.recordLine, unclosed (st.line - st.quoteOpenedLine)⟩ := by
      have hclosed : ¬ THIS_FILE <+: ascii "This row opens a quoted field that is never closed" := by decide
      unfold unclosed
      split
      · exact hclosed
      · simp only [List.append_assoc]
        exact aboutRow_of_begins (by decide) (by decide)
    have hall : ∀ e ∈ st.reportUnclosed.errors, AboutRow e := by
      unfold Scan.reportUnclosed
      simp only [List.forall_mem_append, List.forall_mem_singleton]
      exact ⟨hrun, hunclosed⟩
    simp only
    split <;> exact hall
  · simp only
    split <;> exact hrun

theorem parseCsv_aboutRows (text : Text) : ∀ e ∈ (parseCsv text).errors, AboutRow e := by
  unfold parseCsv
  simp only
  split <;> exact scan_aboutRows _

theorem mapCsvRows_aboutRows {ρ : Type} {line : ρ → Nat} {rows : List ρ} {errors : List ImportRowError}
    {toItem : ρ → RowOutcome} (herr : ∀ e ∈ errors, AboutRow e) (hrows : ∀ row, OnlyRows (toItem row)) :
    ∀ e ∈ (mapCsvRows line rows errors toItem).errors, AboutRow e := by
  intro e he
  rw [(mapCsvRows_errors rows errors).mem_iff, List.mem_append] at he
  rcases he with he | he
  · exact herr e he
  · obtain ⟨outcome, hout, hrow⟩ := List.mem_filterMap.mp he
    obtain ⟨row, -, rfl⟩ := List.mem_map.mp hout
    cases hitem : toItem row with
    | ok item =>
      rw [hitem] at hrow
      cases hrow
    | error e' =>
      rw [hitem] at hrow
      cases hrow
      exact hrows row e hitem

/-! ## The rows of a JSON export -/

def Labelled (label : Text) : Prop := ∃ c rest, label = c :: rest ∧ c ≠ Json.unit 'T'

theorem Labelled.append {label : Text} (h : Labelled label) (t : Text) : Labelled (label ++ t) := by
  obtain ⟨c, rest, rfl, hc⟩ := h
  exact ⟨c, rest ++ t, rfl, hc⟩

theorem Labelled.aboutRow {message : Text} (h : Labelled message) (row : Nat) : AboutRow ⟨row, message⟩ := by
  obtain ⟨c, rest, rfl, hc⟩ := h
  apply aboutRow_of_head
  simpa using hc

theorem labelled_label {kind : Text} (h : Labelled kind) (position : Nat) (name : Text) :
    Labelled (label kind position name) := by
  unfold label
  rw [List.append_assoc, List.append_assoc]
  exact h.append _

theorem labelled_item : Labelled (ascii "Item") := ⟨_, _, rfl, by decide⟩

theorem labelled_record : Labelled (ascii "Record") := ⟨_, _, rfl, by decide⟩

section
variable {label : Text} (h : Labelled label) (position : Nat)
include h

theorem onlyRows_secret (value : Option Json) : OnlyRows (requiredSecret position label value) := by
  have hnone : OnlyRows (.error ⟨position, label ++ ascii " has no password, so it was not imported"⟩ :
      Except ImportRowError Text) := onlyRows_error ((h.append _).aboutRow position)
  unfold requiredSecret
  split
  · split
    · exact onlyRows_error ((h.append _).aboutRow position)
    · exact onlyRows_ok _
  · exact hnone

theorem aboutRow_notAnObject : AboutRow (notAnObject position label) := (h.append _).aboutRow position

theorem aboutRow_unsupported (vendor described : Text) :
    AboutRow (unsupported position label vendor described) := by
  unfold unsupported
  simp only [List.append_assoc]
  exact (h.append _).aboutRow position

theorem aboutRow_noLoginDetails : AboutRow (noLoginDetails position label) := (h.append _).aboutRow position

end

theorem mapRecords_errors {ρ : Type} (records : List ρ) (toItem : (record : ρ) → (position : Nat) → RowOutcome) :
    ∀ e ∈ (mapRecords records toItem).errors, ∃ record ∈ records, ∃ position,
      toItem record position = .error e := by
  have hfold : ∀ (l : List (ρ × Nat)) (result : ImportResult),
      (∀ e ∈ result.errors, ∃ record ∈ records, ∃ position, toItem record position = .error e) →
      (∀ entry ∈ l, entry.1 ∈ records) →
      ∀ e ∈ (l.foldl (collectRecord toItem) result).errors,
        ∃ record ∈ records, ∃ position, toItem record position = .error e := by
    intro l
    induction l with
    | nil => exact fun _ hresult _ => hresult
    | cons entry l ih =>
      intro result hresult hl
      rw [List.forall_mem_cons] at hl
      refine ih _ ?_ hl.2
      unfold collectRecord
      cases hitem : toItem entry.1 entry.2 with
      | ok item => exact hresult
      | error e =>
        simp only [List.forall_mem_append, List.forall_mem_singleton]
        exact ⟨hresult, entry.1, hl.1, entry.2, hitem⟩
  refine hfold _ ⟨[], []⟩ (by simp) fun entry hentry => ?_
  rw [← List.zipIdx_map_fst 1 records]
  exact List.mem_map_of_mem hentry

theorem mapRecords_aboutRows {ρ : Type} {records : List ρ}
    {toItem : (record : ρ) → (position : Nat) → RowOutcome}
    (h : ∀ record ∈ records, ∀ position, OnlyRows (toItem record position)) :
    ∀ e ∈ (mapRecords records toItem).errors, AboutRow e := by
  intro e he
  obtain ⟨record, hrecord, position, hitem⟩ := mapRecords_errors records toItem e he
  exact h record hrecord position e hitem

theorem bitwardenLogin_onlyRows (source : Json) {position : Nat} {label : Text} (h : Labelled label)
    (item : ImportItem) :
    OnlyRows (Bitwarden.jsonLogin source position label item) := by
  unfold Bitwarden.jsonLogin
  split
  · exact onlyRows_pure _
  · split
    · exact onlyRows_error (aboutRow_noLoginDetails h position)
    · exact onlyRows_bind (onlyRows_secret h position _) fun _ => onlyRows_pure _

theorem bitwardenRecord_onlyRows (numberText : Int → Int → Text) (folders collections : List (Text × Text))
    (raw : Json) (position : Nat) : OnlyRows (Bitwarden.jsonItem numberText folders collections raw position) := by
  unfold Bitwarden.jsonItem
  split
  · exact onlyRows_error (aboutRow_notAnObject (labelled_label labelled_item position []) position)
  · next source hsource =>
    have hlabel := labelled_label labelled_item position (stringOf (property (some source) "name"))
    simp only
    split
    · split
      · exact onlyRows_error (aboutRow_unsupported hlabel position _ _)
      · exact onlyRows_bind (bitwardenLogin_onlyRows source hlabel _) fun _ => onlyRows_pure _
    · exact onlyRows_error ((hlabel.append _).aboutRow position)

theorem dashlaneLogin_onlyRows (source : Json) {position : Nat} {label : Text} (h : Labelled label)
    (item : ImportItem) :
    OnlyRows (Dashlane.jsonLogin source position label item) :=
  onlyRows_bind (onlyRows_secret h position _) fun _ => onlyRows_pure _

theorem dashlaneRecord_onlyRows {record : Dashlane.RecordList × Nat × Json} (h : Labelled (ascii record.1.key))
    (position : Nat) : OnlyRows (Dashlane.jsonRecord record position) := by
  obtain ⟨list, index, raw⟩ := record
  have hlabel := labelled_label (h.append (ascii " item")) index (Dashlane.titleOf (asObject (some raw)))
  unfold Dashlane.jsonRecord
  simp only
  split
  · exact onlyRows_error (aboutRow_notAnObject hlabel position)
  · next source hsource =>
    split
    · exact onlyRows_error (aboutRow_unsupported hlabel position _ _)
    · exact onlyRows_pure _
    · exact dashlaneLogin_onlyRows source hlabel _

theorem dashlaneKeys_labelled : ∀ list ∈ Dashlane.RECORD_LISTS, Labelled (ascii list.key) := by
  simp only [Dashlane.RECORD_LISTS, List.forall_mem_cons]
  refine ⟨?_, ?_, ?_, ?_, ?_, ?_, ?_, ?_, ?_, by simp⟩
  all_goals exact ⟨_, _, rfl, by decide⟩

theorem protonPassLogin_onlyRows (data : Json) {position : Nat} {label : Text} (h : Labelled label)
    (item : ImportItem) :
    OnlyRows (ProtonPass.vaultLogin data position label item) := by
  unfold ProtonPass.vaultLogin
  split
  · exact onlyRows_pure _
  · split
    · exact onlyRows_error (aboutRow_noLoginDetails h position)
    · exact onlyRows_bind (onlyRows_secret h position _) fun _ => onlyRows_pure _

theorem protonPassItem_onlyRows (record : Text × Json) (position : Nat) :
    OnlyRows (ProtonPass.vaultItem record position) := by
  obtain ⟨vaultName, raw⟩ := record
  unfold ProtonPass.vaultItem
  simp only
  split
  · exact onlyRows_error (aboutRow_notAnObject (labelled_label labelled_item position []) position)
  · next source hsource =>
    have hlabel := labelled_label labelled_item position
      (stringOf (property (asObject (property (asObject (property (some source) "data")) "metadata")) "name"))
    split
    · exact onlyRows_error ((hlabel.append _).aboutRow position)
    · split
      · exact onlyRows_error ((hlabel.append _).aboutRow position)
      · next data hdata =>
        split
        · exact onlyRows_error (aboutRow_unsupported (by simpa only [hdata] using hlabel) position _ _)
        · exact onlyRows_bind (protonPassLogin_onlyRows data (by simpa only [hdata] using hlabel) _) fun _ =>
            onlyRows_pure _

theorem keeperRecord_onlyRows (raw : Json) (position : Nat) : OnlyRows (Keeper.jsonRecord raw position) := by
  unfold Keeper.jsonRecord
  split
  · exact onlyRows_error (aboutRow_notAnObject (labelled_label labelled_record position []) position)
  · next source hsource =>
    have hlabel := labelled_label labelled_record position (stringOf (property (some source) "title"))
    exact onlyRows_bind (onlyRows_secret hlabel position _) fun _ => onlyRows_pure _

end Keyhole.Import
