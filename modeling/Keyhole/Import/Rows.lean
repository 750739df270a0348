import Mathlib.Data.List.Nodup
import Keyhole.Import.Lines
import Keyhole.Import.Map
import Keyhole.Import.Parsers

/-!
# Every row is accounted for

A row that the reader has not reported gives an item or an error at its line,
and no other row has that line. A row it has reported gives no item.
-/

namespace Keyhole.Import

/-! ## What a row becomes -/

def RowOutcome.line : RowOutcome → Nat
  | .ok item => item.sourceRow
  | .error e => e.row

@[simp] theorem line_ok (item : ImportItem) : RowOutcome.line (.ok item) = item.sourceRow := rfl

@[simp] theorem line_error (e : ImportRowError) : RowOutcome.line (.error e) = e.row := rfl

def Refuses {α : Type} (ℓ : Nat) (x : Except ImportRowError α) : Prop := ∀ e, x = .error e → e.row = ℓ

theorem line_bind {α : Type} {ℓ : Nat} {x : Except ImportRowError α} {f : α → RowOutcome} (hx : Refuses ℓ x)
    (hf : ∀ a, (f a).line = ℓ) : RowOutcome.line (x >>= f) = ℓ := by
  cases x with
  | error e => exact hx e rfl
  | ok a => exact hf a

theorem line_then {ℓ : Nat} {x : RowOutcome} {f : ImportItem → RowOutcome} (hx : x.line = ℓ)
    (hf : ∀ item, item.sourceRow = ℓ → (f item).line = ℓ) : RowOutcome.line (x >>= f) = ℓ := by
  cases x with
  | error e => exact hx
  | ok item => exact hf item hx

theorem requiredPassword_refuses (ℓ : Nat) (value : Option Text) : Refuses ℓ (requiredPassword ℓ value) := by
  intro e he
  cases value with
  | none =>
    cases he
    rfl
  | some value =>
    simp only [requiredPassword] at he
    split at he <;> cases he
    rfl

theorem refuseSurplus_refuses (row : CsvRow) (width : Nat) : Refuses row.line (refuseSurplus row width) := by
  intro e he
  unfold refuseSurplus surplusFieldsError at he
  split at he
  · rename_i e' h
    cases he
    split at h <;> cases h
    rfl
  · cases he

theorem refuseSurplus_extra {row : CsvRow} (h : row.extra ≠ []) (width : Nat) (f : Unit → RowOutcome) :
    (refuseSurplus row width >>= f).isOk = false := by
  unfold refuseSurplus surplusFieldsError
  rw [if_neg h]
  rfl

@[simp] theorem carry_sourceRow (item : ImportItem) (name : Text) (value : Option Text) (kind : ImportFieldKind) :
    (carry item name value kind).sourceRow = item.sourceRow := by
  unfold carry
  split
  · rfl
  · split <;> rfl

theorem foldl_same {α β : Type} {g : ImportItem → β} {f : ImportItem → α → ImportItem}
    (h : ∀ item a, g (f item a) = g item) (l : List α) (item : ImportItem) : g (l.foldl f item) = g item := by
  induction l generalizing item with
  | nil => rfl
  | cons a l ih => rw [List.foldl_cons, ih, h]

/-- A row is answered at its own line, and one with surplus fields with an error. -/
structure Answers (toItem : CsvRow → RowOutcome) : Prop where
  line : ∀ row, (toItem row).line = row.line
  surplus : ∀ row, row.extra ≠ [] → (toItem row).isOk = false

theorem answers_of_bind {width : Nat} {f : CsvRow → Unit → RowOutcome} (h : ∀ r, (f r ()).line = r.line) :
    Answers fun r => refuseSurplus r width >>= f r where
  line _ := line_bind (refuseSurplus_refuses _ width) fun _ => h _
  surplus _ hrow := refuseSurplus_extra hrow width _

/-! ## The parsers -/

section
variable (p : Platform) (columns : Columns) (width : Nat)

theorem browserItem_answers (layout : BrowserLayout) : Answers (browserItem p layout columns width) :=
  answers_of_bind fun _ => line_bind (requiredPassword_refuses _ _) fun _ =>
    foldl_same (fun _ _ => carry_sourceRow _ _ _ _) _ _

theorem lastPassItem_answers : Answers (lastPassItem p columns width) := by
  refine answers_of_bind fun _ => ?_
  simp only
  split
  · rfl
  · exact line_bind (requiredPassword_refuses _ _) fun _ => carry_sourceRow _ _ _ _

theorem keePassItem_answers (layout : KeePassLayout) : Answers (keePassItem layout columns width) := by
  refine answers_of_bind fun _ => line_bind (requiredPassword_refuses _ _) fun _ => ?_
  simp only
  split
  · rfl
  · exact carry_sourceRow _ _ _ _

theorem nordPassLogin_line (row : CsvRow) (item : ImportItem) (h : item.sourceRow = row.line) :
    (nordPassLogin columns row item).line = row.line := by
  unfold nordPassLogin
  split
  · exact h
  · exact line_bind (requiredPassword_refuses _ _) fun _ => h

theorem nordPassItem_answers : Answers (nordPassItem p columns width) := by
  refine answers_of_bind fun row => ?_
  simp only
  split
  · rfl
  · exact line_then (nordPassLogin_line columns row _ rfl) fun item h => (carry_sourceRow item _ _ _).trans h

theorem dashlaneItem_answers : Answers (dashlaneItem columns width) :=
  answers_of_bind fun _ => line_bind (requiredPassword_refuses _ _) fun _ =>
    (carry_sourceRow _ _ _ _).trans (foldl_same (fun _ _ => carry_sourceRow _ _ _ _) _ _)

theorem bitwardenLogin_line (row : CsvRow) (item : ImportItem) (h : item.sourceRow = row.line) :
    (bitwardenLogin columns row item).line = row.line := by
  unfold bitwardenLogin
  split
  · exact h
  · exact line_bind (requiredPassword_refuses _ _) fun _ => (carry_sourceRow _ _ _ _).trans h

theorem bitwardenItem_answers : Answers (bitwardenItem p columns width) := by
  refine answers_of_bind fun row => ?_
  simp only
  split
  · rfl
  · exact line_then (bitwardenLogin_line columns row _ rfl) fun item h =>
      (carry_sourceRow _ _ _ _).trans ((carry_sourceRow item _ _ _).trans h)

theorem onePasswordItem_answers : Answers (onePasswordItem p columns width) :=
  answers_of_bind fun _ => line_bind (requiredPassword_refuses _ _) fun _ =>
    (carry_sourceRow _ _ _ _).trans ((carry_sourceRow _ _ _ _).trans (carry_sourceRow _ _ _ _))

theorem genericRow_answers (mapping : CsvColumnMapping) : Answers (genericRow p mapping columns width) :=
  answers_of_bind fun _ => line_bind (requiredPassword_refuses _ _) fun _ =>
    (foldl_same (fun _ _ => carry_sourceRow _ _ _ _) _ _).trans (carry_sourceRow _ _ _ _)

end

/-- The parsers that read a CSV with a header. -/
inductive CsvParser
  | browser
  | bitwarden
  | lastPass
  | onePassword
  | keePass
  | nordPass
  | dashlane
  | generic (mapping : Option CsvColumnMapping)

def CsvParser.parse (p : Platform) : CsvParser → Text → ImportResult
  | browser => parseBrowserCsv p
  | bitwarden => parseBitwardenCsv p
  | lastPass => parseLastPassCsv p
  | onePassword => parseOnePasswordCsv p
  | keePass => parseKeePassCsv p
  | nordPass => parseNordPassCsv p
  | dashlane => parseDashlaneCsv p
  | generic mapping => parseGenericCsv p mapping

/-- How the parser reads the rows under a header, if it recognises it. -/
def CsvParser.layout (p : Platform) : CsvParser → Columns → (width : Nat) → Option (CsvRow → RowOutcome)
  | browser => browserLayout p
  | bitwarden => bitwardenLayout p
  | lastPass => lastPassLayout p
  | onePassword => onePasswordLayout p
  | keePass => keePassLayout
  | nordPass => nordPassLayout p
  | dashlane => dashlaneLayout
  | generic mapping => genericLayout p mapping

section
variable {p : Platform} {columns : Columns} {width : Nat} {toItem : CsvRow → RowOutcome}

theorem layout_answers {parser : CsvParser} (h : parser.layout p columns width = some toItem) : Answers toItem := by
  have hite : ∀ {c : Bool} {f : CsvRow → RowOutcome}, (if c then some f else none) = some toItem →
    f = toItem := by
    intro c f hf
    split at hf <;> cases hf
    rfl
  cases parser with
  | browser =>
    obtain ⟨layout, -, rfl⟩ := Option.map_eq_some_iff.mp h
    exact browserItem_answers p columns width layout
  | bitwarden => exact hite h ▸ bitwardenItem_answers p columns width
  | lastPass => exact hite h ▸ lastPassItem_answers p columns width
  | onePassword => exact hite h ▸ onePasswordItem_answers p columns width
  | keePass =>
    obtain ⟨layout, -, rfl⟩ := Option.map_eq_some_iff.mp h
    exact keePassItem_answers columns width layout
  | nordPass => exact hite h ▸ nordPassItem_answers p columns width
  | dashlane => exact hite h ▸ dashlaneItem_answers columns width
  | generic mapping =>
    unfold CsvParser.layout genericLayout at h
    simp only at h
    split at h <;> cases h
    exact genericRow_answers p columns width _

end

theorem parse_recognised {p : Platform} {parser : CsvParser} {text : Text} {toItem : CsvRow → RowOutcome}
    (h : parser.layout p (indexColumns p (parseCsv text).header) (parseCsv text).header.length = some toItem) :
    parser.parse p text = mapCsvRows (·.line) (parseCsv text).rows (parseCsv text).errors toItem := by
  have htable : ∀ refusal, parseTable p refusal (parser.layout p) text =
      mapCsvRows (·.line) (parseCsv text).rows (parseCsv text).errors toItem := by
    intro refusal
    unfold parseTable
    simp only [h]
  cases parser <;> exact htable _

/-! ## Conservation -/

def outcomes {ρ : Type} (line : ρ → Nat) (damaged : List Nat) (toItem : ρ → RowOutcome) (rows : List ρ) :
    List RowOutcome := (rows.filter (line · ∉ damaged)).map toItem

def itemsOf (l : List RowOutcome) : List ImportItem := l.filterMap Except.toOption

def errorsOf (l : List RowOutcome) : List ImportRowError :=
  l.filterMap fun
    | .error e => some e
    | .ok _ => none

@[simp] theorem itemsOf_ok (item : ImportItem) (l : List RowOutcome) :
    itemsOf (.ok item :: l) = item :: itemsOf l := rfl

@[simp] theorem itemsOf_error (e : ImportRowError) (l : List RowOutcome) :
    itemsOf (.error e :: l) = itemsOf l := rfl

@[simp] theorem errorsOf_ok (item : ImportItem) (l : List RowOutcome) : errorsOf (.ok item :: l) = errorsOf l := rfl

@[simp] theorem errorsOf_error (e : ImportRowError) (l : List RowOutcome) :
    errorsOf (.error e :: l) = e :: errorsOf l :=
  rfl

section
variable {ρ : Type} {line : ρ → Nat} {toItem : ρ → RowOutcome}

theorem outcomes_cons {damaged : List Nat} {row : ρ} (h : line row ∉ damaged) (rows : List ρ) :
    outcomes line damaged toItem (row :: rows) = toItem row :: outcomes line damaged toItem rows := by
  simp [outcomes, h]

theorem outcomes_skip {damaged : List Nat} {row : ρ} (h : line row ∈ damaged) (rows : List ρ) :
    outcomes line damaged toItem (row :: rows) = outcomes line damaged toItem rows := by
  simp [outcomes, h]

theorem foldl_collect (damaged : List Nat) (rows : List ρ) (result : ImportResult) :
    rows.foldl (collect line damaged toItem) result =
      ⟨result.items ++ itemsOf (outcomes line damaged toItem rows),
        result.errors ++ errorsOf (outcomes line damaged toItem rows)⟩ := by
  induction rows generalizing result with
  | nil => simp [outcomes, itemsOf, errorsOf]
  | cons row rows ih =>
    rw [List.foldl_cons, ih]
    unfold collect
    by_cases hd : line row ∈ damaged
    · simp [hd, outcomes_skip hd]
    · cases h : toItem row with
      | error e => simp [hd, h, outcomes_cons hd]
      | ok item => simp [hd, h, outcomes_cons hd]

theorem mapCsvRows_items (rows : List ρ) (errors : List ImportRowError) :
    (mapCsvRows line rows errors toItem).items = itemsOf (outcomes line (errors.map (·.row)) toItem rows) := by
  unfold mapCsvRows
  rw [foldl_collect]
  rfl

theorem mapCsvRows_errors (rows : List ρ) (errors : List ImportRowError) :
    (mapCsvRows line rows errors toItem).errors.Perm
      (errors ++ errorsOf (outcomes line (errors.map (·.row)) toItem rows)) := by
  unfold mapCsvRows
  rw [foldl_collect]
  exact List.mergeSort_perm _ _

theorem mem_itemsOf {l : List RowOutcome} {item : ImportItem} : item ∈ itemsOf l ↔ .ok item ∈ l := by
  unfold itemsOf
  rw [List.mem_filterMap]
  constructor
  · rintro ⟨o, ho, hitem⟩
    cases o with
    | error e => cases hitem
    | ok item' =>
      cases hitem
      exact ho
  · intro h
    exact ⟨_, h, rfl⟩

theorem itemsOf_row {damaged : List Nat} {rows : List ρ} (hline : ∀ row, (toItem row).line = line row)
    {item : ImportItem} (h : item ∈ itemsOf (outcomes line damaged toItem rows)) :
    ∃ row ∈ rows, line row ∉ damaged ∧ toItem row = .ok item ∧ item.sourceRow = line row := by
  obtain ⟨row, hrow, hr⟩ := List.mem_map.mp (mem_itemsOf.mp h)
  obtain ⟨hmem, hd⟩ := List.mem_filter.mp hrow
  have hl := hline row
  rw [hr] at hl
  exact ⟨row, hmem, by simpa using hd, hr, hl⟩

theorem itemsOf_filter (l : List RowOutcome) (ℓ : Nat) :
    (itemsOf l).filter (·.sourceRow = ℓ) = itemsOf (l.filter (·.line = ℓ)) := by
  induction l with
  | nil => rfl
  | cons o l ih =>
    cases o with
    | error e =>
      rw [itemsOf_error, ih, List.filter_cons]
      split
      · rfl
      · rfl
    | ok item =>
      rw [itemsOf_ok]
      by_cases h : item.sourceRow = ℓ
      · simp [h, ih]
      · simp [h, ih]

theorem errorsOf_filter (l : List RowOutcome) (ℓ : Nat) :
    (errorsOf l).filter (·.row = ℓ) = errorsOf (l.filter (·.line = ℓ)) := by
  induction l with
  | nil => rfl
  | cons o l ih =>
    cases o with
    | ok item =>
      rw [errorsOf_ok, ih, List.filter_cons]
      split
      · rfl
      · rfl
    | error e =>
      rw [errorsOf_error]
      by_cases h : e.row = ℓ
      · simp [h, ih]
      · simp [h, ih]

theorem itemsOf_sublist (damaged : List Nat) (rows : List ρ) (hline : ∀ row, (toItem row).line = line row) :
    ((itemsOf (outcomes line damaged toItem rows)).map (·.sourceRow)).Sublist (rows.map line) := by
  induction rows with
  | nil => exact List.Sublist.slnil
  | cons row rows ih =>
    have hl := hline row
    by_cases hd : line row ∈ damaged
    · rw [outcomes_skip hd]
      exact ih.cons _
    · rw [outcomes_cons hd]
      cases hr : toItem row with
      | error e => exact ih.cons _
      | ok item =>
        rw [hr] at hl
        have hcons : itemsOf (.ok item :: outcomes line damaged toItem rows) =
            item :: itemsOf (outcomes line damaged toItem rows) := rfl
        rw [hcons, List.map_cons, List.map_cons, hl.symm]
        exact ih.cons_cons _

theorem outcomes_at {damaged : List Nat} {rows : List ρ} (hline : ∀ row, (toItem row).line = line row)
    (hlines : (rows.map line).Pairwise (· < ·)) {row : ρ} (hrow : row ∈ rows) (hd : line row ∉ damaged) :
    (outcomes line damaged toItem rows).filter (·.line = line row) = [toItem row] := by
  obtain ⟨before, after, rfl⟩ := List.append_of_mem hrow
  have hne : ∀ r ∈ before ++ after, line r ≠ line row := by
    rw [List.map_append, List.map_cons, List.pairwise_append, List.pairwise_cons] at hlines
    obtain ⟨-, ⟨hafter, -⟩, hbefore⟩ := hlines
    intro r hr
    cases List.mem_append.mp hr with
    | inl h => exact Nat.ne_of_lt (hbefore _ (List.mem_map_of_mem h) _ (by simp))
    | inr h => exact (Nat.ne_of_lt (hafter _ (List.mem_map_of_mem h))).symm
  have hnone : ∀ l : List ρ, (∀ r ∈ l, line r ≠ line row) →
      (outcomes line damaged toItem l).filter (·.line = line row) = [] := by
    intro l hl
    rw [List.filter_eq_nil_iff]
    intro o ho
    obtain ⟨r, hr, rfl⟩ := List.mem_map.mp ho
    rw [hline]
    simpa using hl r (List.mem_filter.mp hr).1
  have hsplit : outcomes line damaged toItem (before ++ row :: after) =
      outcomes line damaged toItem before ++ toItem row :: outcomes line damaged toItem after := by
    simp [outcomes, hd]
  rw [hsplit, List.filter_append, List.filter_cons, hnone before fun r hr => hne r (List.mem_append_left _ hr),
    hnone after fun r hr => hne r (List.mem_append_right _ hr)]
  simp [hline]

theorem mapCsvRows_at {rows : List ρ} {errors : List ImportRowError} (hline : ∀ row, (toItem row).line = line row)
    (hlines : (rows.map line).Pairwise (· < ·)) {row : ρ} (hrow : row ∈ rows)
    (hd : line row ∉ errors.map (·.row)) :
    (mapCsvRows line rows errors toItem).items.filter (·.sourceRow = line row) = itemsOf [toItem row] ∧
    ((mapCsvRows line rows errors toItem).errors.filter (·.row = line row)).Perm (errorsOf [toItem row]) := by
  constructor
  · rw [mapCsvRows_items, itemsOf_filter, outcomes_at hline hlines hrow hd]
  · have hperm := (@mapCsvRows_errors ρ line toItem rows errors).filter (·.row = line row)
    have hnone : errors.filter (·.row = line row) = [] := by
      rw [List.filter_eq_nil_iff]
      intro e he hl
      exact hd (List.mem_map.mpr ⟨e, he, by simpa using hl⟩)
    rw [List.filter_append, errorsOf_filter, outcomes_at hline hlines hrow hd, hnone, List.nil_append] at hperm
    exact hperm

theorem mapCsvRows_reported (hline : ∀ row, (toItem row).line = line row) (rows : List ρ)
    {errors : List ImportRowError} {e : ImportRowError} (he : e ∈ errors) :
    (mapCsvRows line rows errors toItem).items.filter (·.sourceRow = e.row) = [] ∧
    e ∈ (mapCsvRows line rows errors toItem).errors.filter (·.row = e.row) := by
  constructor
  · rw [mapCsvRows_items, List.filter_eq_nil_iff]
    intro item hi hl
    obtain ⟨row, -, hu, -, hsource⟩ := itemsOf_row hline hi
    exact hu (List.mem_map.mpr ⟨e, he, by rw [← hsource]; exact (of_decide_eq_true hl).symm⟩)
  · rw [List.mem_filter, (mapCsvRows_errors rows errors).mem_iff]
    exact ⟨List.mem_append_left _ he, decide_eq_true rfl⟩

/-- A row gives one item and no error, or no item and an error; one error if the reader has reported none there. -/
structure Accounts (lines : List Nat) (reported : List ImportRowError) (result : ImportResult) : Prop where
  each : ∀ ℓ ∈ lines,
    ((∃ item, result.items.filter (·.sourceRow = ℓ) = [item]) ∧ result.errors.filter (·.row = ℓ) = []) ∨
    (result.items.filter (·.sourceRow = ℓ) = [] ∧ result.errors.filter (·.row = ℓ) ≠ [] ∧
      ((∀ e ∈ reported, e.row ≠ ℓ) → ∃ e, result.errors.filter (·.row = ℓ) = [e]))
  order : (result.items.map (·.sourceRow)).Sublist lines
  reported : ∀ e ∈ reported, ∀ item ∈ result.items, item.sourceRow ≠ e.row

theorem mapCsvRows_accounts {rows : List ρ} {errors : List ImportRowError}
    (hline : ∀ row, (toItem row).line = line row) (hlines : (rows.map line).Pairwise (· < ·)) :
    Accounts (rows.map line) errors (mapCsvRows line rows errors toItem) := by
  refine ⟨?_, ?_, ?_⟩
  · intro ℓ hℓ
    obtain ⟨row, hrow, rfl⟩ := List.mem_map.mp hℓ
    by_cases hd : line row ∈ errors.map (·.row)
    · obtain ⟨e, he, hl⟩ := List.mem_map.mp hd
      obtain ⟨hnone, hmem⟩ := mapCsvRows_reported hline rows he
      rw [hl] at hnone hmem
      exact Or.inr ⟨hnone, List.ne_nil_of_mem hmem, fun hu => absurd hl (hu e he)⟩
    · obtain ⟨hitems, herrors⟩ := mapCsvRows_at hline hlines hrow hd
      cases hr : toItem row with
      | ok item =>
        rw [hr] at hitems herrors
        exact Or.inl ⟨⟨item, hitems⟩, herrors.eq_nil⟩
      | error e =>
        rw [hr] at hitems herrors
        have hone := herrors.eq_singleton
        exact Or.inr ⟨hitems, by rw [hone]; simp, fun _ => ⟨e, hone⟩⟩
  · rw [mapCsvRows_items]
    exact itemsOf_sublist _ rows hline
  · intro e he item hitem heq
    have hnone := (mapCsvRows_reported hline rows he).1
    rw [List.filter_eq_nil_iff] at hnone
    exact hnone item hitem (decide_eq_true heq)

end

/-! ## The records of a text -/

def dataRecords (text : Text) : List RawRecord := ((scan (withoutBom text)).records.filter (!·.blank)).tail

theorem parseCsv_rows (text : Text) :
    (parseCsv text).rows = (dataRecords text).map (buildRow · (parseCsv text).header.length) := by
  unfold parseCsv dataRecords
  simp only
  split
  · rename_i h
    rw [h]
    rfl
  · rename_i h
    rw [h]
    rfl

theorem parseCsv_errors (text : Text) : (parseCsv text).errors = (scan (withoutBom text)).errors := by
  unfold parseCsv
  simp only
  split <;> rfl

theorem parseCsv_lines (text : Text) : (parseCsv text).rows.map (·.line) = (dataRecords text).map (·.line) := by
  rw [parseCsv_rows, List.map_map]
  rfl

theorem dataRecords_increasing (text : Text) : ((dataRecords text).map (·.line)).Pairwise (· < ·) := by
  have hall := (scan_ordered (withoutBom text)).1
  refine hall.sublist (List.Sublist.map _ ?_)
  exact (List.tail_sublist _).trans List.filter_sublist

theorem surplus_refused {p : Platform} {parser : CsvParser} {text : Text} {toItem : CsvRow → RowOutcome}
    (h : parser.layout p (indexColumns p (parseCsv text).header) (parseCsv text).header.length = some toItem)
    {r : RawRecord} (hr : r ∈ dataRecords text) (hwide : (parseCsv text).header.length < r.fields.length) :
    ∀ item ∈ (parser.parse p text).items, item.sourceRow ≠ r.line := by
  have hanswers := layout_answers h
  intro item hitem heq
  rw [parse_recognised h, mapCsvRows_items] at hitem
  obtain ⟨row, hrow, -, hok, hl⟩ := itemsOf_row hanswers.line hitem
  rw [parseCsv_rows] at hrow
  obtain ⟨r', hr', rfl⟩ := List.mem_map.mp hrow
  have hsame : r' = r := List.inj_on_of_nodup_map
    ((dataRecords_increasing text).imp fun h => Nat.ne_of_lt h) hr' hr (hl.symm.trans heq)
  subst hsame
  have hextra : (buildRow r' (parseCsv text).header.length).extra ≠ [] := by
    simpa [buildRow, List.drop_eq_nil_iff] using hwide
  have hrefused := hanswers.surplus _ hextra
  rw [hok] at hrefused
  cases hrefused

/-- Under a header the parser recognises every data record is accounted for at its own line, and a
damaged record costs no other. -/
theorem rows_accounted (p : Platform) (parser : CsvParser) (text : Text)
    (hrecognised :
      (parser.layout p (indexColumns p (parseCsv text).header) (parseCsv text).header.length).isSome = true) :
    Accounts ((dataRecords text).map (·.line)) (scan (withoutBom text)).errors (parser.parse p text) ∧
    ((scan (withoutBom text)).records.map (·.line)).Pairwise (· < ·) ∧
    (∀ e ∈ (scan (withoutBom text)).errors, ∃ r ∈ (scan (withoutBom text)).records, r.line = e.row ∧
      r.blank = false) ∧
    (∀ r ∈ dataRecords text, (parseCsv text).header.length < r.fields.length →
      ∀ item ∈ (parser.parse p text).items, item.sourceRow ≠ r.line) ∧
    ∀ (st : Scan) (ch : CodeUnit) (rest : Text), Steps Scan.start (withoutBom text) st (ch :: rest) →
      st.inQuotes = false → ch = CR ∨ ch = LF → scan (withoutBom text) =
        ⟨st.terminate.records ++ (scan (afterEnding ch rest)).records.map (·.shift st.line),
          st.terminate.errors ++ (scan (afterEnding ch rest)).errors.map (·.shift st.line)⟩ := by
  obtain ⟨toItem, h⟩ := Option.isSome_iff_exists.mp hrecognised
  obtain ⟨hlines, hnamed⟩ := scan_ordered (withoutBom text)
  refine ⟨?_, hlines, hnamed, fun r hr hwide => surplus_refused h hr hwide,
    fun st ch rest hsteps hin hch => scan_resume hsteps hin hch⟩
  have hrows : ((parseCsv text).rows.map (·.line)).Pairwise (· < ·) := by
    rw [parseCsv_lines]
    exact dataRecords_increasing text
  rw [parse_recognised h, ← parseCsv_lines, ← parseCsv_errors]
  exact mapCsvRows_accounts (layout_answers h).line hrows

def asciiPlatform : Platform where
  toLowerCase s := s.map fun c => if 0x41 ≤ c && c ≤ 0x5A then c + 0x20 else c
  host _ := none

/-- A header, a login, a row that is damaged, and a login. -/
def damagedExport : Text :=
  ascii "name,url,username,password\r\nmail,mail.test,a,b\r\nbank,bank.test,a,\"c\"d\"\nnews,,x,y"

theorem rows_accounted_damaged :
    Accounts [2, 3, 4] [⟨3, undoubled⟩] (parseBrowserCsv asciiPlatform damagedExport) := by
  have h := (rows_accounted asciiPlatform .browser damagedExport (by decide)).1
  have hlines : (dataRecords damagedExport).map (·.line) = [2, 3, 4] := by decide
  have herrors : (scan (withoutBom damagedExport)).errors = [⟨3, undoubled⟩] := by decide
  rw [hlines, herrors] at h
  exact h

theorem keeperRecord_line (record : CsvRecord) : (keeperRecord record).line = record.line :=
  line_bind (requiredPassword_refuses _ _) fun _ => rfl

theorem keeper_lines (text : Text) : ((parseCsvRecords text).rows.map (·.line)).Pairwise (· < ·) := by
  have hrows : (parseCsvRecords text).rows.map (·.line) =
      ((scan (withoutBom text)).records.filter (!·.blank)).map (·.line) := by
    unfold parseCsvRecords
    simp [Function.comp_def]
  rw [hrows]
  exact (scan_ordered (withoutBom text)).1.sublist (List.Sublist.map _ List.filter_sublist)

/-- Keeper's export has no header: every record is data. -/
theorem keeper_accounted (text : Text) :
    Accounts ((parseCsvRecords text).rows.map (·.line)) (parseCsvRecords text).errors (parseKeeperCsv text) :=
  mapCsvRows_accounts keeperRecord_line (keeper_lines text)

end Keyhole.Import
