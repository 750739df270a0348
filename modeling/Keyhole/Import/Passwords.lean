import Keyhole.Import.Notes
import Keyhole.Import.Rows

/-!
# What becomes of a password

A parser that reads a row as a secure note does not look at its password
cell. Every other row keeps its password to the end, or is refused.
-/

namespace Keyhole.Import

/-- An error at the line, or an item there that is stored with this password. -/
def Kept (result : ImportResult) (line : Nat) (password : Text) : Prop :=
  (∃ e ∈ result.errors, e.row = line) ∨
  ∃ item ∈ result.items, item.sourceRow = line ∧
    ∀ folderId, (toItemPlaintext item folderId).password = some password

section
variable (p : Platform) (columns : Columns)

def CsvParser.passwordCell (row : CsvRow) : CsvParser → Option Text
  | browser | lastPass | onePassword | keePass | nordPass | dashlane => columns.value row (some (ascii "password"))
  | bitwarden => columns.value row (some (ascii "login_password"))
  | generic mapping => read p columns row ((mapping.getD (suggestMapping p columns.header)).column .password)

/-- The mark by which a vendor tells a secure note: LastPass its address, NordPass and Bitwarden their type. -/
def CsvParser.marksNote (row : CsvRow) : CsvParser → Bool
  | lastPass => word p (columns.text row (some (ascii "url"))) = SECURE_NOTE_URL
  | nordPass => nordPassKinds.lookup (word p (columns.text row (some (ascii "type")))) = some .note
  | bitwarden => bitwardenKinds.lookup (word p (columns.text row (some (ascii "type")))) = some .note
  | browser | onePassword | keePass | dashlane | generic _ => false

end

/-! ## One row -/

theorem bind_ok {α β : Type} {x : Except ImportRowError α} {f : α → Except ImportRowError β} {b : β} :
    x >>= f = .ok b ↔ ∃ a, x = .ok a ∧ f a = .ok b := by
  cases x <;> simp [bind, Except.bind]

theorem requiredPassword_ok {line : Nat} {value : Option Text} {password : Text}
    (h : requiredPassword line value = .ok password) : value = some password := by
  unfold requiredPassword at h
  split at h
  · cases h
  · split at h
    · cases h
    · cases h
      rfl

theorem refuseSurplus_ok {row : CsvRow} (h : row.extra = []) (width : Nat) : refuseSurplus row width = .ok () := by
  unfold refuseSurplus surplusFieldsError
  rw [if_pos h]

@[simp] theorem carry_password (item : ImportItem) (name : Text) (value : Option Text) (kind : ImportFieldKind) :
    (carry item name value kind).password = item.password := by
  unfold carry
  split
  · rfl
  · split <;> rfl

@[simp] theorem carry_type (item : ImportItem) (name : Text) (value : Option Text) (kind : ImportFieldKind) :
    (carry item name value kind).type = item.type := by
  unfold carry
  split
  · rfl
  · split <;> rfl

/-- How a parser reads a row: a note without its password, any other row with it. -/
structure Reads (cell : CsvRow → Option Text) (note : CsvRow → Bool) (toItem : CsvRow → RowOutcome) : Prop where
  kept : ∀ row item, note row = false → toItem row = .ok item → cell row = some item.password
  dropped : ∀ row, note row = true → row.extra = [] →
    ∃ item, toItem row = .ok item ∧ item.type = .note ∧ item.password = []

theorem reads_of_bind {width : Nat} {cell : CsvRow → Option Text} {f : CsvRow → Text → ImportItem}
    (h : ∀ row password, (f row password).password = password) :
    Reads cell (fun _ => false) fun row => do
      refuseSurplus row width
      let password ← requiredPassword row.line (cell row)
      pure (f row password) where
  kept row item _ hok := by
    obtain ⟨-, -, hok⟩ := bind_ok.mp hok
    obtain ⟨password, hp, hok⟩ := bind_ok.mp hok
    cases hok
    rw [h]
    exact requiredPassword_ok hp
  dropped _ hnote := nomatch hnote

section
variable (p : Platform) (columns : Columns) (width : Nat)

theorem browserItem_reads {layout : BrowserLayout} (h : layout.password = ascii "password") :
    Reads (CsvParser.browser.passwordCell p columns ·) (CsvParser.browser.marksNote p columns ·)
      (browserItem p layout columns width) := by
  unfold browserItem
  rw [h]
  exact reads_of_bind fun _ _ => foldl_same (fun _ _ => carry_password _ _ _ _) _ _

theorem dashlaneItem_reads :
    Reads (CsvParser.dashlane.passwordCell p columns ·) (CsvParser.dashlane.marksNote p columns ·)
    (dashlaneItem columns width) :=
  reads_of_bind fun _ _ => (carry_password _ _ _ _).trans (foldl_same (fun _ _ => carry_password _ _ _ _) _ _)

theorem onePasswordItem_reads : Reads (CsvParser.onePassword.passwordCell p columns ·)
    (CsvParser.onePassword.marksNote p columns ·) (onePasswordItem p columns width) :=
  reads_of_bind fun _ _ => (carry_password _ _ _ _).trans ((carry_password _ _ _ _).trans (carry_password _ _ _ _))

theorem genericRow_reads (mapping : Option CsvColumnMapping) :
    Reads ((CsvParser.generic mapping).passwordCell p columns ·) ((CsvParser.generic mapping).marksNote p columns ·)
      (genericRow p (mapping.getD (suggestMapping p columns.header)) columns width) :=
  reads_of_bind fun _ _ => (foldl_same (fun _ _ => carry_password _ _ _ _) _ _).trans (carry_password _ _ _ _)

theorem keePassItem_reads {layout : KeePassLayout} (h : layout.password = ascii "password") :
    Reads (CsvParser.keePass.passwordCell p columns ·) (CsvParser.keePass.marksNote p columns ·)
      (keePassItem layout columns width) where
  kept row item _ hok := by
    obtain ⟨-, -, hok⟩ := bind_ok.mp hok
    obtain ⟨password, hp, hok⟩ := bind_ok.mp hok
    rw [h] at hp
    simp only at hok
    split at hok
    · cases hok
      exact requiredPassword_ok hp
    · cases hok
      rw [carry_password]
      exact requiredPassword_ok hp
  dropped _ hnote := nomatch hnote

theorem lastPassItem_reads :
    Reads (CsvParser.lastPass.passwordCell p columns ·) (CsvParser.lastPass.marksNote p columns ·)
    (lastPassItem p columns width) where
  kept row item hnote hok := by
    have hurl : ¬ word p (columns.text row (some (ascii "url"))) = SECURE_NOTE_URL := of_decide_eq_false hnote
    obtain ⟨-, -, hok⟩ := bind_ok.mp hok
    simp only [if_neg hurl] at hok
    obtain ⟨password, hp, hok⟩ := bind_ok.mp hok
    cases hok
    rw [carry_password]
    exact requiredPassword_ok hp
  dropped row hnote hextra := by
    have hurl : word p (columns.text row (some (ascii "url"))) = SECURE_NOTE_URL := of_decide_eq_true hnote
    unfold lastPassItem
    rw [refuseSurplus_ok hextra]
    simp only [if_pos hurl]
    exact ⟨_, rfl, rfl, rfl⟩

theorem kind_of_unmarked {kinds : List (Text × ImportItemType)} {type : Text} {kind : ImportItemType}
    (hnote : ¬ kinds.lookup type = some .note)
    (h : (if type = [] then some .login else kinds.lookup type) = some kind) : kind = .login := by
  split at h
  · cases h
    rfl
  · cases kind with
    | login => rfl
    | note => exact absurd h hnote

theorem kind_of_marked {kinds : List (Text × ImportItemType)} {type : Text} (hnil : kinds.lookup [] ≠ some .note)
    (h : kinds.lookup type = some .note) : (if type = [] then some .login else kinds.lookup type) = some .note := by
  have hne : type ≠ [] := by
    rintro rfl
    exact hnil h
  rw [if_neg hne, h]

theorem nordPassItem_reads :
    Reads (CsvParser.nordPass.passwordCell p columns ·) (CsvParser.nordPass.marksNote p columns ·)
    (nordPassItem p columns width) where
  kept row item hnote hok := by
    have hkind : ¬ nordPassKinds.lookup (word p (columns.text row (some (ascii "type")))) = some .note :=
      of_decide_eq_false hnote
    obtain ⟨-, -, hok⟩ := bind_ok.mp hok
    simp only at hok
    split at hok
    · cases hok
    · rename_i kind hk
      cases kind_of_unmarked hkind hk
      obtain ⟨item', hitem, hok⟩ := bind_ok.mp hok
      obtain ⟨password, hp, hitem⟩ := bind_ok.mp hitem
      cases hitem
      cases hok
      rw [carry_password]
      exact requiredPassword_ok hp
  dropped row hnote hextra := by
    have hkind : nordPassKinds.lookup (word p (columns.text row (some (ascii "type")))) = some .note :=
      of_decide_eq_true hnote
    have hkind := kind_of_marked (by decide) hkind
    unfold nordPassItem
    rw [refuseSurplus_ok hextra]
    simp only [hkind]
    exact ⟨_, rfl, carry_type _ _ _ _, carry_password _ _ _ _⟩

theorem bitwardenItem_reads : Reads (CsvParser.bitwarden.passwordCell p columns ·)
    (CsvParser.bitwarden.marksNote p columns ·) (bitwardenItem p columns width) where
  kept row item hnote hok := by
    have hkind : ¬ bitwardenKinds.lookup (word p (columns.text row (some (ascii "type")))) = some .note :=
      of_decide_eq_false hnote
    obtain ⟨-, -, hok⟩ := bind_ok.mp hok
    simp only at hok
    split at hok
    · cases hok
    · rename_i kind hk
      cases kind_of_unmarked hkind hk
      obtain ⟨item', hitem, hok⟩ := bind_ok.mp hok
      obtain ⟨password, hp, hitem⟩ := bind_ok.mp hitem
      cases hitem
      cases hok
      rw [carry_password, carry_password, carry_password]
      exact requiredPassword_ok hp
  dropped row hnote hextra := by
    have hkind : bitwardenKinds.lookup (word p (columns.text row (some (ascii "type")))) = some .note :=
      of_decide_eq_true hnote
    have hkind := kind_of_marked (by decide) hkind
    unfold bitwardenItem
    rw [refuseSurplus_ok hextra]
    simp only [hkind]
    exact ⟨_, rfl, (carry_type _ _ _ _).trans (carry_type _ _ _ _),
      (carry_password _ _ _ _).trans (carry_password _ _ _ _)⟩

end

theorem layout_reads {p : Platform} {parser : CsvParser} {columns : Columns} {width : Nat}
    {toItem : CsvRow → RowOutcome} (h : parser.layout p columns width = some toItem) :
    Reads (parser.passwordCell p columns ·) (parser.marksNote p columns ·) toItem := by
  have hite : ∀ {c : Bool} {f : CsvRow → RowOutcome}, (if c then some f else none) = some toItem →
    f = toItem := by
    intro c f hf
    split at hf <;> cases hf
    rfl
  cases parser with
  | browser =>
    obtain ⟨layout, hl, rfl⟩ := Option.map_eq_some_iff.mp h
    have hall : ∀ layout ∈ browserLayouts, layout.password = ascii "password" := by
      simp [browserLayouts, firefox, safari, chromium]
    exact browserItem_reads p columns width (hall layout (List.mem_of_find?_eq_some hl))
  | bitwarden => exact hite h ▸ bitwardenItem_reads p columns width
  | lastPass => exact hite h ▸ lastPassItem_reads p columns width
  | onePassword => exact hite h ▸ onePasswordItem_reads p columns width
  | keePass =>
    obtain ⟨layout, hl, rfl⟩ := Option.map_eq_some_iff.mp h
    have hall : ∀ layout ∈ keePassLayouts, layout.password = ascii "password" := by
      simp [keePassLayouts, keePassXc, keePass1x]
    exact keePassItem_reads p columns width (hall layout (List.mem_of_find?_eq_some hl))
  | nordPass => exact hite h ▸ nordPassItem_reads p columns width
  | dashlane => exact hite h ▸ dashlaneItem_reads p columns width
  | generic mapping =>
    unfold CsvParser.layout genericLayout at h
    simp only at h
    split at h <;> cases h
    exact genericRow_reads p columns width mapping

/-! ## The whole text -/

theorem plaintext_password (item : ImportItem) (folderId : Option Text) (h : item.password ≠ []) :
    (toItemPlaintext item folderId).password = some item.password := by
  unfold toItemPlaintext
  rw [if_pos (by simp [h])]
  rfl

theorem plaintext_of_note {item : ImportItem} (ht : item.type = .note) (hp : item.password = [])
    (folderId : Option Text) : (toItemPlaintext item folderId).password = none := by
  unfold toItemPlaintext
  rw [if_neg (by simp [ht, hp])]
  rfl

section
variable {ρ : Type} {line : ρ → Nat} {toItem : ρ → RowOutcome} {rows : List ρ} {errors : List ImportRowError}

theorem kept_of_reported {row : ρ} {password : Text} (hd : line row ∈ errors.map (·.row)) :
    Kept (mapCsvRows line rows errors toItem) (line row) password := by
  obtain ⟨e, he, hl⟩ := List.mem_map.mp hd
  exact .inl ⟨e, (@mapCsvRows_errors ρ line toItem rows errors).mem_iff.mpr (List.mem_append_left _ he), hl⟩

theorem kept_iff (hline : ∀ row, (toItem row).line = line row) (hlines : (rows.map line).Pairwise (· < ·))
    {row : ρ} (hrow : row ∈ rows) (hd : line row ∉ errors.map (·.row)) (password : Text) :
    Kept (mapCsvRows line rows errors toItem) (line row) password ↔
      ∀ item, toItem row = .ok item → ∀ folderId, (toItemPlaintext item folderId).password = some password := by
  obtain ⟨hitems, herrors⟩ := mapCsvRows_at hline hlines hrow hd
  have hmem : ∀ item, (item ∈ (mapCsvRows line rows errors toItem).items ∧ item.sourceRow = line row) ↔
      item ∈ itemsOf [toItem row] := by
    intro item
    rw [← hitems, List.mem_filter, decide_eq_true_eq]
  have hemem : ∀ e, (e ∈ (mapCsvRows line rows errors toItem).errors ∧ e.row = line row) ↔
      e ∈ errorsOf [toItem row] := by
    intro e
    rw [← herrors.mem_iff, List.mem_filter, decide_eq_true_eq]
  unfold Kept
  cases hr : toItem row with
  | error e =>
    rw [hr] at hemem
    have hone : e ∈ errorsOf [.error e] := List.mem_singleton.mpr rfl
    exact ⟨fun _ item hok => (nomatch hok), fun _ => Or.inl ⟨e, (hemem e).mpr hone⟩⟩
  | ok item =>
    rw [hr] at hmem hemem
    constructor
    · rintro (⟨e, he⟩ | ⟨item', hi, hl, hp⟩)
      · exact nomatch (hemem e).mp he
      · intro item₀ hok
        cases hok
        rw [List.mem_singleton.mp ((hmem item').mp ⟨hi, hl⟩)] at hp
        exact hp
    · intro h
      obtain ⟨hi, hl⟩ := (hmem item).mpr (List.mem_singleton.mpr rfl)
      exact .inr ⟨item, hi, hl, h item rfl⟩

end

/-- Where the reader reports nothing, a row keeps its password, is refused, or is taken for a note. -/
theorem reads_kept_iff {cell : CsvRow → Option Text} {note : CsvRow → Bool} {toItem : CsvRow → RowOutcome}
    (hreads : Reads cell note toItem) (hanswers : Answers toItem) {row : CsvRow} {password : Text}
    (hp : password ≠ []) (hcell : cell row = some password) :
    (∀ item, toItem row = .ok item → ∀ folderId, (toItemPlaintext item folderId).password = some password) ↔
      note row = false ∨ row.extra ≠ [] := by
  constructor
  · intro h
    by_contra hc
    rw [not_or, Bool.not_eq_false, not_not] at hc
    obtain ⟨item, hok, ht, hnone⟩ := hreads.dropped row hc.1 hc.2
    have := h item hok none
    rw [plaintext_of_note ht hnone] at this
    cases this
  · rintro (hnote | hextra) item hok folderId
    · have hsame := hreads.kept row item hnote hok
      rw [hcell, Option.some.injEq] at hsame
      rw [plaintext_password item folderId (hsame ▸ hp), hsame]
    · have hrefused := hanswers.surplus row hextra
      rw [hok] at hrefused
      cases hrefused

theorem keeperRecord_ok {record : CsvRecord} {item : ImportItem} (h : keeperRecord record = .ok item) :
    record.values[3]? = some item.password := by
  obtain ⟨password, hp, hok⟩ := bind_ok.mp h
  cases hok
  exact requiredPassword_ok hp

theorem parse_kept_iff {p : Platform} {parser : CsvParser} {text : Text}
    (hrecognised :
      (parser.layout p (indexColumns p (parseCsv text).header) (parseCsv text).header.length).isSome = true)
    {row : CsvRow} (hrow : row ∈ (parseCsv text).rows) {password : Text} (hp : password ≠ [])
    (hcell : parser.passwordCell p (indexColumns p (parseCsv text).header) row = some password) :
    Kept (parser.parse p text) row.line password ↔
      parser.marksNote p (indexColumns p (parseCsv text).header) row = false ∨ row.extra ≠ [] ∨
      ∃ e ∈ (parseCsv text).errors, e.row = row.line := by
  obtain ⟨toItem, h⟩ := Option.isSome_iff_exists.mp hrecognised
  have hanswers := layout_answers h
  have hlines : ((parseCsv text).rows.map (·.line)).Pairwise (· < ·) := by
    rw [parseCsv_lines]
    exact dataRecords_increasing text
  rw [parse_recognised h]
  by_cases hd : row.line ∈ (parseCsv text).errors.map (·.row)
  · exact iff_of_true (kept_of_reported hd) (.inr (.inr (List.mem_map.mp hd)))
  · have hnone : ¬ ∃ e ∈ (parseCsv text).errors, e.row = row.line := fun he => hd (List.mem_map.mpr he)
    rw [kept_iff hanswers.line hlines hrow hd, reads_kept_iff (layout_reads h) hanswers hp hcell]
    simp only [hnone, or_false]

theorem keeper_kept {text : Text} {record : CsvRecord} (hrecord : record ∈ (parseCsvRecords text).rows)
    {password : Text} (hp : password ≠ []) (hcell : record.values[3]? = some password) :
    Kept (parseKeeperCsv text) record.line password := by
  unfold parseKeeperCsv
  by_cases hd : record.line ∈ (parseCsvRecords text).errors.map (·.row)
  · exact kept_of_reported hd
  · rw [kept_iff keeperRecord_line (keeper_lines text) hrecord hd]
    intro item hok folderId
    have hsame := keeperRecord_ok hok
    rw [hcell, Option.some.injEq] at hsame
    rw [plaintext_password item folderId (hsame ▸ hp), hsame]

/-- Under a header the parser recognises, a row with a password keeps it or is
reported, unless it carries the vendor's mark of a note and nothing else is
wrong with it. In a file of Keeper, which has no such mark, every row does. -/
theorem passwords_kept_iff (p : Platform) :
    (∀ (parser : CsvParser) (text : Text),
      (parser.layout p (indexColumns p (parseCsv text).header) (parseCsv text).header.length).isSome = true →
      ∀ row ∈ (parseCsv text).rows, ∀ password ≠ [],
      parser.passwordCell p (indexColumns p (parseCsv text).header) row = some password →
      (Kept (parser.parse p text) row.line password ↔
        parser.marksNote p (indexColumns p (parseCsv text).header) row = false ∨ row.extra ≠ [] ∨
        ∃ e ∈ (parseCsv text).errors, e.row = row.line)) ∧
    ∀ (text : Text), ∀ record ∈ (parseCsvRecords text).rows, ∀ password ≠ [],
      record.values[3]? = some password →
      Kept (parseKeeperCsv text) record.line password :=
  ⟨fun _ _ hrecognised _ hrow _ hp hcell => parse_kept_iff hrecognised hrow hp hcell,
    fun _ _ hrecord _ hp hcell => keeper_kept hrecord hp hcell⟩

/-- A LastPass secure note with a password, and a login that keeps its own. -/
def lastPassExport : Text := ascii "url,password,grouping\nhttp://sn,a,\nx,b,"

theorem passwords_kept_iff_login : Kept (parseLastPassCsv asciiPlatform lastPassExport) 3 (ascii "b") :=
  ((passwords_kept_iff asciiPlatform).1 .lastPass lastPassExport (by decide) ⟨3, [ascii "x", ascii "b", []], []⟩
    (by decide) (ascii "b") (by decide) (by decide)).mpr (.inl (by decide))

theorem secure_note_loses_password :
    ⟨2, [ascii "http://sn", ascii "a", []], []⟩ ∈ (parseCsv lastPassExport).rows ∧
    ¬ Kept (parseLastPassCsv asciiPlatform lastPassExport) 2 (ascii "a") := by
  have hrow : ⟨2, [ascii "http://sn", ascii "a", []], []⟩ ∈ (parseCsv lastPassExport).rows := by decide
  refine ⟨hrow, fun h => ?_⟩
  have hc := (@parse_kept_iff asciiPlatform .lastPass _ (by decide) _ hrow _ (by decide) (by decide)).mp h
  exact absurd hc (by decide)

end Keyhole.Import
