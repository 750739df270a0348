import Keyhole.Import.Cells
import Keyhole.Import.Grammar

/-!
# The mappings of the import panel

A mapping is suggested from a header, edited on the screen and normalised. It
covers a header in which no name is repeated, as far as the panel has seen it
and where every column has a name.
-/

namespace Keyhole.Import

open Csv (WrittenRow Admissible write write_derives)

variable {p : Platform}

/-! ## The suggestion -/

theorem foldl_addByLower (header : List Text) (seen : List (Text × Text)) (hn : (seen.map (·.1)).Nodup) :
    (∀ e ∈ header.foldl (addByLower p) seen, e ∈ seen ∨ ∃ cell ∈ header, e = (key p cell, trim cell)) ∧
    ((header.foldl (addByLower p) seen).map (·.1)).Nodup ∧
    seen ⊆ header.foldl (addByLower p) seen ∧
    ∀ cell ∈ header, key p cell ∈ (header.foldl (addByLower p) seen).map (·.1) := by
  induction header generalizing seen with
  | nil => exact ⟨fun e he => Or.inl he, hn, List.Subset.refl _, fun cell hc => by cases hc⟩
  | cons first header ih =>
    have hstep : (∀ e ∈ addByLower p seen first, e ∈ seen ∨ e = (key p first, trim first)) ∧
        ((addByLower p seen first).map (·.1)).Nodup ∧ seen ⊆ addByLower p seen first ∧
        key p first ∈ (addByLower p seen first).map (·.1) := by
      unfold addByLower
      split
      · rename_i hmem
        exact ⟨fun e he => Or.inl he, hn, List.Subset.refl _, hmem⟩
      · rename_i hmem
        refine ⟨fun e he => ?_, ?_, List.subset_append_left _ _, by simp⟩
        · simpa using he
        · rw [List.map_append, List.nodup_append]
          refine ⟨hn, by simp, ?_⟩
          rintro a ha b hb rfl
          rw [List.map_singleton, List.mem_singleton] at hb
          rw [hb] at ha
          exact hmem ha
    obtain ⟨hfrom, hnodup, hsub, hall⟩ := ih (addByLower p seen first) hstep.2.1
    refine ⟨?_, hnodup, fun e he => hsub (hstep.2.2.1 he), ?_⟩
    · intro e he
      cases hfrom e he with
      | inl h =>
        cases hstep.1 e h with
        | inl h => exact Or.inl h
        | inr h => exact Or.inr ⟨first, List.mem_cons_self, h⟩
      | inr h =>
        obtain ⟨cell, hc, he⟩ := h
        exact Or.inr ⟨cell, List.mem_cons_of_mem _ hc, he⟩
    · intro cell hc
      cases List.mem_cons.mp hc with
      | inl h =>
        subst h
        exact List.map_subset _ hsub hstep.2.2.2
      | inr h => exact hall cell h

theorem byLower_entry {header : List Text} {e : Text × Text} (h : e ∈ byLower p header) :
    e.1 = key p e.2 ∧ ∃ cell ∈ header, e.2 = trim cell := by
  cases (foldl_addByLower (p := p) header [] List.nodup_nil).1 e h with
  | inl h => cases h
  | inr h =>
    obtain ⟨cell, hc, rfl⟩ := h
    exact ⟨(key_trim p cell).symm, cell, hc, rfl⟩

theorem byLower_nodup (header : List Text) : ((byLower p header).map (·.1)).Nodup :=
  (foldl_addByLower header [] List.nodup_nil).2.1

theorem mem_byLower {header : List Text} {cell : Text} (h : cell ∈ header) :
    key p cell ∈ (byLower p header).map (·.1) :=
  (foldl_addByLower header [] List.nodup_nil).2.2.2 cell h

theorem pick_some {header : List Text} {field : MappedField} {name : Text}
    (h : (suggestMapping p header).column field = some name) :
    (key p name, name) ∈ byLower p header ∧ key p name ∈ candidates field := by
  obtain ⟨candidate, hc, hl⟩ := List.exists_of_findSome?_eq_some h
  have hmem : (candidate, name) ∈ byLower p header := by
    obtain ⟨l₁, l₂, heq, -⟩ := List.lookup_eq_some_iff.mp hl
    rw [heq]
    simp
  have hk := (byLower_entry hmem).1
  simp only at hk
  subst hk
  exact ⟨hmem, hc⟩

theorem suggested_sound (header : List Text) : Sound p (suggestMapping p header) where
  custom name hname pass hpass := by
    intro hk
    obtain ⟨hmem, hnone⟩ := List.mem_filter.mp hname
    obtain ⟨e, he, rfl⟩ := List.mem_map.mp hmem
    obtain ⟨hentry, -⟩ := pick_some hpass
    have hsame : e = (key p pass, pass) := List.inj_on_of_nodup_map (byLower_nodup header) he hentry
      ((byLower_entry he).1.trans hk)
    have hpicked : some e.2 ∈ mappedFields.map (pick (byLower p header)) :=
      List.mem_map.mpr ⟨.password, by decide, by rw [hsame]; exact hpass⟩
    simp only [hpicked, not_true_eq_false, decide_false, Bool.false_eq_true] at hnone
  totp name pass hname hpass hk := by
    have htotp := (pick_some hname).2
    have hpassword := (pick_some hpass).2
    rw [hk] at htotp
    exact absurd hpassword (by
      have hdisjoint : ∀ c ∈ candidates .totp, c ∉ candidates .password := by decide
      exact hdisjoint _ htotp)

theorem suggested_named (header : List Text) :
    ∀ column ∈ header, key p column ∈ (suggestMapping p header).names.map (key p) := by
  intro column hc
  obtain ⟨e, he, hk⟩ := List.mem_map.mp (mem_byLower (p := p) hc)
  have hname : e.2 ∈ (suggestMapping p header).names := by
    by_cases hpicked : some e.2 ∈ mappedFields.map (pick (byLower p header))
    · obtain ⟨field, hfield, hpick⟩ := List.mem_map.mp hpicked
      exact List.mem_append_left _ (List.mem_filterMap.mpr ⟨field, hfield, hpick⟩)
    · exact List.mem_append_right _ (List.mem_filter.mpr ⟨List.mem_map_of_mem he, by simpa using hpicked⟩)
  exact List.mem_map.mpr ⟨e.2, hname, by rw [← hk, (byLower_entry he).1]⟩

/-! ## The screen -/

theorem normalizeCustom_from {placed seen header : List Text} {name : Text}
    (h : name ∈ normalizeCustom p placed seen header) :
    ∃ cell ∈ header, name = trim cell ∧ trim cell ≠ [] ∧ key p cell ∉ placed := by
  induction header generalizing seen with
  | nil => cases h
  | cons first header ih =>
    unfold normalizeCustom at h
    split at h
    · obtain ⟨cell, hc, hrest⟩ := ih h
      exact ⟨cell, List.mem_cons_of_mem _ hc, hrest⟩
    · rename_i hkeep
      simp only [Bool.or_eq_true, decide_eq_true_eq, not_or] at hkeep
      cases List.mem_cons.mp h with
      | inl h => exact ⟨first, List.mem_cons_self, h, hkeep.1.1, hkeep.1.2⟩
      | inr h =>
        obtain ⟨cell, hc, hrest⟩ := ih h
        exact ⟨cell, List.mem_cons_of_mem _ hc, hrest⟩

theorem normalizeCustom_named {placed seen header : List Text} {cell : Text} (hc : cell ∈ header)
    (hblank : trim cell ≠ []) (hplaced : key p cell ∉ placed) (hseen : key p cell ∉ seen) :
    ∃ name ∈ normalizeCustom p placed seen header, key p name = key p cell := by
  induction header generalizing seen with
  | nil => cases hc
  | cons first header ih =>
    unfold normalizeCustom
    split
    · rename_i hskip
      cases List.mem_cons.mp hc with
      | inl h =>
        subst h
        simp [hblank, hplaced, hseen] at hskip
      | inr h => exact ih h hseen
    · by_cases hk : key p first = key p cell
      · exact ⟨trim first, List.mem_cons_self, by rw [key_trim, hk]⟩
      · cases List.mem_cons.mp hc with
        | inl h => exact absurd (by rw [h]) hk
        | inr h =>
          obtain ⟨name, hname, hkey⟩ := @ih (seen ++ [key p first]) h (by
            simp only [List.mem_append, List.mem_singleton, not_or]
            exact ⟨hseen, fun h => hk h.symm⟩)
          exact ⟨name, List.mem_cons_of_mem _ hname, hkey⟩

def CsvColumnMapping.placed (p : Platform) (mapping : CsvColumnMapping) : List Text :=
  (mappedFields.filterMap mapping.column).map (key p)

theorem placed_of_column {mapping : CsvColumnMapping} {field : MappedField} {name : Text}
    (h : mapping.column field = some name) : key p name ∈ mapping.placed p :=
  List.mem_map_of_mem (List.mem_filterMap.mpr ⟨field, by cases field <;> decide, h⟩)

theorem normalised_named {mapping : CsvColumnMapping} {header : List Text} {k : Text} :
    k ∈ (normalizeMapping p mapping header).names.map (key p) ↔
      k ∈ mapping.placed p ∨ ∃ cell ∈ header, trim cell ≠ [] ∧ key p cell = k := by
  unfold CsvColumnMapping.names
  rw [List.map_append, List.mem_append]
  constructor
  · intro h
    cases h with
    | inl h => exact Or.inl h
    | inr h =>
      obtain ⟨name, hname, rfl⟩ := List.mem_map.mp h
      obtain ⟨cell, hc, rfl, hblank, -⟩ := normalizeCustom_from hname
      exact Or.inr ⟨cell, hc, hblank, (key_trim p cell).symm⟩
  · intro h
    by_cases hplaced : k ∈ mapping.placed p
    · exact Or.inl hplaced
    · cases h with
      | inl h => exact absurd h hplaced
      | inr h =>
        obtain ⟨cell, hc, hblank, rfl⟩ := h
        obtain ⟨name, hname, hk⟩ := normalizeCustom_named hc hblank hplaced List.not_mem_nil
        exact Or.inr (List.mem_map.mpr ⟨name, hname, hk⟩)

theorem normalised_sound {mapping : CsvColumnMapping} {header : List Text}
    (hshort : ∀ field name, mapping.column field = some name → name.length ≤ HEADER_PROBE_LIMIT) :
    Sound p (normalizeMapping p mapping header) where
  custom name hname pass hpass := by
    obtain ⟨cell, -, rfl, -, hplaced⟩ := normalizeCustom_from hname
    intro hk
    rw [key_trim] at hk
    exact hplaced (hk ▸ placed_of_column hpass)
  totp name _ hname _ _ := hshort .totp name hname

theorem trim_length (s : Text) : (trim s).length ≤ s.length :=
  Nat.le_trans (List.rdropWhile_prefix isSpace _).length_le (List.dropWhile_suffix _).length_le

theorem edited_short {header : List Text} {mapping : CsvColumnMapping}
    (h : Edited header (suggestMapping p header) mapping)
    (hshort : ∀ column ∈ header, column.length ≤ HEADER_PROBE_LIMIT) :
    ∀ field name, mapping.column field = some name → name.length ≤ HEADER_PROBE_LIMIT := by
  induction h with
  | unchanged =>
    intro field name hname
    obtain ⟨-, cell, hc, hcell⟩ := byLower_entry (pick_some hname).1
    simp only at hcell
    rw [hcell]
    exact Nat.le_trans (trim_length cell) (hshort cell hc)
  | column h field choice hc ih =>
    intro field' name hname
    simp only at hname
    split at hname
    · exact hshort name (hc name hname).1
    · exact ih field' name hname
  | separator h separator ih => exact ih

theorem suggested_password (header : List Text) :
    (∃ pass, (suggestMapping p header).column .password = some pass ∧ key p pass ∈ header.map (key p)) ↔
      ∃ column ∈ header, key p column ∈ candidates .password := by
  constructor
  · rintro ⟨pass, hpass, hmem⟩
    obtain ⟨column, hc, hk⟩ := List.mem_map.mp hmem
    exact ⟨column, hc, hk ▸ (pick_some hpass).2⟩
  · rintro ⟨column, hc, hcandidate⟩
    have hlookup : ((byLower p header).lookup (key p column)).isSome = true := by
      rw [List.lookup_isSome_iff]
      obtain ⟨e, he, hk⟩ := List.mem_map.mp (mem_byLower (p := p) hc)
      exact ⟨e, he, by simp [hk]⟩
    have hpick : ((suggestMapping p header).column .password).isSome = true :=
      List.findSome?_isSome_iff.mpr ⟨key p column, hcandidate, hlookup⟩
    obtain ⟨pass, hpass⟩ := Option.isSome_iff_exists.mp hpick
    obtain ⟨-, cell, hcell, hname⟩ := byLower_entry (pick_some hpass).1
    simp only at hname
    exact ⟨pass, hpass, List.mem_map.mpr ⟨cell, hcell, by rw [hname, key_trim]⟩⟩

/-! ## A text of one row -/

/-- A row with every cell in quotes. -/
def quotedRow (first : Text) (others : List Text) : WrittenRow CodeUnit where
  first := ⟨first, true⟩
  others := others.map (⟨·, true⟩)
  ending := .lf

theorem quotedRow_values (first : Text) (others : List Text) :
    (quotedRow first others).values = first :: others := by
  simp [quotedRow, WrittenRow.values, Function.comp_def]

theorem quotedRow_admissible (first : Text) (others : List Text) : (quotedRow first others).Admissible marks where
  cells w hw := by
    have hquoted : w.quoted = true := by
      cases List.mem_cons.mp hw with
      | inl h => rw [h]; rfl
      | inr h =>
        obtain ⟨value, -, rfl⟩ := List.mem_map.mp h
        rfl
    intro h
    rw [hquoted] at h
    cases h
  nonblank _ _ := rfl

theorem text_of_row {header values : List Text} (hh : header ≠ []) (hv : values ≠ []) :
    ∃ text line, (parseCsv text).header = header ∧ (parseCsv text).errors = [] ∧
      dataRecords text = [⟨line, values, false⟩] := by
  obtain ⟨name, names, rfl⟩ := List.exists_cons_of_ne_nil hh
  obtain ⟨value, rest, rfl⟩ := List.exists_cons_of_ne_nil hv
  have hadmissible : Admissible marks true [quotedRow name names, quotedRow value rest] := by
    refine ⟨fun r hr => ?_, fun h => by cases h⟩
    simp only [List.mem_cons, List.not_mem_nil, or_false] at hr
    obtain rfl | rfl := hr <;> exact quotedRow_admissible _ _
  obtain ⟨herrors, hvalues⟩ := parseCsvRecords_of_derives (write_derives true false hadmissible)
  generalize write marks true false [quotedRow name names, quotedRow value rest] = text at herrors hvalues
  simp only [List.map_cons, List.map_nil, quotedRow_values] at hvalues
  unfold parseCsvRecords at herrors hvalues
  simp only [List.map_map, Function.comp_def] at hvalues
  obtain ⟨head, tail, hrecords, hhead, htail⟩ := List.map_eq_cons_iff.mp hvalues
  obtain ⟨record, tail', rfl, hrecord, htail'⟩ := List.map_eq_cons_iff.mp htail
  have hnone := List.map_eq_nil_iff.mp htail'
  subst hnone
  have hblank : record.blank = false := by
    have hmem : record ∈ (scan (withoutBom text)).records.filter (!·.blank) := by
      rw [hrecords]
      simp
    simpa using (List.mem_filter.mp hmem).2
  refine ⟨text, record.line, ?_, ?_, ?_⟩
  · unfold parseCsv
    simp only [hrecords]
    exact hhead
  · rw [parseCsv_errors]
    exact herrors
  · unfold dataRecords
    rw [hrecords, ← hrecord, ← hblank]
    rfl

/-! ## The import -/

theorem generic_parsed {text : Text} {mapping : CsvColumnMapping} {pass : Text}
    (h : mapping.column .password = some pass) :
    parseGenericCsv p (some mapping) text = mapCsvRows (·.line) (parseCsv text).rows (parseCsv text).errors
      (genericRow p mapping (indexColumns p (parseCsv text).header) (parseCsv text).header.length) := by
  unfold parseGenericCsv parseTable genericLayout
  simp [h]

def ItemsKept (p : Platform) (mapping : CsvColumnMapping) (text : Text) (folderId : Option Text) : Prop :=
  ∀ item ∈ (parseGenericCsv p (some mapping) text).items, ∃ r ∈ dataRecords text, item.sourceRow = r.line ∧
    CellsKept p (parseCsv text).header mapping r.fields (toItemPlaintext item folderId)

theorem generic_item_row {text : Text} {mapping : CsvColumnMapping} {item : ImportItem}
    (h : item ∈ (parseGenericCsv p (some mapping) text).items) :
    ∃ r ∈ dataRecords text, item.sourceRow = r.line ∧
      genericRow p mapping (indexColumns p (parseCsv text).header) (parseCsv text).header.length
        (buildRow r (parseCsv text).header.length) = .ok item := by
  cases hpassword : mapping.column .password with
  | none =>
    unfold parseGenericCsv parseTable genericLayout at h
    simp [hpassword] at h
  | some pass =>
    have hanswers := genericRow_answers p (indexColumns p (parseCsv text).header)
      (parseCsv text).header.length mapping
    rw [generic_parsed hpassword, mapCsvRows_items] at h
    obtain ⟨row, hrow, -, hok, hline⟩ := itemsOf_row hanswers.line h
    rw [parseCsv_rows] at hrow
    obtain ⟨r, hr, rfl⟩ := List.mem_map.mp hrow
    exact ⟨r, hr, hline, hok⟩

theorem password_found {mapping : CsvColumnMapping} {header : List Text} {width : Nat} {row : CsvRow}
    {item : ImportItem}
    (h : genericRow p mapping (indexColumns p header) width row = .ok item) :
    ∃ pass, mapping.column .password = some pass ∧ key p pass ∈ header.map (key p) := by
  obtain ⟨-, checked, hread, -⟩ := genericRow_ok h
  cases hcolumn : mapping.column .password with
  | none =>
    rw [hcolumn] at hread
    cases hread
  | some pass =>
    refine ⟨pass, rfl, ?_⟩
    rw [hcolumn] at hread
    unfold read Columns.value at hread
    simp only [Option.map_some, Option.bind_some] at hread
    cases hp : (indexColumns p header).position (key p pass) with
    | none =>
      rw [hp] at hread
      cases hread
    | some i =>
      obtain ⟨column, hc, hk, -⟩ := position_some hp
      exact List.mem_map.mpr ⟨column, List.mem_of_getElem? hc, hk⟩

theorem covers_of_kept {mapping : CsvColumnMapping} (hs : Sound p mapping) {header : List Text} {pass : Text}
    (hcolumn : mapping.column .password = some pass) (hpass : key p pass ∈ header.map (key p))
    (folderId : Option Text) (h : ∀ text, (parseCsv text).header = header → ItemsKept p mapping text folderId) :
    Covers p header mapping := by
  by_contra hnot
  obtain ⟨i, hi, hun⟩ := unread_of_not_covers hnot
  obtain ⟨j, hj⟩ := position_isSome hpass
  obtain ⟨w, hlost⟩ := lost_of_unread hs hun hi hcolumn hj folderId
  have hvalues : sparse header.length i j w ≠ [] := by
    rw [← List.length_pos_iff]
    simp only [sparse, List.length_map, List.length_range]
    omega
  have hne : header ≠ [] := List.ne_nil_of_length_pos (by omega)
  obtain ⟨text, line, hheader, herrors, hdata⟩ := text_of_row hne hvalues
  obtain ⟨item, hok, hlost⟩ := hlost line
  have hitem : item ∈ (parseGenericCsv p (some mapping) text).items := by
    rw [generic_parsed hcolumn, mapCsvRows_items, parseCsv_rows, hdata, herrors, hheader, mem_itemsOf]
    simpa [outcomes] using hok.symm
  obtain ⟨r, hr, -, hkept⟩ := h text hheader item hitem
  rw [hdata, List.mem_singleton] at hr
  subst hr
  rw [hheader] at hkept
  exact hlost hkept

theorem kept_iff_covers {mapping : CsvColumnMapping} (hs : Sound p mapping) (header : List Text)
    (folderId : Option Text) :
    (∀ text, (parseCsv text).header = header → ItemsKept p mapping text folderId) ↔
      ((∃ pass, mapping.column .password = some pass ∧ key p pass ∈ header.map (key p)) →
        Covers p header mapping) := by
  constructor
  · rintro h ⟨pass, hcolumn, hpass⟩
    exact covers_of_kept hs hcolumn hpass folderId h
  · intro hcovers text hheader item hitem
    obtain ⟨r, hr, hline, hok⟩ := generic_item_row hitem
    refine ⟨r, hr, hline, ?_⟩
    rw [hheader] at hok ⊢
    exact kept_of_covers (hcovers (password_found hok)) hok folderId

/-- The panel's mapping covers a header when no two of its columns have one name, and every column
holds a field or has a name that is not blank and that the panel has seen. -/
theorem normalised_covers_iff (mapping : CsvColumnMapping) (header seen : List Text) :
    Covers p header (normalizeMapping p mapping seen) ↔ (header.map (key p)).Nodup ∧
      ∀ column ∈ header, key p column ∈ mapping.placed p ∨
        ∃ cell ∈ seen, trim cell ≠ [] ∧ key p cell = key p column := by
  constructor
  · intro h
    exact ⟨h.distinct, fun column hc => normalised_named.mp (h.named column hc)⟩
  · rintro ⟨hn, hnamed⟩
    exact ⟨hn, fun column hc => normalised_named.mpr (hnamed column hc)⟩

/-- The mapping that is suggested loses no cell of any text with the header of `text` exactly when no
two names of it are the same. The panel's must also have every column that holds no field by a name. -/
theorem generic_keeps_iff (p : Platform) (text : Text) (folderId : Option Text) :
    ((∀ text', (parseCsv text').header = (parseCsv text).header →
        ItemsKept p (suggestMapping p (parseCsv text').header) text' folderId) ↔
      ((∃ column ∈ (parseCsv text).header, key p column ∈ candidates .password) →
        ((parseCsv text).header.map (key p)).Nodup)) ∧
    ∀ mapping, Edited (probedHeader text) (suggestMapping p (probedHeader text)) mapping →
      ((∀ text', (parseCsv text').header = (parseCsv text).header →
          ItemsKept p (normalizeMapping p mapping (probedHeader text)) text' folderId) ↔
        ((∃ pass, mapping.column .password = some pass ∧ key p pass ∈ (parseCsv text).header.map (key p)) →
          ((parseCsv text).header.map (key p)).Nodup ∧
          ∀ column ∈ (parseCsv text).header, key p column ∈ mapping.placed p ∨
            ∃ cell ∈ probedHeader text, trim cell ≠ [] ∧ key p cell = key p column)) := by
  constructor
  · have hcovers : Covers p (parseCsv text).header (suggestMapping p (parseCsv text).header) ↔
        ((parseCsv text).header.map (key p)).Nodup := ⟨fun h => h.distinct, fun h => ⟨h, suggested_named _⟩⟩
    rw [← suggested_password, ← hcovers, ← kept_iff_covers (suggested_sound _)]
    constructor
    · intro h text' hheader
      rw [← hheader]
      exact h text' hheader
    · intro h text' hheader
      rw [hheader]
      exact h text' hheader
  · intro mapping hedited
    have hshort : ∀ column ∈ probedHeader text, column.length ≤ HEADER_PROBE_LIMIT := by
      intro column hc
      refine Nat.le_trans (header_within _ column hc) ?_
      rw [List.length_take]
      exact Nat.min_le_left _ _
    rw [← normalised_covers_iff]
    exact kept_iff_covers (normalised_sound (edited_short hedited hshort)) _ folderId

/-- A column for the login, one for the second factor and one Keyhole has no field for. -/
def plainNames : Text := ascii "Password,otp,Colour\np,s,blue"

theorem generic_keeps_iff_plain : ItemsKept asciiPlatform (normalizeMapping asciiPlatform
    (suggestMapping asciiPlatform (probedHeader plainNames)) (probedHeader plainNames)) plainNames none :=
  ((generic_keeps_iff asciiPlatform plainNames none).2 _ .unchanged).mpr
    (fun _ => ⟨by decide, by decide⟩) plainNames rfl

/-- Two columns are called `notes`. -/
def repeatedName : Text := ascii "password,Notes,notes\np,first,second"

/-- A column has no name. -/
def blankName : Text := ascii "password, \np,second"

/-- What the panel imports with when the user has changed nothing. -/
def panelMapping (p : Platform) (text : Text) : CsvColumnMapping :=
  normalizeMapping p (suggestMapping p (probedHeader text)) (probedHeader text)

theorem second_lost {notes : Text} (h : ¬ ascii "second" <:+: notes) {mapping : CsvColumnMapping}
    (hsep : mapping.folderSeparator = ascii "/") (column : Text) : ¬ CellKept asciiPlatform mapping
      (.login [] [] (ascii "p") [] notes false none []) column (ascii "second") := by
  intro hkept
  cases hkept with
  | inr hnotes => exact h hnotes
  | inl hfield =>
    obtain ⟨field, name, -, -, hholds⟩ := hfield
    rw [hsep] at hholds
    cases field with
    | name => exact absurd hholds (by decide : ¬ ([] : Text) = ascii "second")
    | username => exact absurd hholds (by decide : ¬ ([] : Text) = ascii "second")
    | password => exact absurd hholds (by decide : ¬ ascii "p" = ascii "second")
    | url => exact List.not_mem_nil hholds
    | notes => exact h hholds
    | folder => exact h (hholds (ascii "second") (by decide))
    | totp => exact h hholds

theorem not_itemsKept {text : Text} {mapping : CsvColumnMapping} {column : Text} {r : RawRecord} (notes : Text)
    (i : Nat)
    (hitems : (parseGenericCsv asciiPlatform (some mapping) text).items.map (toItemPlaintext · none) =
      [.login [] [] (ascii "p") [] notes false none []])
    (hdata : dataRecords text = [r]) (hcolumn : (parseCsv text).header[i]? = some column)
    (hvalue : r.fields[i]? = some (ascii "second")) (hsep : mapping.folderSeparator = ascii "/")
    (hlost : ¬ ascii "second" <:+: notes) : ¬ ItemsKept asciiPlatform mapping text none := by
  intro hkept
  obtain ⟨item, rest, hlist, hplain, -⟩ := List.map_eq_cons_iff.mp hitems
  obtain ⟨r', hr, -, hcells⟩ := hkept item (by rw [hlist]; exact List.mem_cons_self)
  rw [hdata, List.mem_singleton] at hr
  subst hr
  rw [hplain] at hcells
  exact second_lost hlost hsep column (hcells i column (ascii "second") hcolumn hvalue (by decide))

/-- The second column of one name is lost, as suggested and in the panel; in the panel a column without a name
is. -/
theorem generic_loses_cells :
    ¬ ItemsKept asciiPlatform (suggestMapping asciiPlatform (parseCsv repeatedName).header) repeatedName none ∧
    ¬ ItemsKept asciiPlatform (panelMapping asciiPlatform repeatedName) repeatedName none ∧
    ¬ ItemsKept asciiPlatform (panelMapping asciiPlatform blankName) blankName none := by
  have hrepeated : dataRecords repeatedName = [⟨2, [ascii "p", ascii "first", ascii "second"], false⟩] := by decide
  have hblank : dataRecords blankName = [⟨2, [ascii "p", ascii "second"], false⟩] := by decide
  refine ⟨?_, ?_, ?_⟩
  · exact not_itemsKept (ascii "first") 2 (by decide) hrepeated rfl rfl rfl (by decide)
  · exact not_itemsKept (ascii "first") 2 (by decide) hrepeated rfl rfl rfl (by decide)
  · exact not_itemsKept [] 1 (by decide) hblank rfl rfl rfl (by decide)

end Keyhole.Import
