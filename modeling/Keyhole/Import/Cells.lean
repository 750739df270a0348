import Mathlib.Algebra.GroupWithZero.Nat
import Mathlib.Data.List.DropRight
import Mathlib.Data.List.Nodup
import Keyhole.Import.Notes
import Keyhole.Import.Rows

/-!
# Every cell of a generic CSV

A column is read under the name of the first column called so. What a mapping
reads reaches the item; a column it does not read is lost with its cells.
-/

namespace Keyhole.Import

/-! ## Texts -/

theorem dropWhile_of_prefix {v u : Text} (h : v <+: u) (hu : u.dropWhile isSpace = u) :
    v.dropWhile isSpace = v := by
  obtain ⟨rest, rfl⟩ := h
  rw [List.dropWhile_eq_self_iff] at hu ⊢
  intro hpos
  have hc := hu (by rw [List.length_append]; omega)
  rwa [List.getElem_append_left hpos] at hc

theorem trim_trim (s : Text) : trim (trim s) = trim s := by
  change ((trim s).dropWhile isSpace).rdropWhile isSpace = (s.dropWhile isSpace).rdropWhile isSpace
  have hhead : (trim s).dropWhile isSpace = (s.dropWhile isSpace).rdropWhile isSpace :=
    dropWhile_of_prefix (List.rdropWhile_prefix _ _) (List.dropWhile_idempotent _ _)
  rw [hhead, List.rdropWhile_idempotent]

theorem key_trim (p : Platform) (s : Text) : key p (trim s) = key p s := by
  unfold key
  rw [trim_trim]

/-! ## The notes -/

def noteLines (item : ImportItem) : List Text :=
  (if item.folderPath = [] then [] else [ascii "Folder: " ++ join PATH_SEPARATOR item.folderPath]) ++
    item.extra.map extraLine

theorem composeNotes_eq (item : ImportItem) : composeNotes item [] =
    if noteLines item = [] then item.notes
    else if item.notes = [] then join [LF] (IMPORTED_HEADING :: noteLines item)
    else item.notes ++ [LF, LF] ++ join [LF] (IMPORTED_HEADING :: noteLines item) := by
  unfold composeNotes noteLines
  simp only [List.append_nil]

theorem notes_noted (item : ImportItem) :
    item.notes <:+: composeNotes item [] := (composeNotes_begins item []).isInfix

theorem noteLines_eq (item : ImportItem) : noteLines item = blockLines item [] := by simp [noteLines, blockLines]

theorem line_noted {item : ImportItem} {line : Text} (h : line ∈ noteLines item) : line <:+: composeNotes item [] :=
  line_composed (noteLines_eq item ▸ h)

theorem segment_noted {item : ImportItem} {segment : Text} (h : segment ∈ item.folderPath) :
    segment <:+: composeNotes item [] :=
  segment_composed [] h

theorem extra_noted {item : ImportItem} {field : ImportField} (h : field ∈ item.extra) :
    field.value <:+: composeNotes item [] :=
  (extraLine_value field).isInfix.trans (line_noted (List.mem_append_right _ (List.mem_map_of_mem h)))

/-! ## What an item keeps -/

/-- Where the value of a column goes that is mapped to `field`. -/
def ItemPlaintext.Holds (plain : ItemPlaintext) (separator : Text) (field : MappedField) (value : Text) : Prop :=
  match plain, field with
  | .login name .., .name | .note name .., .name => name = value
  | .login _ username .., .username => username = value
  | .login _ _ password .., .password => password = value
  | .login _ _ _ urls .., .url => value ∈ urls
  | _, .folder => ∀ segment ∈ folderSegments value separator, segment <:+: plain.notes
  | _, _ => value <:+: plain.notes

/-- A cell under the name `column` is in the field its column is mapped to, or in the notes. -/
def CellKept (p : Platform) (mapping : CsvColumnMapping) (plain : ItemPlaintext) (column value : Text) : Prop :=
  (∃ field name, mapping.column field = some name ∧ key p name = key p column ∧
    plain.Holds mapping.folderSeparator field value) ∨ value <:+: plain.notes

def CellsKept (p : Platform) (header : List Text) (mapping : CsvColumnMapping) (values : List Text)
    (plain : ItemPlaintext) : Prop :=
  ∀ (i : Nat) (column value : Text), header[i]? = some column → values[i]? = some value → value ≠ [] →
    CellKept p mapping plain column value

/-! ## Reading by name -/

variable {p : Platform} {header : List Text} {mapping : CsvColumnMapping} {values : List Text} {line : Nat}

theorem position_some {name : Text} {i : Nat} (h : (indexColumns p header).position name = some i) :
    ∃ column, header[i]? = some column ∧ key p column = name ∧
      ∀ j < i, ∀ column', header[j]? = some column' → key p column' ≠ name := by
  unfold Columns.position indexColumns at h
  obtain ⟨hi, hname, hfirst⟩ := List.findIdx?_eq_some_iff_getElem.mp h
  simp only [List.length_map] at hi
  refine ⟨header[i], List.getElem?_eq_getElem hi, by simpa [key] using hname, ?_⟩
  intro j hj column' hcolumn'
  have hj' := hfirst j hj
  obtain ⟨hlen, rfl⟩ := List.getElem?_eq_some_iff.mp hcolumn'
  simpa [key] using hj'

theorem position_isSome {name : Text} (h : name ∈ header.map (key p)) :
    ∃ i, (indexColumns p header).position name = some i := by
  cases hp : (indexColumns p header).position name with
  | some i => exact ⟨i, rfl⟩
  | none =>
    unfold Columns.position indexColumns at hp
    have hnone := List.findIdx?_eq_none_iff.mp hp name h
    simp at hnone

theorem position_nodup (hn : (header.map (key p)).Nodup) {i : Nat} {column : Text} (h : header[i]? = some column) :
    (indexColumns p header).position (key p column) = some i := by
  obtain ⟨j, hj⟩ := position_isSome (p := p) (List.mem_map_of_mem (List.mem_of_getElem? h))
  obtain ⟨column', hc, hk, -⟩ := position_some hj
  have hi : (header.map (key p))[i]? = some (key p column) := by rw [List.getElem?_map, h]; rfl
  have hj' : (header.map (key p))[j]? = some (key p column) := by rw [List.getElem?_map, hc, ← hk]; rfl
  obtain ⟨hilen, hival⟩ := List.getElem?_eq_some_iff.mp hi
  obtain ⟨hjlen, hjval⟩ := List.getElem?_eq_some_iff.mp hj'
  rw [hj, (hn.getElem_inj_iff).mp (hjval.trans hival.symm)]

theorem read_position {row : CsvRow} {name : Text} {i : Nat}
    (h : (indexColumns p header).position (key p name) = some i) :
    read p (indexColumns p header) row (some name) = row.values[i]? := by
  unfold read Columns.value
  simp [h]

/-! ## The item of a row -/

def entry (name : Text) (value : Option Text) (kind : ImportFieldKind) : List ImportField :=
  match value with
  | none => []
  | some value => if value = [] then [] else [⟨name, value, kind⟩]

theorem carry_eq (item : ImportItem) (name : Text) (value : Option Text) (kind : ImportFieldKind) :
    carry item name value kind = { item with extra := item.extra ++ entry name value kind } := by
  unfold carry entry
  cases value with
  | none => simp
  | some value => by_cases h : value = [] <;> simp [h]

theorem mem_entry {name value : Text} (kind : ImportFieldKind) (h : value ≠ []) :
    ⟨name, value, kind⟩ ∈ entry name (some value) kind := by
  simp [entry, h]

theorem foldl_carry (f : Text → Option Text) (kind : ImportFieldKind) (names : List Text) (item : ImportItem) :
    names.foldl (fun item name => carry item name (f name) kind) item =
      { item with extra := item.extra ++ names.flatMap fun name => entry name (f name) kind } := by
  induction names generalizing item with
  | nil => simp
  | cons name names ih =>
    rw [List.foldl_cons, ih, carry_eq]
    simp

theorem genericItem_eq (row : CsvRow) (columns : Columns) (checked : Text) :
    genericItem p mapping columns row checked =
      let url := (read p columns row (mapping.column .url)).getD []
      let name := (read p columns row (mapping.column .name)).getD []
      { blankImportItem row.line with
        name := if name = [] then url else name
        username := (read p columns row (mapping.column .username)).getD []
        password := checked
        urls := if url = [] then [] else [url]
        notes := (read p columns row (mapping.column .notes)).getD []
        folderPath := folderSegments ((read p columns row (mapping.column .folder)).getD []) mapping.folderSeparator
        extra := entry ((mapping.column .totp).getD []) (read p columns row (mapping.column .totp)) .totp ++
          mapping.custom.flatMap fun name => entry name (read p columns row (some name)) .custom } := by
  unfold genericItem
  simp only
  rw [foldl_carry, carry_eq]
  simp [blankImportItem]

theorem genericRow_ok {columns : Columns} {width : Nat} {row : CsvRow} {item : ImportItem}
    (h : genericRow p mapping columns width row = .ok item) : row.extra = [] ∧
      ∃ checked, read p columns row (mapping.column .password) = some checked ∧ checked ≠ [] ∧
        item = genericItem p mapping columns row checked := by
  unfold genericRow at h
  cases hs : refuseSurplus row width with
  | error e =>
    rw [hs] at h
    cases h
  | ok _ =>
    rw [hs] at h
    cases hr : requiredPassword row.line (read p columns row (mapping.column .password)) with
    | error e =>
      change (requiredPassword _ _ >>= _) = _ at h
      rw [hr] at h
      cases h
    | ok checked =>
      change (requiredPassword _ _ >>= _) = _ at h
      rw [hr] at h
      cases h
      refine ⟨?_, checked, ?_⟩
      · unfold refuseSurplus surplusFieldsError at hs
        by_cases hextra : row.extra = []
        · exact hextra
        · simp [hextra] at hs
      · cases hv : read p columns row (mapping.column .password) with
        | none =>
          rw [hv] at hr
          cases hr
        | some value =>
          rw [hv] at hr
          unfold requiredPassword at hr
          simp only at hr
          split at hr
          · cases hr
          · rename_i hne
            cases hr
            exact ⟨rfl, hne, rfl⟩

theorem toItemPlaintext_generic (row : CsvRow) (columns : Columns) (checked : Text) (folderId : Option Text) :
    let item := genericItem p mapping columns row checked
    toItemPlaintext item folderId =
      .login item.name item.username item.password item.urls (composeNotes item []) item.favorite folderId [] := by
  intro item
  have htype : item.type = .login := by
    change (genericItem p mapping columns row checked).type = _
    rw [genericItem_eq]
    rfl
  unfold toItemPlaintext
  simp [htype]

/-! ## What a mapping covers -/

def CsvColumnMapping.names (mapping : CsvColumnMapping) : List Text :=
  mappedFields.filterMap mapping.column ++ mapping.custom

/-- No name of the header is repeated, and every one is in the mapping. -/
structure Covers (p : Platform) (header : List Text) (mapping : CsvColumnMapping) : Prop where
  distinct : (header.map (key p)).Nodup
  named : ∀ column ∈ header, key p column ∈ mapping.names.map (key p)

theorem holds_field {row : CsvRow} {columns : Columns} {checked value : Text} {field : MappedField}
    (hv : value ≠ []) (hread : read p columns row (mapping.column field) = some value)
    (hpassword : read p columns row (mapping.column .password) = some checked) (folderId : Option Text) :
    (toItemPlaintext (genericItem p mapping columns row checked) folderId).Holds mapping.folderSeparator field
      value := by
  rw [toItemPlaintext_generic]
  cases field with
  | name => simp [ItemPlaintext.Holds, genericItem_eq, hread, hv]
  | username => simp [ItemPlaintext.Holds, genericItem_eq, hread]
  | password =>
    rw [hread] at hpassword
    cases hpassword
    simp [ItemPlaintext.Holds, genericItem_eq]
  | url => simp [ItemPlaintext.Holds, genericItem_eq, hread, hv]
  | notes =>
    have h := notes_noted (genericItem p mapping columns row checked)
    rwa [show (genericItem p mapping columns row checked).notes = value by simp [genericItem_eq, hread]] at h
  | folder =>
    intro segment hs
    refine @segment_noted (genericItem p mapping columns row checked) _ ?_
    simpa [genericItem_eq, hread] using hs
  | totp =>
    refine @extra_noted (genericItem p mapping columns row checked)
      ⟨(mapping.column .totp).getD [], value, .totp⟩ ?_
    simp only [genericItem_eq, hread]
    exact List.mem_append_left _ (mem_entry _ hv)

theorem custom_kept {row : CsvRow} {columns : Columns} {checked value name : Text} (hv : value ≠ [])
    (hname : name ∈ mapping.custom) (hread : read p columns row (some name) = some value) (folderId : Option Text) :
    value <:+: (toItemPlaintext (genericItem p mapping columns row checked) folderId).notes := by
  rw [toItemPlaintext_generic]
  refine @extra_noted (genericItem p mapping columns row checked) ⟨name, value, .custom⟩ ?_
  simp only [genericItem_eq]
  refine List.mem_append_right _ (List.mem_flatMap.mpr ⟨name, hname, ?_⟩)
  rw [hread]
  exact mem_entry _ hv

theorem kept_of_covers (h : Covers p header mapping) {width : Nat} {row : CsvRow} {item : ImportItem}
    (hok : genericRow p mapping (indexColumns p header) width row = .ok item) (folderId : Option Text) :
    CellsKept p header mapping row.values (toItemPlaintext item folderId) := by
  obtain ⟨-, checked, hpassword, -, rfl⟩ := genericRow_ok hok
  intro i column value hcolumn hvalue hv
  obtain ⟨name, hname, hk⟩ := List.mem_map.mp (h.named column (List.mem_of_getElem? hcolumn))
  have hread : read p (indexColumns p header) row (some name) = some value := by
    rw [read_position (by rw [hk]; exact position_nodup h.distinct hcolumn)]
    exact hvalue
  cases List.mem_append.mp hname with
  | inl hf =>
    obtain ⟨field, -, hfield⟩ := List.mem_filterMap.mp hf
    exact Or.inl ⟨field, name, hfield, hk, holds_field hv (by rw [hfield]; exact hread) hpassword folderId⟩
  | inr hc => exact Or.inr (custom_kept hv hc hread folderId)

/-! ## A column that is not read -/

theorem join_length (sep : Text) (lines : List Text) :
    (join sep lines).length ≤ (lines.map fun line => line.length + sep.length).sum := by
  unfold join
  induction lines with
  | nil => simp
  | cons first lines ih =>
    cases lines with
    | nil => simp
    | cons second lines =>
      rw [List.intercalate_cons_cons]
      simp only [List.length_append, List.map_cons, List.sum_cons] at ih ⊢
      omega

theorem composeNotes_length (item : ImportItem) : (composeNotes item []).length ≤
    item.notes.length + 2 + (join [LF] (IMPORTED_HEADING :: noteLines item)).length := by
  rw [composeNotes_eq]
  split
  · omega
  · split
    · omega
    · simp
      omega

theorem unit_not_mem {s : Text} (h : s.length < 65536) : ∃ c : CodeUnit, c ∉ s := by
  by_contra hall
  simp only [not_exists, not_not] at hall
  have hnodup : ((List.finRange 65536).map UInt16.ofFin).Nodup :=
    (List.nodup_finRange _).map fun a b hab => by simpa using congrArg UInt16.toFin hab
  have hlength := hnodup.length_le_of_subset fun c _ => hall c
  simp only [List.length_map, List.length_finRange] at hlength
  omega

theorem splitFrom_uncut {c d : CodeUnit} (hne : d ≠ c) (sep : Text) (fuel n : Nat) (piece : Text) (hf : n ≤ fuel) :
    splitFrom (d :: sep) fuel piece (List.replicate n c) = [piece ++ List.replicate n c] := by
  induction n generalizing fuel piece with
  | zero => cases fuel <;> simp [splitFrom]
  | succ n ih =>
    cases fuel with
    | zero => omega
    | succ fuel =>
      have hnone : afterPrefix (d :: sep) (c :: List.replicate n c) = none := by
        simp [afterPrefix, hne]
      rw [List.replicate_succ, splitFrom, hnone]
      simp only
      rw [ih fuel (piece ++ [c]) (by omega)]
      simp

theorem lost_text (notes sep : Text) (h : sep = [] → notes.length < 65536) :
    ∃ w : Text, 2 ≤ w.length ∧ notes.length < w.length ∧
      ∃ segment ∈ folderSegments w sep, ¬ segment <:+: notes := by
  cases sep with
  | nil =>
    obtain ⟨c, hc⟩ := unit_not_mem (h rfl)
    refine ⟨List.replicate (notes.length + 2) c, by simp, by simp, [c], ?_, fun hin => hc (hin.subset (by simp))⟩
    simp [folderSegments, split]
  | cons d sep =>
    have hne : d ≠ d + 1 := by
      intro hd
      have hnat := congrArg UInt16.toNat hd
      rw [UInt16.toNat_add] at hnat
      have hlt := d.toNat_lt
      simp at hnat
      omega
    refine ⟨List.replicate (notes.length + 2) (d + 1), by simp, by simp,
      List.replicate (notes.length + 2) (d + 1), ?_, ?_⟩
    · simp [folderSegments, split, splitFrom_uncut hne]
    · intro hin
      have hlength := hin.length_le
      rw [List.length_replicate] at hlength
      omega

/-- What the screen makes of a mapping as far as the password is concerned: its column is not a
custom field, and the name of a second factor in the same column is no longer than the probe. -/
structure Sound (p : Platform) (mapping : CsvColumnMapping) : Prop where
  custom : ∀ name ∈ mapping.custom, ∀ pass, mapping.column .password = some pass → key p name ≠ key p pass
  totp : ∀ name pass, mapping.column .totp = some name → mapping.column .password = some pass →
    key p name = key p pass → name.length ≤ HEADER_PROBE_LIMIT

def sparse (width i j : Nat) (w : Text) : List Text :=
  (List.range width).map fun k => if k = i then w else if k = j then ascii "p" else []

theorem sparse_get {width i j : Nat} (w : Text) {k : Nat} (hk : k < width) :
    (sparse width i j w)[k]? = some (if k = i then w else if k = j then ascii "p" else []) := by
  simp [sparse, hk]

theorem position_lt {name : Text} {k : Nat} (h : (indexColumns p header).position name = some k) :
    k < header.length := by
  obtain ⟨column, hc, -⟩ := position_some h
  exact (List.getElem?_eq_some_iff.mp hc).1

section
variable {i j : Nat}

theorem read_sparse {name : Text} (hi : (indexColumns p header).position (key p name) ≠ some i) (line : Nat)
    (w : Text) (extra : List Text) :
    read p (indexColumns p header) ⟨line, sparse header.length i j w, extra⟩ (some name) =
      ((indexColumns p header).position (key p name)).map fun k => if k = j then ascii "p" else [] := by
  cases hp : (indexColumns p header).position (key p name) with
  | none =>
    unfold read Columns.value
    simp [hp]
  | some k =>
    have hne : k ≠ i := fun hk => hi (by rw [hp, hk])
    rw [read_position hp, sparse_get w (position_lt hp), if_neg hne]
    rfl

def Unread (p : Platform) (header : List Text) (mapping : CsvColumnMapping) (i : Nat) : Prop :=
  ∀ name ∈ mapping.names, (indexColumns p header).position (key p name) ≠ some i

theorem read_field (hun : Unread p header mapping i) (line : Nat) (w : Text) (extra : List Text)
    (field : MappedField) :
    read p (indexColumns p header) ⟨line, sparse header.length i j w, extra⟩ (mapping.column field) =
      (mapping.column field).bind fun name =>
        ((indexColumns p header).position (key p name)).map fun k => if k = j then ascii "p" else [] := by
  cases hf : mapping.column field with
  | none => rfl
  | some name =>
    have hmem : name ∈ mapping.names := by
      refine List.mem_append_left _ (List.mem_filterMap.mpr ⟨field, ?_, hf⟩)
      cases field <;> decide
    exact read_sparse (hun name hmem) line w extra

theorem read_field_short (hun : Unread p header mapping i) (line : Nat) (w : Text) (extra : List Text)
    (field : MappedField) : ((read p (indexColumns p header) ⟨line, sparse header.length i j w, extra⟩
      (mapping.column field)).getD []).length ≤ 1 := by
  rw [read_field hun]
  cases mapping.column field with
  | none => simp
  | some name =>
    rw [Option.bind_some]
    cases (indexColumns p header).position (key p name) with
    | none => simp
    | some k =>
      simp only [Option.map_some, Option.getD_some]
      split
      · exact Nat.le_refl 1
      · exact Nat.zero_le 1

theorem item_unread (hun : Unread p header mapping i) (line : Nat) (w w' : Text) (extra : List Text)
    (checked : Text) :
    genericItem p mapping (indexColumns p header) ⟨line, sparse header.length i j w, extra⟩ checked =
      genericItem p mapping (indexColumns p header) ⟨line, sparse header.length i j w', extra⟩ checked := by
  have hcustom : (mapping.custom.flatMap fun name => entry name
        (read p (indexColumns p header) ⟨line, sparse header.length i j w, extra⟩ (some name)) .custom) =
      mapping.custom.flatMap fun name => entry name
        (read p (indexColumns p header) ⟨line, sparse header.length i j w', extra⟩ (some name)) .custom := by
    refine List.flatMap_congr fun name hname => ?_
    have hn := hun name (List.mem_append_right _ hname)
    rw [read_sparse hn, read_sparse hn]
  rw [genericItem_eq, genericItem_eq]
  simp only [read_field hun, hcustom]

theorem position_other {name pass : Text} (hpass : (indexColumns p header).position (key p pass) = some j)
    (hne : key p name ≠ key p pass) : (indexColumns p header).position (key p name) ≠ some j := by
  intro hj
  obtain ⟨column, hc, hk, -⟩ := position_some hpass
  obtain ⟨column', hc', hk', -⟩ := position_some hj
  rw [hc] at hc'
  cases hc'
  exact hne (hk'.symm.trans hk)

theorem entry_other {name pass : Text} {kind : ImportFieldKind} (hun : Unread p header mapping i)
    (hname : name ∈ mapping.names) (hpass : (indexColumns p header).position (key p pass) = some j)
    (hne : key p name ≠ key p pass) (label : Text) (line : Nat) (w : Text) (extra : List Text) :
    entry label (read p (indexColumns p header) ⟨line, sparse header.length i j w, extra⟩ (some name))
      kind = [] := by
  rw [read_sparse (hun name hname)]
  have hother := position_other hpass hne
  cases hp : (indexColumns p header).position (key p name) with
  | none => rfl
  | some k =>
    have hk : k ≠ j := fun h => hother (by rw [hp, h])
    simp [entry, hk]

theorem extra_sparse (hs : Sound p mapping) (hun : Unread p header mapping i) {pass : Text}
    (hcolumn : mapping.column .password = some pass)
    (hpass : (indexColumns p header).position (key p pass) = some j) (line : Nat) (w : Text) (extra : List Text) :
    ((genericItem p mapping (indexColumns p header) ⟨line, sparse header.length i j w, extra⟩ (ascii "p")).extra.map
      fun field => (extraLine field).length + 1).sum ≤ HEADER_PROBE_LIMIT + 64 := by
  have hcustom : (mapping.custom.flatMap fun name => entry name
      (read p (indexColumns p header) ⟨line, sparse header.length i j w, extra⟩ (some name)) .custom) = [] := by
    rw [List.flatMap_eq_nil_iff]
    intro name hname
    exact entry_other hun (List.mem_append_right _ hname) hpass (hs.custom name hname pass hcolumn) name
      line w extra
  simp only [genericItem_eq, hcustom, List.append_nil]
  cases ht : mapping.column .totp with
  | none => simp [read, Columns.value, entry]
  | some name =>
    have hmem : name ∈ mapping.names :=
      List.mem_append_left _ (List.mem_filterMap.mpr ⟨.totp, by decide, ht⟩)
    by_cases hk : key p name = key p pass
    · have hlength := hs.totp name pass ht hcolumn hk
      have hread : read p (indexColumns p header) ⟨line, sparse header.length i j w, extra⟩ (some name) =
          some (ascii "p") := by
        rw [read_sparse (hun name hmem), hk, hpass]
        simp
      have hlabel : TOTP_LABEL.length = 31 := by decide
      have hopen : (ascii ", exported as \"").length = 15 := by decide
      have hclose : (ascii "\": ").length = 3 := by decide
      rw [hread]
      simp only [entry, show ¬ ascii "p" = [] by decide, if_false, List.map_cons, List.map_nil, List.sum_cons,
        List.sum_nil, extraLine, List.length_append, Option.getD_some, hlabel, hopen, hclose,
        show (ascii "p").length = 1 by decide]
      omega
    · rw [entry_other hun hmem hpass hk]
      simp

theorem notes_sparse (hs : Sound p mapping) (hun : Unread p header mapping i) {pass : Text}
    (hcolumn : mapping.column .password = some pass)
    (hpass : (indexColumns p header).position (key p pass) = some j) (hsep : mapping.folderSeparator = [])
    (line : Nat) (w : Text) (extra : List Text) :
    (composeNotes (genericItem p mapping (indexColumns p header) ⟨line, sparse header.length i j w, extra⟩
      (ascii "p")) []).length < 65536 := by
  have hextra := extra_sparse hs hun hcolumn hpass line w extra
  have hnotes := read_field_short (j := j) hun line w extra .notes
  have hfolder := read_field_short (j := j) hun line w extra .folder
  have hbound := composeNotes_length (genericItem p mapping (indexColumns p header)
    ⟨line, sparse header.length i j w, extra⟩ (ascii "p"))
  have hjoin := join_length [LF] (IMPORTED_HEADING :: noteLines (genericItem p mapping (indexColumns p header)
    ⟨line, sparse header.length i j w, extra⟩ (ascii "p")))
  have hpath : (genericItem p mapping (indexColumns p header) ⟨line, sparse header.length i j w, extra⟩
      (ascii "p")).folderPath = folderSegments ((read p (indexColumns p header)
        ⟨line, sparse header.length i j w, extra⟩ (mapping.column .folder)).getD []) [] := by
    rw [genericItem_eq, hsep]
  have hown : (genericItem p mapping (indexColumns p header) ⟨line, sparse header.length i j w, extra⟩
      (ascii "p")).notes = (read p (indexColumns p header)
        ⟨line, sparse header.length i j w, extra⟩ (mapping.column .notes)).getD [] := by
    rw [genericItem_eq]
  rw [← hown] at hnotes
  revert hextra hnotes hbound hjoin hpath
  generalize genericItem p mapping (indexColumns p header) ⟨line, sparse header.length i j w, extra⟩
    (ascii "p") = item
  generalize (read p (indexColumns p header) ⟨line, sparse header.length i j w, extra⟩
    (mapping.column .folder)).getD [] = folder at hfolder ⊢
  intro hextra hnotes hbound hjoin hpath
  have hlines : ((noteLines item).map fun line => line.length + [LF].length).sum ≤
    16 + (HEADER_PROBE_LIMIT + 64) := by
    unfold noteLines
    rw [List.map_append, List.sum_append, List.map_map]
    refine Nat.add_le_add ?_ hextra
    rw [hpath]
    cases folder with
    | nil => simp [folderSegments, split]
    | cons c folder =>
      have hnil : folder = [] := List.length_eq_zero_iff.mp (by simpa using hfolder)
      subst hnil
      have hlabel : (ascii "Folder: ").length = 8 := by decide
      simp [folderSegments, split, join, hlabel]
  have hheading : IMPORTED_HEADING.length = 24 := by decide
  rw [List.map_cons, List.sum_cons, hheading] at hjoin
  unfold HEADER_PROBE_LIMIT at hlines
  simp only [List.length_singleton] at hjoin hlines
  omega

theorem notes_line (mapping : CsvColumnMapping) (columns : Columns) (line line' : Nat) (values extra : List Text)
    (checked : Text) : composeNotes (genericItem p mapping columns ⟨line, values, extra⟩ checked) [] =
      composeNotes (genericItem p mapping columns ⟨line', values, extra⟩ checked) [] := by
  rw [genericItem_eq, genericItem_eq]
  rfl

/-- Under a column that is not read some cell is lost, whatever the line of its row. -/
theorem lost_of_unread (hs : Sound p mapping) (hun : Unread p header mapping i) (hi : i < header.length)
    {pass : Text} (hcolumn : mapping.column .password = some pass)
    (hpass : (indexColumns p header).position (key p pass) = some j) (folderId : Option Text) :
    ∃ w, ∀ line, ∃ item, genericRow p mapping (indexColumns p header) header.length
        (buildRow ⟨line, sparse header.length i j w, false⟩ header.length) = .ok item ∧
      ¬ CellsKept p header mapping (sparse header.length i j w) (toItemPlaintext item folderId) := by
  obtain ⟨w, hlong, hlonger, segment, hsegment, hlost⟩ := lost_text (composeNotes (genericItem p mapping
    (indexColumns p header) ⟨2, sparse header.length i j [], []⟩ (ascii "p")) []) mapping.folderSeparator
    (fun hsep => notes_sparse hs hun hcolumn hpass hsep 2 [] [])
  refine ⟨w, fun line => ?_⟩
  rw [notes_line mapping _ 2 line] at hlonger hlost
  have hrow : buildRow ⟨line, sparse header.length i j w, false⟩ header.length =
      ⟨line, sparse header.length i j w, []⟩ := by
    simp [buildRow, sparse]
  have hread : read p (indexColumns p header) ⟨line, sparse header.length i j w, []⟩ (mapping.column .password) =
      some (ascii "p") := by
    rw [read_field hun, hcolumn, Option.bind_some, hpass]
    simp
  refine ⟨genericItem p mapping (indexColumns p header) ⟨line, sparse header.length i j w, []⟩ (ascii "p"),
    ?_, ?_⟩
  · rw [hrow]
    unfold genericRow
    rw [hread]
    rfl
  · intro hkept
    have hcell := hkept i header[i] w (List.getElem?_eq_getElem hi) (by rw [sparse_get w hi]; simp)
      (by intro hnil; simp [hnil] at hlong)
    rw [toItemPlaintext_generic, item_unread hun line w [] [] (ascii "p")] at hcell
    have hshort : ∀ field, ((read p (indexColumns p header) ⟨line, sparse header.length i j [], []⟩
        (mapping.column field)).getD []).length ≤ 1 := fun field => read_field_short hun line [] [] field
    have hnotin : ¬ w <:+: composeNotes (genericItem p mapping (indexColumns p header)
        ⟨line, sparse header.length i j [], []⟩ (ascii "p")) [] := by
      intro hin
      have hle := hin.length_le
      omega
    have hne : ∀ v : Text, v.length ≤ 1 → v ≠ w := by
      rintro v hv rfl
      omega
    cases hcell with
    | inr hin => exact hnotin hin
    | inl hfield =>
      obtain ⟨field, name, -, -, hholds⟩ := hfield
      cases field with
      | notes => exact hnotin hholds
      | totp => exact hnotin hholds
      | folder => exact hlost (hholds segment hsegment)
      | password => exact hne _ (by rw [genericItem_eq]; exact Nat.le_refl 1) hholds
      | username => exact hne _ (by rw [genericItem_eq]; exact hshort .username) hholds
      | name =>
        refine hne _ ?_ hholds
        rw [genericItem_eq]
        simp only
        split
        · exact hshort .url
        · exact hshort .name
      | url =>
        have hmem : w ∈ (genericItem p mapping (indexColumns p header)
            ⟨line, sparse header.length i j [], []⟩ (ascii "p")).urls := hholds
        rw [genericItem_eq] at hmem
        simp only at hmem
        split at hmem
        · cases hmem
        · exact hne _ (hshort .url) (List.mem_singleton.mp hmem).symm

end

theorem unread_of_not_covers (h : ¬ Covers p header mapping) : ∃ i < header.length, Unread p header mapping i := by
  by_cases hn : (header.map (key p)).Nodup
  · have hnamed : ¬ ∀ column ∈ header, key p column ∈ mapping.names.map (key p) := fun hall => h ⟨hn, hall⟩
    simp only [not_forall] at hnamed
    obtain ⟨column, hmem, hmissing⟩ := hnamed
    obtain ⟨i, hi, rfl⟩ := List.getElem_of_mem hmem
    refine ⟨i, hi, fun name hname hpos => hmissing ?_⟩
    obtain ⟨column, hc, hk, -⟩ := position_some hpos
    rw [List.getElem?_eq_getElem hi] at hc
    cases hc
    exact List.mem_map.mpr ⟨name, hname, hk.symm⟩
  · rw [List.Nodup, List.pairwise_iff_getElem] at hn
    simp only [not_forall, ne_eq, not_not, List.length_map, List.getElem_map] at hn
    obtain ⟨i', i, hi', hi, hlt, hsame⟩ := hn
    refine ⟨i, hi, fun name _ hpos => ?_⟩
    obtain ⟨column, hc, hk, hfirst⟩ := position_some hpos
    rw [List.getElem?_eq_getElem hi] at hc
    cases hc
    exact hfirst i' hlt header[i'] (List.getElem?_eq_getElem hi') (hsame.trans hk)

end Keyhole.Import
