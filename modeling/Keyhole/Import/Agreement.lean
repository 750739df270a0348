import Keyhole.Import.Detect
import Keyhole.Import.Probing
import Keyhole.Import.RowErrors

/-!
# Detection and the parsers

Where detection names a parser of a text, that parser reads the file: what it
has to say is about rows, or that the export is encrypted. It does not where
white space that is not JSON's stands before the brace, and where the probe
cuts the header in the name of a column that the parser needs.
-/

namespace Keyhole.Import

/-! ## What a parser takes for its own -/

/-- The sets of columns by one of which a parser knows its header. -/
def fingerprints : CsvParser → List (List Text)
  | .browser => browserLayouts.map (·.fingerprint)
  | .bitwarden => [names ["login_password"]]
  | .lastPass => [names ["password", "grouping"]]
  | .onePassword => [names ["password"]]
  | .keePass => keePassLayouts.map (·.fingerprint)
  | .nordPass => [names ["password", "cardholdername"]]
  | .dashlane => [names ["title", "password"]]
  | .generic _ => []

/-- What a parser says of a file whose header is not its own. -/
def CsvParser.lacking : CsvParser → String
  | browser => " has no url, username and password columns, so no browser export layout fits it"
  | bitwarden => " has no login_password column, so it is not a Bitwarden CSV export"
  | lastPass => " has no password and grouping columns, so it is not a LastPass CSV export"
  | onePassword => " has no Password column, so it is not a 1Password CSV export"
  | keePass => " matches neither the KeePass 1.x nor the KeePassXC column names, so it is not a KeePass CSV export"
  | nordPass => " has no password and cardholdername columns, so it is not a NordPass CSV export"
  | dashlane => " has no title and password columns, so it is not a Dashlane credentials CSV"
  | generic _ => ""

def CsvParser.refusal (parser : CsvParser) : Text := ascii ("This file" ++ parser.lacking)

def csvParser : ImportParser → Option CsvParser
  | .browserCsv => some .browser
  | .bitwardenCsv => some .bitwarden
  | .lastpassCsv => some .lastPass
  | .onepasswordCsv => some .onePassword
  | .keepassCsv => some .keePass
  | .nordpassCsv => some .nordPass
  | .dashlaneCsv => some .dashlane
  | _ => none

theorem csv_parseTable (p : Platform) {parser : ImportParser} {csv : CsvParser} (h : csvParser parser = some csv) :
    csv.parse p = parseTable p csv.refusal (csv.layout p) := by
  cases parser <;> cases h <;> rfl

def refusals : List Text :=
  [NOT_JSON, Bitwarden.NOT_AN_EXPORT, Dashlane.NOT_AN_EXPORT, ProtonPass.NOT_AN_EXPORT, Keeper.NOT_AN_EXPORT] ++
    [CsvParser.browser, .bitwarden, .lastPass, .onePassword, .keePass, .nordPass, .dashlane].map CsvParser.refusal

theorem ascii_append (s t : String) : ascii (s ++ t) = ascii s ++ ascii t := by
  unfold ascii
  rw [String.toList_append, List.map_append]

theorem begins_of_eq (rest : String) {message : Text} (h : message = ascii ("This file" ++ rest)) :
    THIS_FILE <+: message := by
  rw [h, ascii_append]
  exact List.prefix_append _ _

theorem refusals_begin : ∀ refusal ∈ refusals, THIS_FILE <+: refusal := by
  simp only [refusals, List.forall_mem_append, List.forall_mem_cons, List.not_mem_nil, IsEmpty.forall_iff,
    implies_true, and_true]
  refine ⟨⟨?_, ?_, ?_, ?_, ?_⟩, ?_⟩
  · exact begins_of_eq " is not valid JSON, so nothing could be read from it" rfl
  · exact begins_of_eq " has no items array, so it is not a Bitwarden JSON export" rfl
  · exact begins_of_eq " has none of Dashlane's record lists, so it is not a Dashlane JSON export" rfl
  · exact begins_of_eq " has no vaults object, so it is not a Proton Pass JSON export" rfl
  · exact begins_of_eq " has no records array, so it is not a Keeper JSON export" rfl
  · intro refusal hrefusal
    obtain ⟨csv, -, rfl⟩ := List.mem_map.mp hrefusal
    exact begins_of_eq csv.lacking rfl

theorem csvParser_refusal {parser : ImportParser} {csv : CsvParser} (h : csvParser parser = some csv) :
    csv.refusal ∈ refusals := by
  have hall : ∀ csv ∈ [CsvParser.browser, .bitwarden, .lastPass, .onePassword, .keePass, .nordPass, .dashlane],
      csv.refusal ∈ refusals := fun csv hcsv => List.mem_append_right _ (List.mem_map_of_mem hcsv)
  apply hall
  cases parser <;> cases h <;> simp

theorem hasAll_iff (p : Platform) (header columns : List Text) :
    (indexColumns p header).hasAll columns = true ↔ ∀ column ∈ columns, column ∈ headerNames p header := by
  unfold Columns.hasAll Columns.has Columns.position indexColumns headerNames
  simp only [List.all_eq_true, List.findIdx?_isSome, List.any_eq_true, decide_eq_true_eq, exists_eq_right]

theorem layout_none {p : Platform} {parser : ImportParser} {csv : CsvParser} (h : csvParser parser = some csv)
    (columns : Columns) (width : Nat) :
    csv.layout p columns width = none ↔ ∀ fingerprint ∈ fingerprints csv, columns.hasAll fingerprint = false := by
  cases parser <;> cases h
  · simp only [CsvParser.layout, browserLayout, fingerprints, Option.map_eq_none_iff, List.find?_eq_none,
      List.forall_mem_map, Bool.not_eq_true]
  · simp [CsvParser.layout, bitwardenLayout, fingerprints, names, Columns.hasAll]
  · simp [CsvParser.layout, lastPassLayout, fingerprints, names]
  · simp [CsvParser.layout, onePasswordLayout, fingerprints, names, Columns.hasAll]
  · simp only [CsvParser.layout, keePassLayout, fingerprints, Option.map_eq_none_iff, List.find?_eq_none,
      List.forall_mem_map, Bool.not_eq_true]
  · simp [CsvParser.layout, nordPassLayout, fingerprints, names]
  · simp [CsvParser.layout, dashlaneLayout, fingerprints, names]

theorem layout_onlyRows {p : Platform} {parser : ImportParser} {csv : CsvParser} (h : csvParser parser = some csv)
    {columns : Columns} {width : Nat} {toItem : CsvRow → RowOutcome}
    (hlayout : csv.layout p columns width = some toItem)
    (row : CsvRow) : OnlyRows (toItem row) := by
  have hite : ∀ {c : Bool} {f : CsvRow → RowOutcome}, (if c then some f else none) = some toItem →
    f = toItem := by
    intro c f hf
    split at hf <;> cases hf
    rfl
  cases parser <;> cases h
  · obtain ⟨layout, -, rfl⟩ := Option.map_eq_some_iff.mp hlayout
    exact browserItem_onlyRows p columns width row layout
  · exact hite hlayout ▸ bitwardenItem_onlyRows p columns width row
  · exact hite hlayout ▸ lastPassItem_onlyRows p columns width row
  · exact hite hlayout ▸ onePasswordItem_onlyRows p columns width row
  · obtain ⟨layout, -, rfl⟩ := Option.map_eq_some_iff.mp hlayout
    exact keePassItem_onlyRows columns width row layout
  · exact hite hlayout ▸ nordPassItem_onlyRows p columns width row
  · exact hite hlayout ▸ dashlaneItem_onlyRows columns width row

/-- A root that the parser of a JSON export does not refuse; an encrypted export is answered, not refused. -/
def takes (parser : ImportParser) (root : Option Json) : Bool :=
  match parser with
  | .bitwardenJson => isTrueValue (property root "encrypted") || isTrueValue (property root "passwordProtected") ||
      (arrayOf (property root "items")).isSome
  | .protonpassJson => (asObject (property root "vaults")).isSome
  | .dashlaneJson => Dashlane.RECORD_LISTS.any fun list => (arrayOf (property root list.key)).isSome
  | .keeperJson => (arrayOf (property root "records")).isSome
  | _ => false

def readsJson : ImportParser → Bool
  | .bitwardenJson | .protonpassJson | .dashlaneJson | .keeperJson => true
  | _ => false

/-! ## What detection has seen -/

structure Evidence (parser : ImportParser) (file : FileEvidence) : Prop where
  json : readsJson parser = true → takes parser (asObject file.json) = true
  csv : ∀ csv, csvParser parser = some csv →
    ∃ fingerprint ∈ fingerprints csv, ∀ column ∈ fingerprint, column ∈ file.csvHeader

def FormatSignature.Sound (s : FormatSignature) : Prop :=
  ∀ file vendors, s.vendors file = some vendors → Evidence s.parser file

section
variable {parser : ImportParser} {vendor : ImportVendor} {recognises : FileEvidence → Bool}

theorem signature_recognises {file : FileEvidence} {vendors : List ImportVendor}
    (h : (signature parser vendor recognises).vendors file = some vendors) : recognises file = true := by
  unfold signature at h
  by_contra hr
  simp [hr] at h

theorem signature_json (hcsv : csvParser parser = none)
    (h : ∀ file, recognises file = true → takes parser (asObject file.json) = true) :
    (signature parser vendor recognises).Sound := by
  intro file vendors hv
  refine ⟨fun _ => h file (signature_recognises hv), fun csv hsome => ?_⟩
  rw [show (signature parser vendor recognises).parser = parser from rfl, hcsv] at hsome
  cases hsome

theorem signature_csv {csv : CsvParser} (hjson : readsJson parser = false) (hcsv : csvParser parser = some csv)
    (h : ∀ file, recognises file = true →
      ∃ fingerprint ∈ fingerprints csv, ∀ column ∈ fingerprint, column ∈ file.csvHeader) :
    (signature parser vendor recognises).Sound := by
  intro file vendors hv
  refine ⟨fun htrue => absurd htrue (by simp [signature, hjson]), fun csv' hsome => ?_⟩
  obtain rfl : csv = csv' := Option.some.inj (hcsv.symm.trans hsome)
  exact h file (signature_recognises hv)

end

theorem hasColumns_columns {file : FileEvidence} {columns : List Text} (h : hasColumns file columns = true) :
    ∀ column ∈ columns, column ∈ file.csvHeader := by
  simpa [hasColumns] using h

theorem headerSetIs_columns {file : FileEvidence} {columns : List Text} (h : headerSetIs file columns = true) :
    ∀ column ∈ columns, column ∈ file.csvHeader := by
  unfold headerSetIs at h
  exact hasColumns_columns (Bool.and_eq_true_iff.mp h).2

theorem headerIs_columns {file : FileEvidence} {columns : List Text} (h : headerIs file columns = true) :
    ∀ column ∈ columns, column ∈ file.csvHeader := by
  rw [of_decide_eq_true h]
  exact fun _ => id

/-- The columns a signature asks for have one of the parser's fingerprints among them. -/
def covers (csv : CsvParser) (columns : List Text) : Bool :=
  (fingerprints csv).any fun fingerprint => fingerprint.all fun column => columns.any (· = column)

theorem covers_columns {csv : CsvParser} {columns header : List Text} (h : covers csv columns = true)
    (hcolumns : ∀ column ∈ columns, column ∈ header) :
    ∃ fingerprint ∈ fingerprints csv, ∀ column ∈ fingerprint, column ∈ header := by
  simp only [covers, List.any_eq_true, List.all_eq_true, decide_eq_true_eq, exists_eq_right] at h
  obtain ⟨fingerprint, hmem, hall⟩ := h
  exact ⟨fingerprint, hmem, fun column hc => hcolumns column (hall column hc)⟩

theorem signature_hasColumns {parser : ImportParser} {vendor : ImportVendor} {csv : CsvParser} {columns : List Text}
    (hjson : readsJson parser = false) (hcsv : csvParser parser = some csv) (hc : covers csv columns = true) :
    (signature parser vendor fun file => hasColumns file columns).Sound :=
  signature_csv hjson hcsv fun _ h => covers_columns hc (hasColumns_columns h)

theorem bitwarden_taken (value : Option Json) (h : isBitwardenJson value = true) :
    takes .bitwardenJson (asObject value) = true := by
  unfold isBitwardenJson at h
  unfold takes
  by_cases hitems : (arrayOf (property (asObject value) "items")).isSome = true
  · simp [hitems]
  · simp only [hitems, Bool.false_eq_true, if_false, Bool.and_eq_true] at h
    simp [h.1]

theorem dashlane_taken (value : Option Json) (h : DASHLANE_JSON_KEYS.any (hasArray value) = true) :
    takes .dashlaneJson (asObject value) = true := by
  have hkeys : ∀ key ∈ DASHLANE_JSON_KEYS, key ∈ Dashlane.RECORD_LISTS.map (·.key) := by decide
  obtain ⟨key, hkey, harray⟩ := List.any_eq_true.mp h
  obtain ⟨list, hlist, rfl⟩ := List.mem_map.mp (hkeys key hkey)
  exact List.any_eq_true.mpr ⟨list, hlist, harray⟩

theorem signatures_sound : ∀ s ∈ FORMAT_SIGNATURES, s.Sound := by
  simp only [FORMAT_SIGNATURES, List.forall_mem_cons, List.not_mem_nil, IsEmpty.forall_iff, implies_true, and_true]
  refine ⟨?bitwardenJson, ?protonpassJson, ?dashlaneJson, ?keeperJson, ?onepassword1pux, ?bitwardenCsv,
    ?lastpassCsv, ?chromium, ?firefox, ?safari, ?onepasswordCsv, ?keepassxc, ?keepass, ?nordpassCsv, ?dashlaneCsv⟩
  case bitwardenJson => exact signature_json rfl fun file => bitwarden_taken file.json
  case protonpassJson => exact signature_json rfl fun file h => (Bool.and_eq_true_iff.mp h).1
  case dashlaneJson => exact signature_json rfl fun file => dashlane_taken file.json
  case keeperJson => exact signature_json rfl fun file h => (Bool.and_eq_true_iff.mp h).1
  case onepassword1pux => exact fun file vendors _ => ⟨nofun, nofun⟩
  case chromium =>
    intro file vendors hv
    refine ⟨nofun, fun csv hcsv => ?_⟩
    obtain rfl := Option.some.inj hcsv
    simp only [Option.ite_none_right_eq_some, Bool.or_eq_true] at hv
    rcases hv.1 with h | h
    · exact covers_columns (by decide) (headerSetIs_columns h)
    · exact covers_columns (by decide) (headerSetIs_columns h)
  case safari =>
    refine signature_csv rfl rfl fun file h => ?_
    rcases (Bool.or_eq_true_iff.mp h) with h | h
    · exact covers_columns (by decide) (headerSetIs_columns h)
    · exact covers_columns (by decide) (headerSetIs_columns h)
  case keepass => exact signature_csv rfl rfl fun file h => covers_columns (by decide) (headerIs_columns h)
  all_goals exact signature_hasColumns rfl rfl (by decide)

theorem detect_evidence (p : Platform) (filename content : Text)
    (h : (detect p filename content).parser ≠ .genericCsv) :
    Evidence (detect p filename content).parser (probe p filename content) := by
  unfold detect at h ⊢
  simp only at h ⊢
  cases hfound : FORMAT_SIGNATURES.findSome? fun s =>
      (s.vendors (probe p filename content)).map fun vendors => (⟨s.parser, vendors⟩ : DetectedFormat) with
  | none =>
    rw [hfound] at h
    exact absurd rfl h
  | some format =>
    obtain ⟨s, hs, hv⟩ := List.exists_of_findSome?_eq_some hfound
    obtain ⟨vendors, hvendors, rfl⟩ := Option.map_eq_some_iff.mp hv
    exact signatures_sound s hs _ vendors hvendors

/-! ## A JSON export -/

section
variable {p : Platform} {numberText : Int → Int → Text} {parser : ImportParser} {parse : Text → ImportResult}
  {text : Text}

theorem json_refused (hjson : readsJson parser = true)
    (hparse : TEXT_PARSERS p numberText (.detected parser) = some parse)
    (h : Json.parse text = none) : ⟨1, NOT_JSON⟩ ∈ (parse text).errors := by
  cases parser <;> cases hjson <;> cases hparse
  · rw [Bitwarden.parseBitwardenJson, h]
    exact List.mem_singleton_self _
  · rw [Dashlane.parseDashlaneJson, h]
    exact List.mem_singleton_self _
  · rw [ProtonPass.parseProtonPassJson, h]
    exact List.mem_singleton_self _
  · rw [Keeper.parseKeeperJson, h]
    exact List.mem_singleton_self _

theorem asObject_isSome {value : Option Json} (h : (asObject value).isSome = true) :
    ∃ fields, value = some (.object fields) := by
  unfold asObject at h
  split at h
  · exact ⟨_, rfl⟩
  · cases h

theorem encrypted_aboutRow {message : Text} (h : ¬ THIS_FILE <+: message) :
    ∀ e ∈ (refusal message).errors, AboutRow e := by
  intro e he
  rw [List.mem_singleton.mp he]
  exact h

theorem json_taken (hjson : readsJson parser = true)
    (hparse : TEXT_PARSERS p numberText (.detected parser) = some parse)
    {body : Json} (h : Json.parse text = some body) (htakes : takes parser (asObject (some body)) = true) :
    ∀ e ∈ (parse text).errors, AboutRow e := by
  cases parser <;> cases hjson <;> cases hparse
  case bitwardenJson =>
    unfold Bitwarden.parseBitwardenJson
    simp only [h]
    split
    · exact encrypted_aboutRow (by decide +kernel)
    · next hplain =>
      unfold takes at htakes
      simp only [hplain, Bool.or_eq_true, Bool.false_eq_true, false_or] at htakes
      obtain ⟨items, hitems⟩ := Option.isSome_iff_exists.mp htakes
      simp only [hitems]
      exact mapRecords_aboutRows fun raw _ position => bitwardenRecord_onlyRows numberText _ _ raw position
  case dashlaneJson =>
    unfold Dashlane.parseDashlaneJson
    obtain ⟨list, hlist, harray⟩ := List.any_eq_true.mp htakes
    have hpresent : (Dashlane.RECORD_LISTS.filter fun list =>
        (arrayOf (property (asObject (some body)) list.key)).isSome) ≠ [] :=
      List.ne_nil_of_mem (List.mem_filter.mpr ⟨hlist, harray⟩)
    simp only [h, if_neg hpresent]
    refine mapRecords_aboutRows fun record hrecord position => dashlaneRecord_onlyRows ?_ position
    obtain ⟨list, hlist, hentry⟩ := List.mem_flatMap.mp hrecord
    obtain ⟨entry, -, rfl⟩ := List.mem_map.mp hentry
    exact dashlaneKeys_labelled list (List.mem_filter.mp hlist).1
  case protonpassJson =>
    unfold ProtonPass.parseProtonPassJson
    simp only [h]
    split
    · exact encrypted_aboutRow (by decide +kernel)
    · obtain ⟨vaults, hvaults⟩ := asObject_isSome htakes
      simp only [hvaults]
      exact mapRecords_aboutRows fun record _ position => protonPassItem_onlyRows record position
  case keeperJson =>
    unfold Keeper.parseKeeperJson
    obtain ⟨records, hrecords⟩ := Option.isSome_iff_exists.mp htakes
    simp only [h, hrecords]
    exact mapRecords_aboutRows fun raw _ position => keeperRecord_onlyRows raw position

end

theorem not_begins_of_isSpace {c : CodeUnit} (h : isSpace c = true) : ¬ Json.Begins c := by
  rintro (rfl | rfl | rfl | rfl | rfl | rfl | rfl | hdigit)
  case inr.inr.inr.inr.inr.inr.inr =>
    simp only [Json.isDigit, Bool.and_eq_true, decide_eq_true_eq, UInt16.le_iff_toNat_le] at hdigit
    simp only [isSpace, Bool.or_eq_true, Bool.and_eq_true, decide_eq_true_eq, UInt16.le_iff_toNat_le,
      ← UInt16.toNat_inj] at h
    have h9 : (Json.unit '9').toNat = 57 := rfl
    have h0 : (Json.unit '0').toNat = 48 := rfl
    simp at h
    omega
  all_goals exact absurd h (by decide)

/-- White space of the language in front of a text that is not JSON's keeps the text from being JSON. -/
theorem parse_spaced {content : Text} {c : CodeUnit} (hc : c ∈ content.takeWhile isSpace)
    (hblank : Json.isBlank c = false) :
    Json.parse content = none := by
  obtain ⟨d, rest, hskip, hd⟩ : ∃ d rest, Json.skip content = d :: rest ∧ isSpace d = true := by
    induction content with
    | nil => cases hc
    | cons d content ih =>
      rw [List.takeWhile_cons] at hc
      split at hc
      · next hspace =>
        by_cases hd : Json.isBlank d = true
        · rcases List.mem_cons.mp hc with rfl | hc
          · rw [hd] at hblank
            cases hblank
          · obtain ⟨e, rest, hskip, he⟩ := ih hc
            exact ⟨e, rest, by rw [← hskip]; exact List.dropWhile_cons_of_pos hd, he⟩
        · exact ⟨d, content, Json.skip_cons (by simpa using hd) content, hspace⟩
      · cases hc
  exact Json.parse_other hskip (not_begins_of_isSpace hd)

theorem parseJsonBody_spaced {content : Text} {body : Json} (h : parseJsonBody content = some body)
    (hblank : ∀ c ∈ content.takeWhile isSpace, Json.isBlank c = true) : Json.parse content = some body := by
  unfold parseJsonBody at h
  simp only at h
  split at h
  · rw [← List.takeWhile_append_dropWhile (p := isSpace) (l := content)]
    exact Json.parse_blank hblank h
  · cases h

/-! ## Agreement -/

/-- The probe ends inside the name of a column, and the header has none of the parser's fingerprints without it. -/
def CutShort (p : Platform) (csv : CsvParser) (content : Text) : Prop :=
  ∃ before cut cell more, probedHeader content = before ++ [cut] ∧
    (parseCsv content).header = before ++ cell :: more ∧
    cut <+: cell ∧ cut ≠ cell ∧
    ∀ fingerprint ∈ fingerprints csv, ∃ column ∈ fingerprint, column ∉ headerNames p (before ++ cell :: more)

theorem refused_iff (p : Platform) {message : Text}
    {layout : Columns → (width : Nat) → Option (CsvRow → RowOutcome)} (hmessage : THIS_FILE <+: message)
    (hrows : ∀ columns width toItem, layout columns width = some toItem → ∀ row, OnlyRows (toItem row))
    (text : Text) :
    ⟨1, message⟩ ∈ (parseTable p message layout text).errors ↔
      layout (indexColumns p (parseCsv text).header) (parseCsv text).header.length = none := by
  unfold parseTable
  simp only
  cases h : layout (indexColumns p (parseCsv text).header) (parseCsv text).header.length with
  | none => simp
  | some toItem =>
    simp only [reduceCtorEq, iff_false]
    intro he
    exact mapCsvRows_aboutRows (parseCsv_aboutRows text) (hrows _ _ _ h) _ he hmessage

theorem csv_aboutRows {p : Platform} {parser : ImportParser} {csv : CsvParser} (hcsv : csvParser parser = some csv)
    {content : Text} (h : ⟨1, csv.refusal⟩ ∉ (csv.parse p content).errors) :
    ∀ e ∈ (csv.parse p content).errors, AboutRow e := by
  rw [csv_parseTable p hcsv, parseTable] at h ⊢
  split at h
  · simp at h
  · next toItem hlayout =>
    exact mapCsvRows_aboutRows (parseCsv_aboutRows content) fun row => layout_onlyRows hcsv hlayout row

theorem csv_agrees {p : Platform} {parser : ImportParser} {csv : CsvParser} (hcsv : csvParser parser = some csv)
    {filename content : Text} (hevidence : Evidence parser (probe p filename content)) :
    (∃ e ∈ (csv.parse p content).errors, e.message ∈ refusals) ↔ CutShort p csv content := by
  have hrefused := @refused_iff p csv.refusal (csv.layout p) (refusals_begin _ (csvParser_refusal hcsv))
    (fun columns width toItem h row => layout_onlyRows hcsv h row) content
  rw [← csv_parseTable p hcsv, layout_none hcsv] at hrefused
  simp only [← Bool.not_eq_true, hasAll_iff, not_forall, exists_prop] at hrefused
  have hmessages : (∃ e ∈ (csv.parse p content).errors, e.message ∈ refusals) ↔
      ⟨1, csv.refusal⟩ ∈ (csv.parse p content).errors := by
    refine ⟨fun ⟨e, he, hmessage⟩ => ?_, fun h => ⟨_, h, csvParser_refusal hcsv⟩⟩
    by_contra hnot
    exact csv_aboutRows hcsv hnot e he (refusals_begin _ hmessage)
  rw [hmessages, hrefused]
  constructor
  · intro hnone
    obtain ⟨fingerprint, hf, hseen⟩ := hevidence.csv csv hcsv
    obtain ⟨column, hc, hmissing⟩ := hnone fingerprint hf
    have hprobed : column ∈ headerNames p (probedHeader content) := hseen column hc
    have hne : probedHeader content ≠ [] := by
      intro hnil
      rw [hnil] at hprobed
      cases hprobed
    rcases header_take content 8191 hne with heq | ⟨before, cut, cell, more, hcut, hheader, hbegins⟩
    · exact absurd (heq ▸ hprobed) hmissing
    · refine ⟨before, cut, cell, more, hcut, hheader, hbegins, ?_, hheader ▸ hnone⟩
      rintro rfl
      change probedHeader content = _ at hcut
      rw [hcut] at hprobed
      rw [hheader] at hmissing
      apply hmissing
      have hsub : headerNames p (before ++ [cut]) ⊆ headerNames p (before ++ cut :: more) := by
        unfold headerNames
        exact List.map_subset _ (by simp)
      exact hsub hprobed
  · rintro ⟨before, cut, cell, more, -, hheader, -, -, hnone⟩
    rw [hheader]
    exact hnone

def Agrees (p : Platform) (numberText : Int → Int → Text) (filename content : Text) : Prop :=
  (detect p filename content).parser ≠ .genericCsv →
  ∀ parse, TEXT_PARSERS p numberText (.detected (detect p filename content).parser) = some parse →
    ∀ e ∈ (parse content).errors, e.message ∉ refusals

theorem json_agrees {p : Platform} {numberText : Int → Int → Text} {parser : ImportParser}
    {parse : Text → ImportResult} (hjson : readsJson parser = true)
    (hparse : TEXT_PARSERS p numberText (.detected parser) = some parse) {filename content : Text}
    (hevidence : Evidence parser (probe p filename content)) :
    (∀ e ∈ (parse content).errors, e.message ∉ refusals) ↔
      ∀ c ∈ content.takeWhile isSpace, Json.isBlank c = true := by
  constructor
  · intro hread c hc
    by_contra hblank
    have hnone := parse_spaced hc (Bool.not_eq_true _ ▸ hblank)
    exact hread _ (json_refused hjson hparse hnone) (List.mem_append_left _ List.mem_cons_self)
  · intro hblank e he hmessage
    have htakes := hevidence.json hjson
    cases hbody : parseJsonBody content with
    | none =>
      rw [show (probe p filename content).json = none from hbody] at htakes
      cases parser <;> cases hjson <;> cases htakes
    | some body =>
      rw [show (probe p filename content).json = some body from hbody] at htakes
      exact json_taken hjson hparse (parseJsonBody_spaced hbody hblank) htakes e he (refusals_begin _ hmessage)

theorem csv_parses {parser : ImportParser} {csv : CsvParser} (h : csvParser parser = some csv) (p : Platform)
    (numberText : Int → Int → Text) : TEXT_PARSERS p numberText (.detected parser) = some (csv.parse p) := by
  cases parser <;> cases h <;> rfl

/-- Detection trims white space that JSON has not, and reads a header only so far. -/
theorem detect_agrees_iff (p : Platform) (numberText : Int → Int → Text) (filename content : Text) :
    Agrees p numberText filename content ↔
      (readsJson (detect p filename content).parser = true →
        ∀ c ∈ content.takeWhile isSpace, Json.isBlank c = true) ∧
      ∀ csv, csvParser (detect p filename content).parser = some csv → ¬ CutShort p csv content := by
  unfold Agrees
  have hevidence := detect_evidence p filename content
  generalize (detect p filename content).parser = parser at hevidence
  constructor
  · intro hagrees
    refine ⟨fun hjson => ?_, fun csv hcsv hcut => ?_⟩
    · obtain ⟨parse, hparse⟩ : ∃ parse, TEXT_PARSERS p numberText (.detected parser) = some parse := by
        cases parser <;> cases hjson <;> exact ⟨_, rfl⟩
      have hne : parser ≠ .genericCsv := by
        rintro rfl
        cases hjson
      exact (json_agrees hjson hparse (hevidence hne)).mp (hagrees hne parse hparse)
    · have hne : parser ≠ .genericCsv := by
        rintro rfl
        cases hcsv
      obtain ⟨e, he, hmessage⟩ := (csv_agrees hcsv (hevidence hne)).mpr hcut
      exact hagrees hne _ (csv_parses hcsv p numberText) e he hmessage
  · rintro ⟨hjson, hcsv⟩ hne parse hparse
    cases hc : csvParser parser with
    | some csv =>
      rw [csv_parses hc] at hparse
      obtain rfl := Option.some.inj hparse
      intro e he hmessage
      exact hcsv csv hc ((csv_agrees hc (hevidence hne)).mp ⟨e, he, hmessage⟩)
    | none =>
      have hreads : readsJson parser = true := by
        cases parser <;> first | rfl | cases hc
        case onepassword1pux => cases hparse
        case genericCsv => exact absurd rfl hne
      exact (json_agrees hreads hparse (hevidence hne)).mpr (hjson hreads)

/-- A Bitwarden export after a space that does not break. -/
def spacedExport : Text := 0xA0 :: ascii "\x7b\"items\":[],\"folders\":[]\x7d"

theorem spaced_refused : ¬ Agrees asciiPlatform (fun _ _ => []) (ascii "bitwarden.json") spacedExport := by
  intro h
  have hdetected : (detect asciiPlatform (ascii "bitwarden.json") spacedExport).parser = .bitwardenJson :=
    by decide +kernel
  have hread := h (by rw [hdetected]; decide) (Bitwarden.parseBitwardenJson fun _ _ => []) (by rw [hdetected]; rfl)
    ⟨1, NOT_JSON⟩ (by decide +kernel)
  exact hread (List.mem_append_left _ List.mem_cons_self)

end Keyhole.Import
