import Keyhole.Import.Detect
import Keyhole.Import.OnePux
import Keyhole.Import.Rows
import Keyhole.Import.ZipSafety

/-!
# The bytes of a file

The panel hands an archive to its parser as bytes and every other file as
text. It decodes that text without complaint, where the text of a member is
decoded strictly.
-/

namespace Keyhole.Import
open Unicode

/-- What is not UTF-8 becomes a replacement character. -/
def decodeText (bytes : Bytes) : Text := utf16 (Unicode.withoutBom (lossy bytes))

section
variable (p : Platform) (numberText : Int → Int → Text) (inflateRaw : Bytes → Option Bytes)

/-- The mapping is for the generic CSV alone. -/
def parseText (format : ManualFormat) (parse : Text → ImportResult) (mapping : Option CsvColumnMapping)
    (text : Text) :
    ImportResult :=
  if format = .detected .genericCsv then parseGenericCsv p mapping text else parse text

/-- `none` would be an exception. -/
def parseFile (format : ManualFormat) (mapping : Option CsvColumnMapping) (bytes : Bytes) : Option ImportResult :=
  match TEXT_PARSERS p numberText format with
  | none => OnePassword.parseOnePassword1pux numberText inflateRaw bytes
  | some parse =>
    let text := decodeText bytes
    some (parseText p format parse (if format = .detected .genericCsv then
      mapping.map fun mapping => normalizeMapping p mapping (probedHeader text) else none) text)

/-! ## The content of a file -/

/-- The text content as bytes: the file, or the member of the archive that the parser reads. -/
def content (format : ManualFormat) (bytes : Bytes) : Option Bytes :=
  match TEXT_PARSERS p numberText format with
  | some _ => some bytes
  | none =>
    match openZip bytes >>= fun opened => opened.read inflateRaw OnePassword.EXPORT_DATA with
    | .ok contents => some contents
    | .error _ => none

def memberText (contents : Bytes) : Option Text := (fatal contents).map fun cs => utf16 (Unicode.withoutBom cs)

/-- The text of the content, as the path that reads it decodes it. -/
def pathText (format : ManualFormat) (contents : Bytes) : Option Text :=
  match TEXT_PARSERS p numberText format with
  | some _ => some (decodeText contents)
  | none => memberText contents

def parseContent (format : ManualFormat) (mapping : Option CsvColumnMapping) (text : Text) : ImportResult :=
  match TEXT_PARSERS p numberText format with
  | none => OnePassword.parseOnePasswordExportData numberText text
  | some parse =>
    parseText p format parse (if format = .detected .genericCsv then
      mapping.map fun mapping => normalizeMapping p mapping (probedHeader text) else none) text

/-- An import takes from a file the characters that its bytes encode, or says that they encode none. -/
structure Inventless (format : ManualFormat) (mapping : Option CsvColumnMapping) (bytes : Bytes) : Prop where
  encoded : ∀ cs, content p numberText inflateRaw format bytes = some (utf8 cs) →
    parseFile p numberText inflateRaw format mapping bytes =
      some (parseContent p numberText format mapping (utf16 (Unicode.withoutBom cs)))
  refused : ∀ contents, content p numberText inflateRaw format bytes = some contents →
    (∀ cs, contents ≠ utf8 cs) →
    ∃ e, parseFile p numberText inflateRaw format mapping bytes = some ⟨[], [e]⟩
  alike : ∀ contents, content p numberText inflateRaw format bytes = some contents →
    pathText p numberText format contents = memberText contents

end

theorem decodeText_utf8 (cs : List Char) : decodeText (utf8 cs) = utf16 (Unicode.withoutBom cs) := by
  unfold decodeText
  rw [lossy_utf8]

/-- What the decoder puts for what is not UTF-8. -/
theorem decodeText_invents {bytes : Bytes} (h : ∀ cs, bytes ≠ utf8 cs) : 0xFFFD ∈ decodeText bytes := by
  have hmem : replacement ∈ Unicode.withoutBom (lossy bytes) := mem_withoutBom (replacement_mem_lossy h) (by decide)
  exact List.mem_flatMap.mpr ⟨replacement, hmem, by decide⟩

theorem memberText_utf8 (cs : List Char) : memberText (utf8 cs) = some (utf16 (Unicode.withoutBom cs)) := by
  unfold memberText
  rw [fatal_utf8, Option.map_some]

theorem memberText_none {contents : Bytes} (h : ∀ cs, contents ≠ utf8 cs) : memberText contents = none := by
  unfold memberText
  rw [Option.map_eq_none_iff, Option.eq_none_iff_forall_ne_some]
  exact fun cs hcs => h cs (fatal_iff.mp hcs)

theorem readText_eq {archive : ZipArchive} {inflateRaw : Bytes → Option Bytes} {name : Text} {contents : Bytes}
    (h : archive.read inflateRaw name = .ok contents) : archive.readText inflateRaw name =
      match memberText contents with
      | some text => .ok text
      | none => problem (ascii "The contents of " ++ quoted name ++
          ascii " are not valid UTF-8 text, so they could not be read") := by
  unfold ZipArchive.readText memberText
  rw [h]
  cases hf : fatal contents with
  | none => simp [bind, Except.bind, hf]
  | some cs => simp [bind, Except.bind, hf, pure, Except.pure]

theorem parseOnePassword1pux_isSome (numberText : Int → Int → Text) (inflateRaw : Bytes → Option Bytes)
    (archive : Bytes) :
    (OnePassword.parseOnePassword1pux numberText inflateRaw archive).isSome = true := by
  have hbounds : InBounds (openZip archive >>= fun opened => opened.readText inflateRaw OnePassword.EXPORT_DATA) :=
    inBounds_bind (openZip_inBounds archive) fun opened _ => ZipArchive.readText_inBounds opened inflateRaw _
  unfold OnePassword.parseOnePassword1pux
  cases h : openZip archive >>= fun opened => opened.readText inflateRaw OnePassword.EXPORT_DATA with
  | ok text => rfl
  | error e =>
    cases e with
    | problem message => rfl
    | outOfRange => exact absurd h hbounds

section
variable {p : Platform} {numberText : Int → Int → Text} {inflateRaw : Bytes → Option Bytes}
  {format : ManualFormat}

theorem archive_inventless (harchive : TEXT_PARSERS p numberText format = none) (mapping : Option CsvColumnMapping)
    (bytes : Bytes) : Inventless p numberText inflateRaw format mapping bytes := by
  have hcontent : ∀ contents, content p numberText inflateRaw format bytes = some contents → ∃ opened,
      openZip bytes = .ok opened ∧ opened.read inflateRaw OnePassword.EXPORT_DATA = .ok contents := by
    intro contents hcontents
    unfold content at hcontents
    rw [harchive] at hcontents
    cases hopened : openZip bytes with
    | error e => simp [hopened, bind, Except.bind] at hcontents
    | ok opened =>
      refine ⟨opened, rfl, ?_⟩
      cases hread : opened.read inflateRaw OnePassword.EXPORT_DATA with
      | error e => simp [hopened, hread, bind, Except.bind] at hcontents
      | ok contents' => simpa [hopened, hread, bind, Except.bind] using hcontents
  refine ⟨fun cs hcs => ?_, fun contents hcontents hnot => ?_, fun contents _ => ?_⟩
  · obtain ⟨opened, hopened, hread⟩ := hcontent _ hcs
    unfold parseFile parseContent OnePassword.parseOnePassword1pux
    simp only [harchive, hopened, bind, Except.bind, readText_eq hread, memberText_utf8]
  · obtain ⟨opened, hopened, hread⟩ := hcontent _ hcontents
    unfold parseFile OnePassword.parseOnePassword1pux
    simp only [harchive, hopened, bind, Except.bind, readText_eq hread, memberText_none hnot]
    exact ⟨_, rfl⟩
  · unfold pathText
    rw [harchive]

end

/-- An archive is always read so, any other file where it is UTF-8. -/
theorem inventless_iff (p : Platform) (numberText : Int → Int → Text) (inflateRaw : Bytes → Option Bytes)
    (format : ManualFormat) (mapping : Option CsvColumnMapping) (bytes : Bytes) :
    Inventless p numberText inflateRaw format mapping bytes ↔
      format = .detected .onepassword1pux ∨ ∃ cs, bytes = utf8 cs := by
  cases hparse : TEXT_PARSERS p numberText format with
  | none =>
    have hformat : format = .detected .onepassword1pux := by
      cases format with
      | keeperCsv => cases hparse
      | detected parser => cases parser <;> first | rfl | cases hparse
    exact ⟨fun _ => .inl hformat, fun _ => archive_inventless hparse mapping bytes⟩
  | some parse =>
    have hcontent : content p numberText inflateRaw format bytes = some bytes := by
      unfold content
      rw [hparse]
    constructor
    · intro h
      right
      by_contra hnot
      simp only [not_exists] at hnot
      have halike := h.alike bytes hcontent
      unfold pathText at halike
      rw [hparse, memberText_none hnot] at halike
      cases halike
    · rintro (rfl | ⟨cs, rfl⟩)
      · cases hparse
      · have hsame : ∀ contents,
            content p numberText inflateRaw format (utf8 cs) = some contents → contents = utf8 cs :=
          fun contents h => Option.some.inj (h.symm.trans hcontent)
        refine ⟨fun ds hds => ?_, fun contents h hnot => ?_, fun contents h => ?_⟩
        · have hds : ds = cs := by rw [← lossy_utf8 ds, hsame _ hds, lossy_utf8]
          unfold parseFile parseContent
          rw [hds, hparse]
          simp only [decodeText_utf8]
        · exact absurd (hsame _ h) (hnot cs)
        · unfold pathText
          rw [hsame _ h, hparse, memberText_utf8]
          simp only [decodeText_utf8]

/-- A password in Latin-1, the last of its letters not a character of UTF-8. -/
def latinExport : Bytes := (ascii "name,url,username,password\nmail,mail.test,a,caf").map (·.toUInt8) ++ [0xE9]

theorem latin_invented :
    ¬ Inventless asciiPlatform (fun _ _ => []) some (.detected .browserCsv) none latinExport := by
  intro h
  have hnot : ∀ cs, latinExport ≠ utf8 cs := by
    intro cs hcs
    have hfatal := fatal_iff.mpr hcs
    rw [show fatal latinExport = none by decide +kernel] at hfatal
    cases hfatal
  obtain ⟨e, he⟩ := h.refused latinExport rfl hnot
  have hitems : (parseFile asciiPlatform (fun _ _ => []) some (.detected .browserCsv) none latinExport).map
      (·.items.map (·.password)) = some [ascii "caf" ++ [0xFFFD]] := by decide +kernel
  rw [he] at hitems
  cases hitems

end Keyhole.Import
