import Keyhole.Import.Map

/-!
# What a conversion conserves

What the stored kind has no field for is written below the user's own notes,
line by line.
-/

namespace Keyhole.Import

/-! ## Joined lines -/

theorem mem_join {sep line : Text} {lines : List Text} (h : line ∈ lines) : line <:+: join sep lines := by
  unfold join
  induction lines with
  | nil => cases h
  | cons first lines ih =>
    cases lines with
    | nil =>
      have hone : sep.intercalate [first] = line := by
        rw [List.intercalate_singleton, List.mem_singleton.mp h]
      exact hone ▸ List.infix_rfl
    | cons second lines =>
      rw [List.intercalate_cons_cons]
      cases List.mem_cons.mp h with
      | inl hf =>
        subst hf
        exact (List.prefix_append _ _).isInfix.trans (List.prefix_append _ _).isInfix
      | inr hl => exact (ih hl).trans (List.suffix_append _ _).isInfix

theorem join_suffix (sep : Text) (above lines : List Text) : join sep lines <:+ join sep (above ++ lines) := by
  unfold join
  induction above with
  | nil => exact List.suffix_rfl
  | cons first above ih =>
    cases h : above ++ lines with
    | nil =>
      obtain ⟨-, rfl⟩ := List.append_eq_nil_iff.mp h
      exact List.nil_suffix
    | cons second rest =>
      rw [h] at ih
      rw [List.cons_append, h, List.intercalate_cons_cons]
      exact ih.trans (List.suffix_append _ _)

theorem join_begins (sep : Text) (lines below : List Text) : join sep lines <+: join sep (lines ++ below) := by
  unfold join
  induction lines with
  | nil => exact List.nil_prefix
  | cons first lines ih =>
    cases lines with
    | nil =>
      cases below with
      | nil => exact List.prefix_rfl
      | cons second below =>
        rw [List.cons_append, List.nil_append, List.intercalate_cons_cons, List.intercalate_singleton,
          List.append_assoc]
        exact List.prefix_append _ _
    | cons second lines =>
      rw [List.cons_append, List.cons_append, List.intercalate_cons_cons, List.intercalate_cons_cons]
      exact (List.prefix_append_right_inj _).mpr ih

/-! ## The notes -/

def blockLines (item : ImportItem) (carried : List Text) : List Text :=
  (if item.folderPath = [] then [] else [ascii "Folder: " ++ join PATH_SEPARATOR item.folderPath]) ++
    carried ++ item.extra.map extraLine

variable (item : ImportItem) (carried : List Text)

theorem composeNotes_lines : composeNotes item carried =
    if blockLines item carried = [] then item.notes
    else if item.notes = [] then join [LF] (IMPORTED_HEADING :: blockLines item carried)
    else item.notes ++ [LF, LF] ++ join [LF] (IMPORTED_HEADING :: blockLines item carried) := rfl

theorem composeNotes_begins : item.notes <+: composeNotes item carried := by
  rw [composeNotes_lines]
  split
  · exact List.prefix_rfl
  · split
    · rename_i h
      rw [h]
      exact List.nil_prefix
    · rw [List.append_assoc]
      exact List.prefix_append _ _

theorem composeNotes_block : join [LF] (blockLines item carried) <:+ composeNotes item carried := by
  have hblock : join [LF] (blockLines item carried) <:+ join [LF] (IMPORTED_HEADING :: blockLines item carried) :=
    join_suffix [LF] [IMPORTED_HEADING] _
  rw [composeNotes_lines]
  split
  · rename_i h
    rw [h]
    exact List.nil_suffix
  · split
    · exact hblock
    · exact hblock.trans (List.suffix_append _ _)

variable {item carried}

theorem line_composed {line : Text} (h : line ∈ blockLines item carried) : line <:+: composeNotes item carried :=
  (mem_join h).trans (composeNotes_block item carried).isInfix

theorem segment_composed (carried : List Text) {segment : Text} (h : segment ∈ item.folderPath) :
    segment <:+: composeNotes item carried := by
  have hline : ascii "Folder: " ++ join PATH_SEPARATOR item.folderPath ∈ blockLines item carried := by
    unfold blockLines
    rw [if_neg (List.ne_nil_of_mem h)]
    simp
  exact (mem_join h).trans ((List.suffix_append _ _).isInfix.trans (line_composed hline))

theorem carried_composed (carried : List Text) : join [LF] carried <:+: composeNotes item carried := by
  have h₁ := (join_begins [LF] carried (item.extra.map extraLine)).isInfix
  have h₂ := (join_suffix [LF] (if item.folderPath = [] then [] else
    [ascii "Folder: " ++ join PATH_SEPARATOR item.folderPath]) (carried ++ item.extra.map extraLine)).isInfix
  rw [← List.append_assoc] at h₂
  exact h₁.trans (h₂.trans (composeNotes_block item carried).isInfix)

theorem extra_composed (carried : List Text) : join [LF] (item.extra.map extraLine) <:+ composeNotes item carried :=
  (join_suffix [LF] _ (item.extra.map extraLine)).trans (composeNotes_block item carried)

theorem extraLine_name (field : ImportField) : field.name <:+: extraLine field := by
  unfold extraLine
  split
  · exact ⟨_, _, by rw [← List.append_assoc]⟩
  · rw [List.append_assoc]
    exact (List.prefix_append _ _).isInfix
  · rw [List.append_assoc]
    exact (List.prefix_append _ _).isInfix

theorem extraLine_value (field : ImportField) : field.value <:+ extraLine field := by
  unfold extraLine
  split <;> exact List.suffix_append _ _

/-! ## What an item holds -/

/-- A note has none. -/
def ItemPlaintext.password : ItemPlaintext → Option Text
  | login _ _ password _ _ _ _ _ => some password
  | note .. => none

def ItemPlaintext.notes : ItemPlaintext → Text
  | login _ _ _ _ notes .. => notes
  | note _ notes .. => notes

def ItemPlaintext.name : ItemPlaintext → Text
  | login name .. => name
  | note name .. => name

/-- The login's own fields, or lines of the note. -/
def ItemPlaintext.Places (plain : ItemPlaintext) (item : ImportItem) : Prop :=
  match plain with
  | .login _ username _ urls .. => username = item.username ∧ urls = item.urls
  | .note _ notes .. => item.username <:+: notes ∧ (∀ url ∈ item.urls, url <:+: notes) ∧
      join [LF] (item.urls.map (ascii "Web address: " ++ ·)) <:+: notes

/-- What a conversion owes. Each extra field has a line of its own, repeated names included. -/
structure Conserved (item : ImportItem) (plain : ItemPlaintext) : Prop where
  name : plain.name = item.name
  password : plain.password.getD [] = item.password
  login : item.password ≠ [] → plain.password = some item.password
  notes : item.notes <+: plain.notes
  places : plain.Places item
  folder : ∀ segment ∈ item.folderPath, segment <:+: plain.notes
  extras : join [LF] (item.extra.map extraLine) <:+ plain.notes
  extra : ∀ field ∈ item.extra, extraLine field <:+: plain.notes ∧
    field.name <:+: extraLine field ∧ field.value <:+: extraLine field

theorem conserved_of_notes {plain : ItemPlaintext} (hn : plain.notes = composeNotes item carried)
    (hname : plain.name = item.name) (hp : plain.password.getD [] = item.password)
    (hl : item.password ≠ [] → plain.password = some item.password) (hplaces : plain.Places item) :
    Conserved item plain where
  name := hname
  password := hp
  login := hl
  notes := hn ▸ composeNotes_begins item carried
  places := hplaces
  folder segment h := hn ▸ segment_composed carried h
  extras := hn ▸ extra_composed carried
  extra field h := by
    refine ⟨?_, extraLine_name field, (extraLine_value field).isInfix⟩
    rw [hn]
    exact line_composed (List.mem_append_right _ (List.mem_map_of_mem h))

theorem toItemPlaintext_conserves (item : ImportItem) (folderId : Option Text) :
    Conserved item (toItemPlaintext item folderId) := by
  by_cases h : (item.type = .login || item.password ≠ []) = true
  · have he : toItemPlaintext item folderId = _ := if_pos h
    rw [he]
    exact conserved_of_notes rfl rfl rfl (fun _ => rfl) ⟨rfl, rfl⟩
  · have he : toItemPlaintext item folderId = _ := if_neg h
    have hp : item.password = [] := by simp_all
    rw [he]
    refine conserved_of_notes rfl rfl hp.symm (fun hne => absurd hp hne) ⟨?_, ?_, ?_⟩
    · by_cases hu : item.username = []
      · rw [hu]
        exact List.nil_infix
      · refine (List.suffix_append (ascii "Username: ") _).isInfix.trans (line_composed ?_)
        simp [blockLines, hu]
    · intro url hurl
      refine (List.suffix_append (ascii "Web address: ") _).isInfix.trans (line_composed ?_)
      simp [blockLines, hurl]
    · exact (join_suffix [LF] _ _).isInfix.trans (carried_composed _)

end Keyhole.Import
