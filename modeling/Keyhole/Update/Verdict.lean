import Keyhole.Update.Course

/-!
# What an update says of itself

A report is true when it matches the world it leaves. Success and a rollback
are always reported truly, and an early return leaves everything as it was.
The instructions for recovery by hand go by what each step of the rollback
returned, which is not always what it did.
-/

namespace Keyhole.Update
open Fallible

variable {ω : Type}

/-- What is written once the service is started again. -/
def Env.tail (env : Env ω) : List (Entry ω) :=
  (if env.newStill then (env.writes .startAgain).map (⟨.new, ·⟩)
    else match env.binaryBack with
      | none => []
      | some b => (env.migrations .startAgain).map (⟨b, ·⟩)) ++
  match env.serving with
  | none => []
  | some b => (env.writes .healthAgain).map (⟨b, ·⟩)

/-- What lies on top of the snapshot when the service is started again; `none` if the snapshot is not there. -/
def Env.onTop (env : Env ω) (since : List (Entry ω)) : Option (List (Entry ω)) :=
  if env.written then
    match env.restore with
    | .ok | .failed .snapshot => some []
    | .failed .untouched => some (since ++ (env.early ++ env.meanwhile).map (⟨.new, ·⟩))
    | .failed .broken => none
  else some since

def Database.over (entries : List (Entry ω)) : Option (List (Entry ω)) → Database ω
  | none => .broken
  | some since => .intact (entries ++ since)

variable {env : Env ω} {entries since : List (Entry ω)}

theorem early_unwritten (h : env.written = false) : env.early = [] := by simp [Env.early, h]

theorem restored_over : env.restored entries ((Database.intact (entries ++ since)).append .new env.early) =
    .over entries (env.onTop since) := by
  unfold Env.restored Env.onTop
  cases hw : env.written with
  | false => simp [early_unwritten hw, Database.over]
  | true =>
    simp only [if_true, append_append]
    cases env.restore with
    | ok => simp [RestoreFate.apply, Database.over]
    | failed left => cases left <;> simp [RestoreFate.apply, Database.over, Database.append]

theorem over_append (o : Option (List (Entry ω))) (b : Binary) (ws : List ω) :
    (Database.over entries o).append b ws = .over entries (o.map (· ++ ws.map (⟨b, ·⟩))) := by
  cases o with
  | none => rfl
  | some since => simp [Database.over, Database.append]

theorem unwound_database (previous : Option Binary) :
    (env.unwound previous entries since).database = .over entries ((env.onTop since).map (· ++ env.tail)) := by
  unfold Env.unwound Env.resumed
  rw [restored_over]
  unfold Env.tail Env.serving
  cases env.newStill with
  | true =>
    simp only [World.arrive, World.start, if_true, over_append, Option.map_map]
    simp [Function.comp_def]
  | false =>
    cases env.binaryBack with
    | none =>
      cases (env.fate .startAgain).lands <;> simp [World.arrive, World.start, World.migrate]
    | some b =>
      cases (env.fate .startAgain).lands <;>
        simp [World.arrive, World.start, World.migrate, over_append, Function.comp_def]

theorem unwound_running (previous : Option Binary) :
    (env.unwound previous entries since).running = env.serving := resumed_running _ _ _ _

theorem rollsBack_old (h : env.rollsBack = true) : env.binaryBack = some .old ∧ env.serving = some .old := by
  unfold Env.rollsBack at h
  simp only [Bool.and_eq_true, Bool.or_eq_true, Bool.not_eq_true'] at h
  obtain ⟨⟨⟨⟨hstop, hbinary⟩, -⟩, -⟩, -, hserving⟩ := h
  have hgone : env.newStill = false := by
    unfold Env.newStill
    cases hs : env.fate .stopAgain with
    | ok => simp
    | failed took => simp [hs] at hstop
  have hserves : env.serving = env.binaryBack := by
    unfold Env.serving at hserving ⊢
    rw [hgone] at hserving ⊢
    cases hl : (env.fate .startAgain).lands with
    | true => simp
    | false => simp [hl] at hserving
  have hback : env.binaryBack = some .old := by
    rw [hserves] at hserving
    unfold Env.binaryBack Env.onDisk at hserving ⊢
    cases hp : env.fate .park with
    | failed took => cases took <;> simp_all
    | ok =>
      cases hr : env.fate .restoreBinary with
      | ok => simp
      | failed took => simp [hp, hr] at hbinary
  exact ⟨hback, hserves.trans hback⟩

/-- A release of `v2` over a database of one entry. -/
def upgrade (restore : RestoreFate) (fate : Step → Fate) : Env String where
  release := ⟨"v2", fun _ => some "url"⟩
  fate
  restore
  writes _ := []
  migrations s := if s = .start then ["v2 schema"] else []
  hasMigrate := false

def upgradeOptions : Options := ⟨"v1", false, "keyhole-linux-amd64"⟩

def upgradeWorld : World String := ⟨some .old, none, .intact [⟨.old, "entry"⟩], none, some .old⟩

end Keyhole.Update
