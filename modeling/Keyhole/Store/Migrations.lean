import Keyhole.Lib.Await
import Keyhole.Lib.Prog
import Keyhole.Lib.Table
import Mathlib.Algebra.Order.Group.Int

/-!
# Migrations

Every command of the binary brings the database up to date when it starts, so
any number of runs of `Migrate`, of any releases, may be under way at a time
and may be cut off anywhere. What a script does is SQLite's.
-/

namespace Keyhole.Store
open Sql Await

structure Migration where
  version : Int
  name : String
  sql : String
  deriving DecidableEq, Repr

inductive MigrateError
  | createTable (cause : String)
  | checkTable (cause : String)
  | readVersion (cause : String)
  | filename (name : String)
  | notVersion (name first : String)
  | begin (version : Int) (cause : String)
  | apply (name cause : String)
  | record (name cause : String)
  | commit (name cause : String)
  /-- The database's own words, before anything is said of where. -/
  | database (words : String)
  deriving DecidableEq, Repr

def MigrateError.text : MigrateError → String
  | createTable cause => "create schema_migrations: " ++ cause
  | checkTable cause => "check schema_migrations table: " ++ cause
  | readVersion cause => "read schema version: " ++ cause
  | filename name => "migration " ++ name.quote ++ ": expected a NNNN_name.sql filename"
  | notVersion name first => "migration " ++ name.quote ++ ": " ++ first.quote ++ " is not a version number"
  | begin version cause => "begin migration " ++ toString version ++ ": " ++ cause
  | apply name cause => "apply migration " ++ name ++ ": " ++ cause
  | record name cause => "record migration " ++ name ++ ": " ++ cause
  | commit name cause => "commit migration " ++ name ++ ": " ++ cause
  | database words => words

/-! ## Reading the embedded files -/

def isDigit (c : Char) : Bool := '0' ≤ c && c ≤ '9'

def digitsValue (ds : List Char) : Nat := ds.foldl (fun n d => n * 10 + (d.toNat - 48)) 0

/-- `strconv.Atoi` of a 64-bit platform. -/
def atoi (s : List Char) : Option Int :=
  let (negative, ds) := match s with
    | '-' :: ds => (true, ds)
    | '+' :: ds => (false, ds)
    | ds => (false, ds)
  if ds = [] ∨ ds.all isDigit = false then none
  else
    let n : Int := if negative then -digitsValue ds else digitsValue ds
    if -2 ^ 63 ≤ n ∧ n < 2 ^ 63 then some n else none

def loadMigration (name sql : String) : Except MigrateError Migration :=
  let (first, rest) := name.toList.span (· ≠ '_')
  if rest = [] then .error (.filename name)
  else
    match atoi first with
    | none => .error (.notVersion name (String.ofList first))
    | some version => .ok ⟨version, name, sql⟩

/-- The files of the `migrations` directory, each with its text. -/
def loadMigrations (files : List (String × String)) : Except MigrateError (List Migration) := do
  let migrations ← files.mapM fun file => loadMigration file.1 file.2
  pure (migrations.insertionSort fun m m' => m.version ≤ m'.version)

/-! ## The database -/

/-- `schema` is everything but the table of migrations, whose rows are versions and names. -/
structure Base (σ : Type) where
  migrations : Option (Table (Prod.fst : Int × String → Int))
  schema : σ

namespace Base

variable {σ : Type}

def recorded (s : Base σ) : List (Int × String) := s.migrations.elim [] (·.rows)

def maxVersion (s : Base σ) : Option Int := (s.recorded.map Prod.fst).max?

end Base

section
variable {σ : Type} (script : String → σ → Except String σ)

/-- The two statements inside a migration's transaction. -/
def applyTx (m : Migration) : Prog (Base σ) MigrateError Unit := do
  .stmt (fun s => match script m.sql s.schema with
    | .ok schema => .ok ((), { s with schema })
    | .error e => .error (.apply m.name e)) .done
  .stmt (fun s => match s.migrations with
    | none => .error (.record m.name "no such table: schema_migrations")
    | some t => match t.insert? (m.version, m.name) with
      | none => .error (.record m.name "UNIQUE constraint failed: schema_migrations.version")
      | some t' => .ok ((), { s with migrations := some t' })) .done

inductive MigrateCmd
  | createTable
  | countTable
  | maxVersion
  | applyMigration (m : Migration)

@[reducible] def MigrateCmd.Answer : MigrateCmd → Type
  | createTable => Unit
  | countTable => Nat
  | maxVersion => Option Int
  | applyMigration _ => Unit

abbrev Migrating (α : Type) : Type := Proc MigrateCmd.Answer MigrateError α

/-- What may come of a command. Any statement may fail, and a commit may report a failure after it has committed. -/
inductive MigrateExec : Base σ → (c : MigrateCmd) → Except MigrateError c.Answer → Base σ → Prop
  | created {s : Base σ} :
      MigrateExec s .createTable (.ok ()) { s with migrations := some (s.migrations.getD ∅) }
  | createdUnheard {s : Base σ} (e : MigrateError) :
      MigrateExec s .createTable (.error e) { s with migrations := some (s.migrations.getD ∅) }
  | counted {s : Base σ} : MigrateExec s .countTable (.ok (if s.migrations.isSome then 1 else 0)) s
  | read {s : Base σ} : s.migrations.isSome = true → MigrateExec s .maxVersion (.ok s.maxVersion) s
  | missing {s : Base σ} : s.migrations = none →
      MigrateExec s .maxVersion (.error (.database "no such table: schema_migrations")) s
  | applied {s s' : Base σ} {m : Migration} : (applyTx script m).exec s = .ok ((), s') →
      MigrateExec s (.applyMigration m) (.ok ()) s'
  | refused {s : Base σ} {m : Migration} {e : MigrateError} : (applyTx script m).exec s = .error e →
      MigrateExec s (.applyMigration m) (.error e) s
  | unheard {s s' : Base σ} {m : Migration} (e : MigrateError) : (applyTx script m).exec s = .ok ((), s') →
      MigrateExec s (.applyMigration m) (.error e) s'
  | failed {s : Base σ} {c : MigrateCmd} (e : MigrateError) : MigrateExec s c (.error e) s

end

def causeText : MigrateError → String
  | .database words => words
  | e => e.text

def wrapping {α : Type} (wrap : String → MigrateError) (x : Migrating α) : Migrating α :=
  x.catchWith fun e => .throw (wrap (causeText e))

def schemaVersion : Migrating Int := do
  let exist ← wrapping .checkTable (.perform MigrateCmd.countTable)
  if exist = 0 then pure 0
  else do
    let version ← wrapping .readVersion (.perform MigrateCmd.maxVersion)
    pure (version.getD 0)

def applyNewer (current : Int) : List Migration → Migrating Unit
  | [] => pure ()
  | m :: ms =>
    if m.version ≤ current then applyNewer current ms
    else do
      .perform (MigrateCmd.applyMigration m)
      applyNewer current ms

def migrate (files : List (String × String)) : Migrating Unit := do
  wrapping .createTable (.perform MigrateCmd.createTable)
  let current ← schemaVersion
  let migrations ← .done (loadMigrations files)
  applyNewer current migrations

/-! ## Releases -/

/-- The migrations ever published, in the order of their versions; a release ships those up to some point. -/
structure Lineage where
  history : List Migration
  increasing : history.Pairwise (·.version < ·.version)
  positive : ∀ m ∈ history, 0 < m.version

structure Release (L : Lineage) where
  files : List (String × String)
  upTo : Nat
  within : upTo ≤ L.history.length
  loads : loadMigrations files = .ok (L.history.take upTo)

def Migration.tag (m : Migration) : Int × String := (m.version, m.name)

section
variable {σ : Type} {script : String → σ → Except String σ} {L : Lineage}

theorem Lineage.version_lt {i j : Nat} {m m' : Migration} (hi : L.history[i]? = some m)
    (hj : L.history[j]? = some m') (h : i < j) : m.version < m'.version := by
  obtain ⟨hi', rfl⟩ := List.getElem?_eq_some_iff.mp hi
  obtain ⟨hj', rfl⟩ := List.getElem?_eq_some_iff.mp hj
  exact List.pairwise_iff_getElem.mp L.increasing i j hi' hj' h

theorem Lineage.le_of_version_le {i j : Nat} {m m' : Migration} (hi : L.history[i]? = some m)
    (hj : L.history[j]? = some m') (h : m.version ≤ m'.version) : i ≤ j := by
  by_contra hij
  exact absurd (L.version_lt hj hi (Nat.lt_of_not_le hij)) (Int.not_lt.mpr h)

/-- The first `k` migrations are recorded, and the schema is what their scripts make of `first`, in order. -/
def UpTo (script : String → σ → Except String σ) (L : Lineage) (first : σ) (k : Nat) (s : Base σ) : Prop :=
  k ≤ L.history.length ∧ s.recorded = (L.history.take k).map Migration.tag ∧
    (L.history.take k).foldlM (fun schema m => script m.sql schema) first = .ok s.schema

def Level (script : String → σ → Except String σ) (L : Lineage) (first : σ) (s : Base σ) : Prop :=
  ∃ k, UpTo script L first k s

/-- What any run of a migration changes. -/
def Onward (s t : Base σ) : Prop :=
  (∃ more, t.recorded = s.recorded ++ more) ∧ (s.migrations.isSome = true → t.migrations.isSome = true)

theorem onward_refl (s : Base σ) : Onward s s := ⟨⟨[], (List.append_nil _).symm⟩, id⟩

theorem onward_trans (s t u : Base σ) (h : Onward s t) (h' : Onward t u) : Onward s u := by
  obtain ⟨⟨more, hm⟩, hs⟩ := h
  obtain ⟨⟨more', hm'⟩, hs'⟩ := h'
  exact ⟨⟨more ++ more', by rw [hm', hm, List.append_assoc]⟩, fun h => hs' (hs h)⟩

theorem Onward.length {s t : Base σ} (h : Onward s t) : s.recorded.length ≤ t.recorded.length := by
  obtain ⟨⟨more, hm⟩, -⟩ := h
  rw [hm, List.length_append]
  exact Nat.le_add_right _ _

theorem Base.recorded_create (s : Base σ) :
    (⟨some (s.migrations.getD ∅), s.schema⟩ : Base σ).recorded = s.recorded := by
  unfold Base.recorded
  cases s.migrations <;> rfl

theorem UpTo.length {first : σ} {k : Nat} {s : Base σ} (h : UpTo script L first k s) : s.recorded.length = k := by
  rw [h.2.1, List.length_map, List.length_take, Nat.min_eq_left h.1]

/-- A migration is applied when all before it are recorded. -/
def InTurn (L : Lineage) (s : Base σ) : MigrateCmd → Prop
  | .applyMigration m => ∃ i, L.history[i]? = some m ∧ i ≤ s.recorded.length
  | _ => True

/-! ## One command -/

/-- What a migration's transaction commits. -/
theorem applyTx_ok {m : Migration} {s s' : Base σ} (h : (applyTx script m).exec s = .ok ((), s')) :
    ∃ t t' schema, script m.sql s.schema = .ok schema ∧ s.migrations = some t ∧ t.insert? m.tag = some t' ∧
      s' = ⟨some t', schema⟩ := by
  unfold applyTx at h
  rw [Prog.exec_bind_ok] at h
  obtain ⟨_, s₁, h₁, h₂⟩ := h
  simp only [Prog.exec] at h₁ h₂
  cases hs : script m.sql s.schema with
  | error e => simp [hs] at h₁
  | ok schema =>
    simp only [hs, Except.ok.injEq, Prod.mk.injEq, true_and] at h₁
    subst h₁
    cases ht : s.migrations with
    | none => simp [ht] at h₂
    | some t =>
      simp only [ht] at h₂
      cases hi : t.insert? (m.version, m.name) with
      | none => simp [hi] at h₂
      | some t' =>
        simp only [hi, Except.ok.injEq, Prod.mk.injEq, true_and] at h₂
        exact ⟨t, t', schema, rfl, rfl, hi, h₂.symm⟩

theorem recorded_applyTx {m : Migration} {s s' : Base σ} (h : (applyTx script m).exec s = .ok ((), s')) :
    s'.recorded = s.recorded ++ [m.tag] ∧ m.tag.1 ∉ s.recorded.map Prod.fst := by
  obtain ⟨t, t', schema, -, ht, hi, rfl⟩ := applyTx_ok h
  have hrec : s.recorded = t.rows := by
    unfold Base.recorded
    rw [ht]
    rfl
  rw [hrec]
  refine ⟨Table.insert?_rows hi, fun hm => ?_⟩
  have hfresh := Table.get?_eq_none.mp (Table.insert?_fresh hi)
  obtain ⟨r, hr, hk⟩ := List.mem_map.mp hm
  exact hfresh r hr hk

/-- A migration whose turn it may be is the next one, or its version is taken. -/
theorem next_migration {first : σ} {k i : Nat} {m : Migration} {s : Base σ} (h : UpTo script L first k s)
    (hi : L.history[i]? = some m) (hik : i ≤ k) (hfresh : m.version ∉ s.recorded.map Prod.fst) : i = k := by
  by_contra hne
  have hlt : i < k := Nat.lt_of_le_of_ne hik hne
  refine hfresh ?_
  rw [h.2.1, List.map_map]
  refine List.mem_map.mpr ⟨m, ?_, rfl⟩
  rw [List.mem_take_iff_getElem]
  obtain ⟨hl, rfl⟩ := List.getElem?_eq_some_iff.mp hi
  exact ⟨i, Nat.lt_min.mpr ⟨hlt, hl⟩, rfl⟩

theorem upTo_applied {first : σ} {k : Nat} {m : Migration} {s s' : Base σ} (h : UpTo script L first k s)
    (hm : InTurn L s (.applyMigration m)) (hx : (applyTx script m).exec s = .ok ((), s')) :
    UpTo script L first (k + 1) s' := by
  obtain ⟨i, hi, hle⟩ := hm
  obtain ⟨hrec, hfresh⟩ := recorded_applyTx hx
  obtain rfl := next_migration h hi (h.length ▸ hle) hfresh
  obtain ⟨t, t', schema, hscript, -, -, rfl⟩ := applyTx_ok hx
  obtain ⟨hl, rfl⟩ := List.getElem?_eq_some_iff.mp hi
  have htake : L.history.take (i + 1) = L.history.take i ++ [L.history[i]] := List.take_succ_eq_append_getElem hl
  refine ⟨hl, ?_, ?_⟩
  · rw [hrec, h.2.1, htake, List.map_append]
    rfl
  · rw [htake, List.foldlM_append, h.2.2]
    simp only [List.foldlM_cons, List.foldlM_nil]
    change (script L.history[i].sql s.schema >>= pure) = _
    rw [hscript]
    rfl

theorem exec_level {first : σ} {s s' : Base σ} {c : MigrateCmd} {r : Except MigrateError c.Answer}
    (hs : Level script L first s) (hc : InTurn L s c) (h : MigrateExec script s c r s') :
    Level script L first s' ∧ Onward s s' := by
  obtain ⟨k, hk⟩ := hs
  have hcommit : ∀ {m : Migration} {t : Base σ}, InTurn L s (.applyMigration m) →
      (applyTx script m).exec s = .ok ((), t) → Level script L first t ∧ Onward s t := by
    intro m t hm hx
    refine ⟨⟨k + 1, upTo_applied hk hm hx⟩, ⟨[m.tag], (recorded_applyTx hx).1⟩, fun _ => ?_⟩
    obtain ⟨_, t', _, -, -, -, rfl⟩ := applyTx_ok hx
    rfl
  have hcreate : Level script L first ⟨some (s.migrations.getD ∅), s.schema⟩ ∧
      Onward s ⟨some (s.migrations.getD ∅), s.schema⟩ :=
    ⟨⟨k, hk.1, s.recorded_create.trans hk.2.1, hk.2.2⟩,
      ⟨[], s.recorded_create.trans (List.append_nil _).symm⟩, fun _ => rfl⟩
  cases h with
  | created => exact hcreate
  | createdUnheard e => exact hcreate
  | applied hx => exact hcommit hc hx
  | unheard e hx => exact hcommit hc hx
  | counted => exact ⟨⟨k, hk⟩, onward_refl s⟩
  | read hsome => exact ⟨⟨k, hk⟩, onward_refl s⟩
  | missing hnone => exact ⟨⟨k, hk⟩, onward_refl s⟩
  | refused hx => exact ⟨⟨k, hk⟩, onward_refl s⟩
  | failed e => exact ⟨⟨k, hk⟩, onward_refl s⟩

/-! ## A run of `Migrate` -/

/-- Every migration up to the version `current` is recorded. -/
def Covers (L : Lineage) (current : Int) (s : Base σ) : Prop :=
  ∀ i m, L.history[i]? = some m → m.version ≤ current → i < s.recorded.length

theorem Covers.later {current : Int} {s t : Base σ} (h : Covers L current s) (hr : Onward s t) :
    Covers L current t :=
  fun i m hi hm => Nat.lt_of_lt_of_le (h i m hi hm) hr.length

/-- The highest recorded version covers what is recorded, and no more. -/
theorem covers_maxVersion {first : σ} {s : Base σ} (h : Level script L first s) :
    Covers L (s.maxVersion.getD 0) s := by
  obtain ⟨k, hk⟩ := h
  intro i m hi hm
  rw [hk.length]
  cases hmax : s.maxVersion with
  | none =>
    rw [hmax] at hm
    exact absurd (L.positive m (List.mem_of_getElem? hi)) (Int.not_lt.mpr hm)
  | some v =>
    rw [hmax] at hm
    have hv := List.max?_mem hmax
    rw [hk.2.1, List.map_map] at hv
    obtain ⟨m', hm', rfl⟩ := List.mem_map.mp hv
    obtain ⟨j, hj, rfl⟩ := List.mem_take_iff_getElem.mp hm'
    have hjk : j < k := (Nat.lt_min.mp hj).1
    have hjl : j < L.history.length := (Nat.lt_min.mp hj).2
    exact Nat.lt_of_le_of_lt (L.le_of_version_le hi (List.getElem?_eq_getElem hjl) hm) hjk

abbrev Along (script : String → σ → Except String σ) (L : Lineage) (first : σ) {α : Type}
    (Q : Except MigrateError α → Base σ → Prop) (x : Migrating α) (s : Base σ) : Prop :=
  x.Follows (MigrateExec script) (Level script L first) Onward (InTurn L) Q s

/-- All the migrations of a list that goes up to `n` are recorded when the run comes to its end. -/
theorem along_applyNewer {first : σ} {current : Int} {n : Nat} (hn : n ≤ L.history.length) :
    ∀ {i : Nat} {ms : List Migration} {s : Base σ}, ms = (L.history.take n).drop i → i ≤ s.recorded.length →
      Covers L current s →
      Along script L first (fun r t => r = .ok () → n ≤ t.recorded.length) (applyNewer current ms) s := by
  intro i ms
  induction ms generalizing i with
  | nil =>
    intro s hms hi hcov _
    have hle : n ≤ i := by
      have := congrArg List.length hms
      rw [List.length_drop, List.length_take, Nat.min_eq_left hn, List.length_nil] at this
      omega
    exact Nat.le_trans hle hi
  | cons m ms ih =>
    intro s hms hi hcov
    have hlt : i < (L.history.take n).length := by
      by_contra hge
      rw [List.drop_of_length_le (Nat.le_of_not_lt hge)] at hms
      cases hms
    rw [List.drop_eq_getElem_cons hlt] at hms
    obtain ⟨hm, hrest⟩ := List.cons.inj hms
    have hget : L.history[i]? = some m := by
      rw [List.length_take] at hlt
      rw [hm, List.getElem_take]
      exact List.getElem?_eq_getElem (Nat.lt_min.mp hlt).2
    unfold applyNewer
    by_cases hv : m.version ≤ current
    · rw [if_pos hv]
      exact ih hrest (hcov i m hget hv) hcov
    · rw [if_neg hv]
      refine Proc.Follows.bind (P := fun _ t => i + 1 ≤ t.recorded.length ∧ Covers L current t) ?_ ?_
      · refine Proc.Follows.perform (c := MigrateCmd.applyMigration m) fun t hr hlev => ?_
        have hit := Nat.le_trans hi hr.length
        have hcov' : Covers L current t := hcov.later hr
        refine ⟨⟨i, hget, hit⟩, fun r t' hx => ⟨?_, by simp⟩⟩
        rintro a rfl
        cases hx with
        | applied hx =>
          have hrec := (recorded_applyTx hx).1
          refine ⟨?_, fun j m' hj hm' => ?_⟩
          · rw [hrec, List.length_append, List.length_singleton]
            exact Nat.succ_le_succ hit
          · rw [hrec, List.length_append]
            exact Nat.lt_of_lt_of_le (hcov' j m' hj hm') (Nat.le_add_right _ _)
      · exact fun _ t h => ih hrest h.1 h.2

theorem along_wrapping {first : σ} {α : Type} {wrap : String → MigrateError} {x : Migrating α}
    {Q : Except MigrateError α → Base σ → Prop} {s : Base σ}
    (h : Along script L first (fun r t => (∀ a, r = .ok a → Q (.ok a) t) ∧ ∀ e, r = .error e →
      ∀ e', Q (.error e') t) x s) :
    Along script L first Q (wrapping wrap x) s :=
  Proc.Follows.catchWith (E := fun _ t => ∀ e', Q (.error e') t) h fun _ _ he => he _

theorem along_schemaVersion {first : σ} {s : Base σ} (hs : s.migrations.isSome = true)
    {Q : Except MigrateError Int → Base σ → Prop}
    (h : ∀ v t, Onward s t → Level script L first t → Covers L v t → Q (.ok v) t)
    (he : ∀ e t, Q (.error e) t) :
    Along script L first Q schemaVersion s := by
  unfold schemaVersion
  refine Proc.Follows.bind (P := fun n t => n = 1 ∧ Onward s t) ?_ ?_
  · refine along_wrapping (Proc.Follows.perform (c := MigrateCmd.countTable) fun t hr hlev => ⟨trivial, ?_⟩)
    intro r t' hx
    refine ⟨?_, by simp [he]⟩
    rintro n rfl
    cases hx
    refine ⟨?_, by simp⟩
    rintro n h'
    cases h'
    rw [if_pos (hr.2 hs)]
    exact ⟨rfl, hr⟩
  rintro n t ⟨rfl, hr⟩
  rw [if_neg (by decide)]
  refine Proc.Follows.bind (P := fun v u => Onward s u ∧ Level script L first u ∧ Covers L (v.getD 0) u) ?_ ?_
  · refine along_wrapping (Proc.Follows.perform (c := MigrateCmd.maxVersion) fun u hr' hlev => ⟨trivial, ?_⟩)
    intro r u' hx
    refine ⟨?_, by simp [he]⟩
    rintro v rfl
    cases hx
    refine ⟨?_, by simp⟩
    rintro v h'
    cases h'
    exact ⟨onward_trans _ _ _ hr hr', hlev, covers_maxVersion hlev⟩
  · rintro v u ⟨hr, hlev, hcov⟩
    exact h _ u hr hlev hcov

theorem along_migrate {first : σ} (r : Release L) (s : Base σ) :
    Along script L first (fun a t => a = .ok () → r.upTo ≤ t.recorded.length) (migrate r.files) s := by
  unfold migrate
  refine Proc.Follows.bind (P := fun _ t => t.migrations.isSome = true) ?_ ?_
  · refine along_wrapping (Proc.Follows.perform (c := MigrateCmd.createTable) fun t _ hlev => ⟨trivial, ?_⟩)
    intro a t' hx
    refine ⟨?_, by simp⟩
    rintro u rfl
    cases hx
    exact ⟨fun _ _ => rfl, by simp⟩
  intro _ t ht
  refine Proc.Follows.bind (P := fun v u => Covers L v u) ?_ ?_
  · exact along_schemaVersion ht (fun v u _ _ hcov => ⟨fun a h => by cases h; exact hcov, by simp⟩)
      fun e u => ⟨by simp, by simp⟩
  intro v u hcov
  rw [r.loads]
  refine Proc.Follows.bind (P := fun ms u => ms = L.history.take r.upTo ∧ Covers L v u) ?_ ?_
  · exact ⟨fun a h => by cases h; exact ⟨rfl, hcov⟩, by simp⟩
  rintro ms u ⟨rfl, hcov⟩
  exact along_applyNewer r.within rfl (Nat.zero_le _) hcov

/-! ## Every run -/

abbrev MigratePool (σ : Type) (L : Lineage) : Type := Pool (Base σ) (Release L) MigrateCmd.Answer MigrateError Unit

abbrev MigrateStep (script : String → σ → Except String σ) :
    MigratePool σ L → Await.Event (Release L) MigrateCmd.Answer MigrateError → MigratePool σ L → Prop :=
  Step (MigrateExec script) fun r => migrate r.files

/-- Any number of runs of `Migrate`, of any releases, over a database that was fresh once. -/
def Migrated (script : String → σ → Except String σ) (first : σ) (w : MigratePool σ L) : Prop :=
  Lts.Reachable (· = ⟨⟨none, first⟩, fun _ => none⟩) (MigrateStep script) w

theorem migrated_level {first : σ} {w : MigratePool σ L} (h : Migrated script first w) :
    Level script L first w.shared ∧ ∀ i r p, w.task i = some (r, p) →
      Along script L first (fun a t => a = .ok () → r.upTo ≤ t.recorded.length) p w.shared := by
  obtain ⟨s, es, rfl, hr⟩ := h
  refine run_follows onward_refl onward_trans ?_ (fun s c r s' => exec_level)
    (fun r s _ => along_migrate r s) hr ?_ ?_
  · exact fun r a s t hs hst ha => Nat.le_trans (hs ha) hst.length
  · exact ⟨0, Nat.zero_le _, rfl, rfl⟩
  · intro i j p ht
    cases ht

/-- The migrations recorded are always the first so many of all that were ever published, each applied once and in
order, and a run that ends without an error has left none of its release out. -/
theorem migrate_in_order {first : σ} {w : MigratePool σ L} (h : Migrated script first w) :
    (∃ k ≤ L.history.length, w.shared.recorded = (L.history.take k).map Migration.tag ∧
      (L.history.take k).foldlM (fun schema m => script m.sql schema) first = .ok w.shared.schema) ∧
    ∀ i r, w.task i = some (r, .done (.ok ())) →
      ∀ m ∈ L.history.take r.upTo, m.tag ∈ w.shared.recorded := by
  obtain ⟨⟨k, hk⟩, hw⟩ := migrated_level h
  refine ⟨⟨k, hk.1, hk.2.1, hk.2.2⟩, fun i r ht m hm => ?_⟩
  have hle : r.upTo ≤ k := hk.length ▸ hw i r _ ht rfl
  rw [hk.2.1]
  exact List.mem_map_of_mem (List.take_subset_take_left _ hle hm)

/-! ## A run left alone -/

/-- No statement fails but one that SQLite refuses. -/
def healthy (script : String → σ → Except String σ) (s : Base σ) :
    (c : MigrateCmd) → Except MigrateError c.Answer × Base σ
  | .createTable => (.ok (), { s with migrations := some (s.migrations.getD ∅) })
  | .countTable => (.ok (if s.migrations.isSome then 1 else 0), s)
  | .maxVersion =>
    if s.migrations.isSome then (.ok s.maxVersion, s)
      else (.error (.database "no such table: schema_migrations"), s)
  | .applyMigration m =>
    match (applyTx script m).exec s with
    | .ok (_, s') => (.ok (), s')
    | .error e => (.error e, s)

theorem healthy_exec (s : Base σ) (c : MigrateCmd) :
    MigrateExec script s c (healthy script s c).1 (healthy script s c).2 := by
  cases c with
  | createTable => exact .created
  | countTable => exact .counted
  | maxVersion =>
    by_cases h : s.migrations.isSome = true
    · simp only [healthy, if_pos h]
      exact .read h
    · simp only [healthy, if_neg h]
      exact .missing (Option.not_isSome_iff_eq_none.mp h)
  | applyMigration m =>
    cases h : (applyTx script m).exec s with
    | ok r =>
      simp only [healthy, h]
      exact .applied h
    | error e =>
      simp only [healthy, h]
      exact .refused h

theorem applyTx_next {first final : σ} {i n : Nat} {m : Migration} {s : Base σ} (h : UpTo script L first i s)
    (hs : s.migrations.isSome = true) (hi : L.history[i]? = some m) (hin : i < n)
    (hf : (L.history.take n).foldlM (fun schema m => script m.sql schema) first = .ok final) :
    ∃ s', (applyTx script m).exec s = .ok ((), s') := by
  obtain ⟨hl, rfl⟩ := List.getElem?_eq_some_iff.mp hi
  obtain ⟨schema, hscript⟩ : ∃ schema, script L.history[i].sql s.schema = .ok schema := by
    have hsplit : L.history.take n = L.history.take i ++ L.history[i] :: (L.history.take n).drop (i + 1) := by
      have hl' : i < (L.history.take n).length := by
        rw [List.length_take]
        exact Nat.lt_min.mpr ⟨hin, hl⟩
      have := List.take_append_drop i (L.history.take n)
      rw [List.take_take, Nat.min_eq_left (Nat.le_of_lt hin), List.drop_eq_getElem_cons hl',
        List.getElem_take] at this
      exact this.symm
    rw [hsplit, List.foldlM_append, h.2.2] at hf
    change (script L.history[i].sql s.schema >>= fun schema => _) = _ at hf
    cases hx : script L.history[i].sql s.schema with
    | error e =>
      rw [hx] at hf
      cases hf
    | ok schema => exact ⟨schema, rfl⟩
  obtain ⟨t, ht⟩ := Option.isSome_iff_exists.mp hs
  have hrec : s.recorded = t.rows := by
    unfold Base.recorded
    rw [ht]
    rfl
  cases hins : t.insert? L.history[i].tag with
  | none =>
    obtain ⟨r, hr, hk⟩ := Table.get?_isSome.mp (Table.insert?_eq_none.mp hins)
    have hmem : r ∈ (L.history.take i).map Migration.tag := by
      rw [← h.2.1, hrec]
      exact hr
    obtain ⟨m', hm', rfl⟩ := List.mem_map.mp hmem
    obtain ⟨j, hj, rfl⟩ := List.mem_take_iff_getElem.mp hm'
    have hji := Nat.lt_min.mp hj
    have hlt := L.version_lt (List.getElem?_eq_getElem hji.2) hi hji.1
    exact absurd hk (Int.ne_of_lt hlt)
  | some t' =>
    refine ⟨⟨some t', schema⟩, ?_⟩
    unfold applyTx
    rw [Prog.exec_bind_ok]
    refine ⟨(), { s with schema }, ?_, ?_⟩
    · simp only [Prog.exec, hscript]
    · change t.insert? (L.history[i].version, L.history[i].name) = some t' at hins
      simp only [Prog.exec, ht, hins]

/-- `k` migrations were recorded when the version was read. -/
theorem solo_applyNewer {first final : σ} {current : Int} {k n : Nat} (hn : n ≤ L.history.length)
    (hf : (L.history.take n).foldlM (fun schema m => script m.sql schema) first = .ok final)
    (hcur : ∀ i m, L.history[i]? = some m → (m.version ≤ current ↔ i < k)) :
    ∀ {i : Nat} {ms : List Migration} {s : Base σ}, i ≤ n → ms = (L.history.take n).drop i →
      UpTo script L first (max k i) s → s.migrations.isSome = true →
      ((applyNewer current ms).solo (healthy script) s).1 = .ok () ∧
        UpTo script L first (max k n) ((applyNewer current ms).solo (healthy script) s).2 := by
  intro i ms
  induction ms generalizing i with
  | nil =>
    intro s hin hms hup _
    have hle : n = i := by
      have := congrArg List.length hms
      rw [List.length_drop, List.length_take, Nat.min_eq_left hn, List.length_nil] at this
      omega
    subst hle
    exact ⟨rfl, hup⟩
  | cons m ms ih =>
    intro s hin hms hup hs
    have hlt : i < (L.history.take n).length := by
      by_contra hge
      rw [List.drop_of_length_le (Nat.le_of_not_lt hge)] at hms
      cases hms
    rw [List.drop_eq_getElem_cons hlt] at hms
    obtain ⟨hm, hrest⟩ := List.cons.inj hms
    have hlt' : i < n ∧ i < L.history.length := by
      rw [List.length_take] at hlt
      exact Nat.lt_min.mp hlt
    have hget : L.history[i]? = some m := by
      rw [hm, List.getElem_take]
      exact List.getElem?_eq_getElem hlt'.2
    unfold applyNewer
    by_cases hv : m.version ≤ current
    · rw [if_pos hv]
      have hik := (hcur i m hget).mp hv
      refine ih hlt'.1 hrest ?_ hs
      rwa [Nat.max_eq_left (Nat.succ_le_of_lt hik), ← Nat.max_eq_left (Nat.le_of_lt hik)]
    · rw [if_neg hv]
      have hki : k ≤ i := Nat.le_of_not_lt fun h => hv ((hcur i m hget).mpr h)
      rw [Nat.max_eq_right hki] at hup
      obtain ⟨s', hx⟩ := applyTx_next hup hs hget hlt'.1 hf
      have hstep : healthy script s (.applyMigration m) = (.ok (), s') := by
        simp only [healthy, hx]
      have hturn : InTurn L s (.applyMigration m) := ⟨i, hget, Nat.le_of_eq hup.length.symm⟩
      have hup' := upTo_applied hup hturn hx
      have hs' : s'.migrations.isSome = true := by
        obtain ⟨_, t', _, -, -, -, rfl⟩ := applyTx_ok hx
        rfl
      have hgo := ih hlt'.1 hrest (s := s') (by rwa [Nat.max_eq_right (Nat.le_succ_of_le hki)]) hs'
      rw [solo_bind, solo_perform, hstep]
      exact hgo

/-- The highest recorded version is above exactly the migrations that are recorded. -/
theorem maxVersion_iff {first : σ} {k i : Nat} {m : Migration} {s : Base σ} (h : UpTo script L first k s)
    (hi : L.history[i]? = some m) : m.version ≤ s.maxVersion.getD 0 ↔ i < k := by
  constructor
  · intro hv
    exact h.length ▸ covers_maxVersion ⟨k, h⟩ i m hi hv
  · intro hik
    have hmem : m.version ∈ s.recorded.map Prod.fst := by
      rw [h.2.1, List.map_map]
      obtain ⟨hl, rfl⟩ := List.getElem?_eq_some_iff.mp hi
      exact List.mem_map.mpr
        ⟨L.history[i], List.mem_take_iff_getElem.mpr ⟨i, Nat.lt_min.mpr ⟨hik, hl⟩, rfl⟩, rfl⟩
    cases hmax : s.maxVersion with
    | none =>
      unfold Base.maxVersion at hmax
      rw [List.max?_eq_none_iff] at hmax
      rw [hmax] at hmem
      cases hmem
    | some v => exact (List.max?_eq_some_iff.mp hmax).2 _ hmem

theorem solo_migrate {first final : σ} {k : Nat} (r : Release L) {s : Base σ} (h : UpTo script L first k s)
    (hf : (L.history.take r.upTo).foldlM (fun schema m => script m.sql schema) first = .ok final) :
    ((migrate r.files).solo (healthy script) s).1 = .ok () ∧
      UpTo script L first (max k r.upTo) ((migrate r.files).solo (healthy script) s).2 := by
  have hup : UpTo script L first k ⟨some (s.migrations.getD ∅), s.schema⟩ :=
    ⟨h.1, s.recorded_create.trans h.2.1, h.2.2⟩
  have hgo := solo_applyNewer r.within hf (fun i m hi => maxVersion_iff hup hi)
    (Nat.zero_le _) rfl (by rwa [Nat.max_eq_left (Nat.zero_le k)]) rfl
  have hsolo : (migrate r.files).solo (healthy script) s =
      (applyNewer ((⟨some (s.migrations.getD ∅), s.schema⟩ : Base σ).maxVersion.getD 0)
        (L.history.take r.upTo)).solo
        (healthy script) ⟨some (s.migrations.getD ∅), s.schema⟩ := by
    unfold migrate
    rw [r.loads]
    rfl
  rw [hsolo]
  exact hgo

/-- The run of `r` that starts as `i` in `w`, where nothing else runs and no statement fails but one that SQLite
refuses. -/
def Alone (script : String → σ → Except String σ) (r : Release L) (i : Nat) (w : MigratePool σ L)
    (es : List (Await.Event (Release L) MigrateCmd.Answer MigrateError)) (w' : MigratePool σ L) : Prop :=
  Sole (healthy script) i ⟨w.shared, Function.update w.task i (some (r, migrate r.files))⟩ es w'

theorem Alone.run {r : Release L} {i : Nat} {w w' : MigratePool σ L}
    {es : List (Await.Event (Release L) MigrateCmd.Answer MigrateError)} (h : Alone script r i w es w')
    (hi : w.task i = none) : Lts.Run (MigrateStep script) w (.start i r :: es) w' :=
  .cons (.start r hi) (Sole.run healthy_exec h)

/-- Whatever was cut off before, a run of `Migrate` with nothing in its way comes to its end, and then the database
is up to its release. -/
theorem migrate_completes {first final : σ} {w : MigratePool σ L} (h : Migrated script first w) (r : Release L)
    (hf : (L.history.take r.upTo).foldlM (fun schema m => script m.sql schema) first = .ok final) {i : Nat}
    (hi : w.task i = none) :
    (∃ es w' a, Alone script r i w es w' ∧ w'.task i = some (r, .done a)) ∧
      ∀ es w' a, Alone script r i w es w' → w'.task i = some (r, .done a) →
        Lts.Run (MigrateStep script) w (.start i r :: es) w' ∧ a = .ok () ∧
          w'.shared.recorded = (L.history.take (max w.shared.recorded.length r.upTo)).map Migration.tag := by
  obtain ⟨⟨k, hk⟩, -⟩ := migrated_level h
  obtain ⟨hok, hup⟩ := solo_migrate r hk hf
  have ht : Function.update w.task i (some (r, migrate r.files)) i = some (r, migrate r.files) :=
    Function.update_self ..
  refine ⟨sole_ends ht, fun es w' a halone hd => ⟨halone.run hi, ?_, ?_⟩⟩
  · exact (congrArg Prod.fst (Sole.ends halone ht hd)).symm.trans hok
  · have hshared : ((migrate r.files).solo (healthy script) w.shared).2 = w'.shared :=
      congrArg Prod.snd (Sole.ends halone ht hd)
    rw [← hshared, hk.length]
    exact hup.2.1

end

/-! ## The first two releases -/

def published : Lineage where
  history := [⟨1, "0001_init.sql", "init"⟩, ⟨2, "0002_vault.sql", "vault"⟩]
  increasing := by decide
  positive := by decide

/-- The directory need not be in the order of the versions. -/
def secondRelease : Release published where
  files := [("0002_vault.sql", "vault"), ("0001_init.sql", "init")]
  upTo := 2
  within := by decide
  loads := by decide +kernel

def runScript (sql : String) (done : List String) : Except String (List String) := .ok (done ++ [sql])

theorem secondRelease_program : migrate secondRelease.files = (do
    wrapping .createTable (.perform MigrateCmd.createTable)
    let current ← schemaVersion
    applyNewer current published.history) := by
  unfold migrate
  rw [secondRelease.loads]
  rfl

/-! Two runs of the second release overlap. The one that comes second with a migration is refused, and the other may
fail at the next. -/

section

abbrev Course : Type := Migrating Unit

def overlapping (p q : Course) : Nat → Option (Release published × Course)
  | 0 => some (secondRelease, p)
  | 1 => some (secondRelease, q)
  | _ => none

variable {s s' : Base (List String)} {p q : Course} {c : MigrateCmd} {k : Except MigrateError c.Answer → Course}
  {r : Except MigrateError c.Answer} {es : List (Await.Event (Release published) MigrateCmd.Answer MigrateError)}
  {w : MigratePool (List String) published}

theorem run_first (hx : MigrateExec runScript s c r s')
    (h : Lts.Run (MigrateStep runScript) ⟨s', overlapping (k r) q⟩ es w) :
    Lts.Run (MigrateStep runScript) ⟨s, overlapping (.await c k) q⟩ (.answer 0 c r :: es) w := by
  have hupdate : Function.update (overlapping (.await c k) q) 0 (some (secondRelease, k r)) =
    overlapping (k r) q := by
    funext i
    match i with
    | 0 | 1 | _ + 2 => rfl
  refine .cons (.answer (j := secondRelease) (k := k) rfl hx) ?_
  change Lts.Run _ ⟨s', Function.update (overlapping (.await c k) q) 0 (some (secondRelease, k r))⟩ es w
  rwa [hupdate]

theorem run_second (hx : MigrateExec runScript s c r s')
    (h : Lts.Run (MigrateStep runScript) ⟨s', overlapping p (k r)⟩ es w) :
    Lts.Run (MigrateStep runScript) ⟨s, overlapping p (.await c k)⟩ (.answer 1 c r :: es) w := by
  have hupdate : Function.update (overlapping p (.await c k)) 1 (some (secondRelease, k r)) =
    overlapping p (k r) := by
    funext i
    match i with
    | 0 | 1 | _ + 2 => rfl
  refine .cons (.answer (j := secondRelease) (k := k) rfl hx) ?_
  change Lts.Run _ ⟨s', Function.update (overlapping p (.await c k)) 1 (some (secondRelease, k r))⟩ es w
  rwa [hupdate]

end

def initApplied : Base (List String) := ⟨some ⟨[(1, "0001_init.sql")], by decide⟩, ["init"]⟩

def refusal : MigrateError := .record "0001_init.sql" "UNIQUE constraint failed: schema_migrations.version"

/-- What is left of the run that is not refused. -/
def vaultLeft : Course := do
  .perform (MigrateCmd.applyMigration ⟨2, "0002_vault.sql", "vault"⟩)
  pure ()

theorem overlapping_refused : Migrated runScript []
    (⟨initApplied, overlapping vaultLeft (.done (.error refusal))⟩ : MigratePool (List String) published) := by
  have hstarted : Function.update (Function.update (fun _ : Nat => (none : Option (Release published × Course))) 0
      (some (secondRelease, migrate secondRelease.files))) 1 (some (secondRelease, migrate secondRelease.files)) =
        overlapping (migrate secondRelease.files) (migrate secondRelease.files) := by
    funext i
    match i with
    | 0 | 1 | _ + 2 => rfl
  have hinit : (applyTx runScript ⟨1, "0001_init.sql", "init"⟩).exec (⟨some ∅, []⟩ : Base (List String)) =
      .ok ((), initApplied) := rfl
  have hagain : (applyTx runScript ⟨1, "0001_init.sql", "init"⟩).exec initApplied = .error refusal := by
    rfl
  obtain ⟨es, hr⟩ : ∃ es, Lts.Run (MigrateStep runScript)
      ⟨⟨none, []⟩, overlapping (migrate secondRelease.files) (migrate secondRelease.files)⟩ es
      ⟨initApplied, overlapping vaultLeft (.done (.error refusal))⟩ := by
    rw [secondRelease_program]
    exact ⟨_, run_first .created <| run_second .created <| run_first .counted <| run_second .counted <|
      run_first (.read rfl) <| run_second (.read rfl) <| run_first (.applied hinit) <|
      run_second (.refused hagain) <| .nil _⟩
  rw [← hstarted] at hr
  exact ⟨⟨⟨none, []⟩, fun _ => none⟩, _, rfl,
    .cons (.start secondRelease rfl) (.cons (.start secondRelease rfl) hr)⟩

/-- The run that is not refused comes to its end. -/
theorem migrate_in_order_second : ∃ w : MigratePool (List String) published, Migrated runScript [] w ∧
    w.task 1 = some (secondRelease, .done (.error refusal)) ∧ w.shared.schema = ["init", "vault"] ∧
    ∀ m ∈ published.history.take 2, m.tag ∈ w.shared.recorded := by
  obtain ⟨w₀, es, h₀, hr⟩ := overlapping_refused
  have hvault : (applyTx runScript ⟨2, "0002_vault.sql", "vault"⟩).exec initApplied =
      .ok ((), ⟨some ⟨[(1, "0001_init.sql"), (2, "0002_vault.sql")], by decide⟩, ["init", "vault"]⟩) := rfl
  have hm : Migrated runScript [] _ := ⟨w₀, _, h₀, hr.append (run_first (.applied hvault) (.nil _))⟩
  exact ⟨_, hm, rfl, rfl, (migrate_in_order hm).2 0 secondRelease rfl⟩

/-- It fails as well, and a third run completes what the two have left. -/
theorem migrate_completes_second : ∃ (es : List (Await.Event (Release published) MigrateCmd.Answer MigrateError))
    (w w' : MigratePool (List String) published), Migrated runScript [] w ∧
    w.shared.schema = ["init"] ∧ w.task 0 = some (secondRelease, .done (.error (.begin 2 "disk I/O error"))) ∧
    w.task 1 = some (secondRelease, .done (.error refusal)) ∧
    Lts.Run (MigrateStep runScript) w (.start 2 secondRelease :: es) w' ∧
    w'.task 2 = some (secondRelease, .done (.ok ())) ∧
    w'.shared.recorded = [(1, "0001_init.sql"), (2, "0002_vault.sql")] := by
  obtain ⟨w₀, fs, h₀, hr⟩ := overlapping_refused
  have hm : Migrated runScript [] _ :=
    ⟨w₀, _, h₀, hr.append (run_first (.failed (.begin 2 "disk I/O error")) (.nil _))⟩
  have hrun : (published.history.take secondRelease.upTo).foldlM (fun schema m => runScript m.sql schema) [] =
      .ok ["init", "vault"] := rfl
  obtain ⟨⟨es, w', a, halone, hd⟩, hends⟩ := migrate_completes hm secondRelease hrun (i := 2) rfl
  obtain ⟨hr', rfl, hrecorded⟩ := hends es w' a halone hd
  exact ⟨es, _, w', hm, rfl, rfl, rfl, hr', hd, hrecorded⟩

end Keyhole.Store
