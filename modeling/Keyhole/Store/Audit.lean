import Mathlib.Data.Prod.Lex
import Mathlib.Data.String.Basic
import Keyhole.Lib.Keyset
import Keyhole.Store.Schema

/-!
# Reading the audit log

Timestamps are texts of one width in the file, and compare as the instants
they name.
-/

namespace Keyhole.Store
open Sql

def hexDigit (n : UInt8) : Char :=
  if n < 10 then Char.ofNat ('0'.toNat + n.toNat) else Char.ofNat ('a'.toNat + n.toNat - 10)

def encodeToString (buf : List UInt8) : String :=
  String.ofList (buf.flatMap fun b => [hexDigit (b / 16), hexDigit (b % 16)])

def newID (buf : Fin 16 → UInt8) : Id := encodeToString (List.ofFn buf)

theorem newID_ne_empty (buf : Fin 16 → UInt8) : newID buf ≠ "" := by
  intro h
  have := congrArg String.toList h
  simp [newID, encodeToString, List.ofFn_succ] at this

def defaultAuditPage : Int := 50

def maxAuditPage : Int := 200

def AuditEntry.key (e : AuditEntry) : Time ×ₗ Id := toLex (e.createdAt, e.id)

/-- The row values of two entries, compared as SQL compares them. -/
def AuditEntry.before (e last : AuditEntry) : Bool :=
  e.createdAt < last.createdAt || (e.createdAt = last.createdAt && e.id < last.id)

def auditPage (limit : Int) (beforeID : Id) (db : Db) : List AuditEntry :=
  let limit := if limit ≤ 0 then defaultAuditPage else limit
  let limit := if maxAuditPage < limit then maxAuditPage else limit
  let rows :=
    if beforeID = "" then db.auditLog.rows
    else
      match db.auditLog.get? beforeID with
      | none => []
      | some last => db.auditLog.filter fun e => e.before last
  (rows.insertionSort fun e e' => e.before e' = false).take limit.toNat

/-- What a reader is given who passes each page's last id on, until a page comes
back empty. A call is its limit and the database it finds. -/
def auditWalk : List (Int × Db) → Id → List (List AuditEntry)
  | [], _ => []
  | (limit, db) :: calls, beforeID =>
    auditPage limit beforeID db ::
      match (auditPage limit beforeID db).getLast? with
      | none => []
      | some last => auditWalk calls last.id

/-! ## Pages by key -/

theorem before_iff {e last : AuditEntry} : e.before last = true ↔ e.key < last.key := by
  unfold AuditEntry.before AuditEntry.key
  simp only [Bool.or_eq_true, Bool.and_eq_true, decide_eq_true_eq, Prod.Lex.toLex_lt_toLex]

theorem before_eq_false {e last : AuditEntry} : e.before last = false ↔ last.key ≤ e.key := by
  rw [← Bool.not_eq_true, before_iff, not_lt]

def pageLimit (limit : Int) : Nat :=
  (if maxAuditPage < (if limit ≤ 0 then defaultAuditPage else limit) then maxAuditPage
    else (if limit ≤ 0 then defaultAuditPage else limit)).toNat

theorem pageLimit_pos (limit : Int) : 0 < pageLimit limit := by
  unfold pageLimit maxAuditPage defaultAuditPage
  split_ifs <;> omega

theorem auditPage_first (limit : Int) (db : Db) :
    auditPage limit "" db = Keyset.page AuditEntry.key (pageLimit limit) none db.auditLog.rows := by
  unfold auditPage Keyset.page pageLimit
  simp only [if_true, before_eq_false, Option.all_none, List.filter_true]

theorem auditPage_next (limit : Int) {db : Db} {last : AuditEntry} (hlast : last ∈ db.auditLog)
    (hid : last.id ≠ "") :
    auditPage limit last.id db = Keyset.page AuditEntry.key (pageLimit limit) (some last.key) db.auditLog.rows := by
  unfold auditPage Keyset.page pageLimit
  have hfilter : (db.auditLog.filter fun e => e.before last) =
      db.auditLog.rows.filter fun e => (some last.key).all (e.key < ·) := by
    unfold Table.filter
    congr 1
    funext e
    rw [Option.all_some, Bool.eq_iff_iff, before_iff, decide_eq_true_eq]
  simp only [if_neg hid, Table.get?_eq_some.mpr ⟨hlast, rfl⟩, before_eq_false, hfilter]

def keysetCalls (calls : List (Int × Db)) : List (Nat × List AuditEntry) :=
  calls.map fun c => (pageLimit c.1, c.2.auditLog.rows)

/-- Every call finds what the calls before it found, under an identifier that `NewID` made. -/
structure Appended (calls : List (Int × Db)) : Prop where
  kept : calls.Pairwise fun c d => c.2.auditLog.rows <+: d.2.auditLog.rows
  ids : ∀ c ∈ calls, ∀ e ∈ c.2.auditLog, ∃ buf, e.id = newID buf

theorem Appended.tail {c : Int × Db} {calls : List (Int × Db)} (h : Appended (c :: calls)) : Appended calls :=
  ⟨(List.pairwise_cons.mp h.kept).2, fun d hd => h.ids d (List.mem_cons_of_mem c hd)⟩

theorem Appended.mem {c : Int × Db} {calls : List (Int × Db)} (h : Appended (c :: calls)) {e : AuditEntry}
    (he : e ∈ c.2.auditLog) : ∀ d ∈ calls, e ∈ d.2.auditLog :=
  fun d hd => ((List.pairwise_cons.mp h.kept).1 d hd).subset he

theorem appendAudit_appends {id : Id} {now : Time} {actor action target : String} {md : List (String × String)}
    {db db' : Db} {u : Unit} (h : (appendAudit id now actor action target md).exec db = .ok (u, db')) :
    ∃ e : AuditEntry, e.id = id ∧ e.createdAt = stamp now ∧ db'.auditLog.rows = db.auditLog.rows ++ [e] := by
  obtain ⟨auditLog, hi, -, rfl⟩ := insertAudit_ok (exec_sql_ok.mp h)
  exact ⟨_, rfl, rfl, Table.insert?_rows hi⟩

theorem auditWalk_next {calls : List (Int × Db)} (h : Appended calls) {last : AuditEntry}
    (hlast : ∀ c ∈ calls, last ∈ c.2.auditLog) :
    auditWalk calls last.id = Keyset.walk AuditEntry.key (keysetCalls calls) (some last.key) := by
  induction calls generalizing last with
  | nil => rfl
  | cons c calls ih =>
    have hmem : last ∈ c.2.auditLog := hlast c List.mem_cons_self
    obtain ⟨buf, hbuf⟩ := h.ids c List.mem_cons_self last hmem
    have hpage := auditPage_next c.1 hmem (hbuf ▸ newID_ne_empty buf)
    unfold auditWalk keysetCalls
    rw [List.map_cons, Keyset.walk, hpage]
    congr 1
    cases hl : (Keyset.page AuditEntry.key (pageLimit c.1) (some last.key) c.2.auditLog.rows).getLast? with
    | none => rfl
    | some next => exact ih h.tail (h.mem (Keyset.mem_of_mem_page (List.mem_of_getLast? hl)).1)

theorem auditWalk_first {calls : List (Int × Db)} (h : Appended calls) :
    auditWalk calls "" = Keyset.walk AuditEntry.key (keysetCalls calls) none := by
  cases calls with
  | nil => rfl
  | cons c calls =>
    unfold auditWalk keysetCalls
    rw [List.map_cons, Keyset.walk, auditPage_first]
    congr 1
    cases hl : (Keyset.page AuditEntry.key (pageLimit c.1) none c.2.auditLog.rows).getLast? with
    | none => rfl
    | some next => exact auditWalk_next h.tail (h.mem (Keyset.mem_of_mem_page (List.mem_of_getLast? hl)).1)

theorem nodup_keys (calls : List (Int × Db)) : ∀ c ∈ keysetCalls calls, (c.2.map AuditEntry.key).Nodup := by
  intro c hc
  obtain ⟨d, -, rfl⟩ := List.mem_map.mp hc
  have : (d.2.auditLog.rows.map AuditEntry.id).Nodup := d.2.auditLog.nodup
  refine List.Nodup.of_map (fun k : Time ×ₗ Id => (ofLex k).2) ?_
  rw [List.map_map]
  exact this

/-- Whatever is appended between the calls, the pages are in order and without
repetition, the last of them is reached, and they hold every entry of the first call. -/
theorem auditWalk_complete {calls : List (Int × Db)} (h : Appended calls) :
    (auditWalk calls "").flatten.Pairwise (fun e e' => e'.before e = true) ∧
    ([] ∈ auditWalk calls "" →
      ∀ first ∈ calls.head?, ∀ e ∈ first.2.auditLog, (auditWalk calls "").flatten.count e = 1) ∧
    ∀ last ∈ calls.getLast?, last.2.auditLog.rows.length < calls.length → [] ∈ auditWalk calls "" := by
  rw [auditWalk_first h]
  have hdesc := Keyset.walk_desc (nodup_keys calls) none
  have hnodup : (Keyset.walk AuditEntry.key (keysetCalls calls) none).flatten.Nodup := by
    refine hdesc.imp ?_
    rintro e e' hlt rfl
    exact lt_irrefl _ hlt
  refine ⟨hdesc.imp before_iff.mpr, fun hend first hfirst e he => ?_, fun last hlast hlen => ?_⟩
  · obtain ⟨rest, rfl⟩ := List.head?_eq_some_iff.mp hfirst
    have hall : ∀ c ∈ keysetCalls (first :: rest), e ∈ c.2 := by
      intro c hc
      obtain ⟨d, hd, rfl⟩ := List.mem_map.mp hc
      rcases List.mem_cons.mp hd with rfl | hd
      · exact he
      · exact h.mem he d hd
    have hpos : ∀ c ∈ keysetCalls (first :: rest), 0 < c.1 := by
      intro c hc
      obtain ⟨d, -, rfl⟩ := List.mem_map.mp hc
      exact pageLimit_pos d.1
    exact List.count_eq_one_of_mem hnodup
      (Keyset.walk_complete (nodup_keys _) hpos hall hend fun _ hk => nomatch hk)
  · obtain ⟨init, rfl⟩ := List.getLast?_eq_some_iff.mp hlast
    refine Keyset.walk_ends (nodup_keys _) last.2.auditLog.rows ?_ (by simpa [keysetCalls] using hlen) none
    intro c hc
    obtain ⟨d, hd, rfl⟩ := List.mem_map.mp hc
    rcases List.mem_append.mp hd with hd | hd
    · exact ((List.pairwise_append.mp h.kept).2.2 d hd last (by simp)).subset
    · rw [List.mem_singleton.mp hd]
      exact fun e he => he

def resetAt (n : UInt8) (second : Time) : AuditEntry := ⟨newID fun _ => n, none, "user.reset", "user:u", [], second⟩

def logOf (rows : List AuditEntry) (hn : (rows.map AuditEntry.id).Nodup) : Db :=
  { Db.fresh with auditLog := ⟨rows, hn⟩ }

/-- Two entries of one second, a page boundary between them, and a third appended meanwhile. -/
theorem auditWalk_complete_tie :
    let first := logOf [resetAt 7 0, resetAt 9 0] (by decide)
    let later := logOf [resetAt 7 0, resetAt 9 0, resetAt 8 0] (by decide)
    (auditWalk [(1, first), (1, later), (-3, later), (500, later)] "").flatten.count (resetAt 7 0) = 1 := by
  intro first later
  refine (@auditWalk_complete [(1, first), (1, later), (-3, later), (500, later)] ⟨by decide, ?_⟩).2.1
    (by decide) (1, first) rfl (resetAt 7 0) (by decide)
  intro c hc e he
  have : e ∈ later.auditLog := by
    simp only [List.mem_cons, List.not_mem_nil, or_false] at hc
    rcases hc with rfl | rfl | rfl | rfl
    · exact List.mem_append_left [resetAt 8 0] he
    all_goals exact he
  have : e ∈ [resetAt 7 0, resetAt 9 0, resetAt 8 0] := this
  rw [List.mem_cons, List.mem_cons, List.mem_singleton] at this
  rcases this with rfl | rfl | rfl
  all_goals exact ⟨_, rfl⟩

end Keyhole.Store
