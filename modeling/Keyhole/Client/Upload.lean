import Keyhole.Client.Session
import Keyhole.Vault.Sealing
import Mathlib.Data.List.Nodup

/-!
# What an upload says of itself

`uploadItems` with every answer a request can get, from the server or from
somebody in between, and what each chunk came to at the server, which commits
a chunk whole or not at all.
-/

namespace Keyhole.Client.Upload
open Sql Store Http Vault

/-! ## One request -/

/-- What `response.text()` and `JSON.parse` make of a body. `code` is its `error.code`, and its `error.message` is
`printable` unless it is an object, or has one in an array, that hides `toString`. -/
inductive ResponseBody
  | unreadable
  | empty
  | json (code : Option String) (printable : Bool)
  | notJson
  deriving DecidableEq, Repr

structure Answer where
  status : Nat
  lengthZero : Bool
  body : ResponseBody
  deriving DecidableEq, Repr

/-- One `fetch`: what it resolves to, `none` where it rejects, and whether the
chunk it carried was committed. -/
structure Fetch where
  answer : Option Answer
  written : Bool
  deriving DecidableEq, Repr

/-- One `post`: after a 401, `refreshed` is what `onUnauthorized` resolves to. -/
structure Exchange where
  first : Fetch
  refreshed : Bool
  second : Fetch
  deriving DecidableEq, Repr

/-- What `uploadItems` can report. `body` is the error of `response.text()`, and `message` that of
`new Error(message)` when the message cannot be made a string. -/
inductive UploadError
  | api (code : String) (status : Nat)
  | network
  | body
  | message
  | noKey
  deriving DecidableEq, Repr

def KNOWN_CODES : List String :=
  ["bad_request", "unauthorized", "forbidden", "not_found", "conflict", "rate_limited", "internal"]

def toApiError (status : Nat) (code : Option String) (printable : Bool) : UploadError :=
  if printable then .api ((code.filter (· ∈ KNOWN_CODES)).getD "internal") status else .message

def Answer.ok (a : Answer) : Bool := 200 ≤ a.status && a.status ≤ 299

def Exchange.retried (x : Exchange) : Bool := x.first.answer.any (·.status = 401) && x.refreshed

def Exchange.last (x : Exchange) : Fetch := if x.retried then x.second else x.first

def Exchange.commits (x : Exchange) : Nat :=
  x.first.written.toNat + if x.retried then x.second.written.toNat else 0

def Answer.parsed (a : Answer) : Except UploadError Unit :=
  if a.status = 204 || a.lengthZero then .ok ()
  else match a.body with
    | .unreadable => .error .body
    | .empty => if a.ok then .ok () else .error (toApiError a.status none true)
    | .json code printable => if a.ok then .ok () else .error (toApiError a.status code printable)
    | .notJson => if a.ok then .error (.api "internal" a.status) else .error (toApiError a.status none true)

def request (x : Exchange) : Except UploadError Unit :=
  match x.last.answer with
  | none => .error .network
  | some a => a.parsed

def definitelyNotWritten : UploadError → Bool
  | .api _ status => status < 500
  | _ => false

/-! ## The upload -/

/-- `position` is a ghost: which of the items the entry seals. -/
structure Entry where
  position : Nat
  request : ItemRequest
  deriving DecidableEq, Repr

structure UploadOutcome where
  uploaded : Nat
  total : Nat
  inDoubt : Nat
  error : Option UploadError
  deriving DecidableEq, Repr

/-- The variables of `uploadItems`; `sent` counts its requests, and `server` is
what they committed. -/
structure Progress where
  uploaded : Nat
  chunk : List Entry
  chunkBytes : Nat
  sent : Nat
  server : List Entry

section
variable (wire : Nat → Exchange)

def send (p : Progress) : Option UploadError × Progress :=
  let x := wire p.sent
  let p := { p with sent := p.sent + 1, server := p.server ++ (List.replicate x.commits p.chunk).flatten }
  match request x with
  | .error e => (some e, p)
  | .ok () => (none, { p with uploaded := p.uploaded + p.chunk.length, chunk := [], chunkBytes := 0 })

def failure (total : Nat) (p : Progress) (error : UploadError) (attempted : Nat) : UploadOutcome where
  uploaded := p.uploaded
  total := total
  inDoubt := if definitelyNotWritten error then 0 else attempted
  error := some error

def finished (total : Nat) (p : Progress) : UploadOutcome where
  uploaded := p.uploaded
  total := total
  inDoubt := 0
  error := none

def Progress.push (p : Progress) (entry : Entry) : Progress :=
  { p with chunk := p.chunk ++ [entry], chunkBytes := p.chunkBytes + entryBytes entry.request }

def loop (total : Nat) : List Entry → Progress → UploadOutcome × Progress
  | [], p =>
    if p.chunk ≠ [] then
      match send wire p with
      | (some e, p') => (failure total p' e p.chunk.length, p')
      | (none, p') => (finished total p', p')
    else (finished total p, p)
  | entry :: rest, p =>
    if p.chunk ≠ [] ∧
        (p.chunk.length ≥ MAX_ITEMS_PER_REQUEST ∨ p.chunkBytes + entryBytes entry.request > BODY_BUDGET) then
      match send wire p with
      | (some e, p') => (failure total p' e p.chunk.length, p')
      | (none, p') => loop total rest (p'.push entry)
    else loop total rest (p.push entry)

end

section
variable {K P : Type} (C : Crypto K P) (draw : Nat → ItemDraw K) (held : Ref → Nat → K)

/-- The entries of the items: `held key i` is what the buffer of the key has in
it when item `i` is encrypted. -/
def entries (session : SessionBuffers) (items : List P) (collectionId : Option Id) : List Entry :=
  match session.parentKeyFor collectionId with
  | some (some key) =>
    items.zipIdx.map fun e => ⟨e.2, entryFor C (draw e.2) (held key e.2) collectionId 0 e.1⟩
  | _ => []

/-- `none` where it throws. -/
def uploadItems (wire : Nat → Exchange) (session : SessionBuffers) (items : List P) (collectionId : Option Id) :
    Option (UploadOutcome × List Entry) :=
  if items = [] then some (⟨0, 0, 0, none⟩, [])
  else match session.parentKeyFor collectionId with
    | none => none
    | some none => some (⟨0, items.length, 0, some .noKey⟩, [])
    | some (some _) =>
      let (outcome, p) := loop wire items.length (entries C draw held session items collectionId) ⟨0, [], 0, 0, []⟩
      some (outcome, p.server)

end

/-- The server holds the first `uploaded` of them and, of the next `inDoubt`, all or none. -/
def Account (entries : List Entry) (outcome : UploadOutcome) (server : List Entry) : Prop :=
  server = entries.take outcome.uploaded ∨ server = entries.take (outcome.uploaded + outcome.inDoubt)

/-! ## How an answer is read -/

/-- The client counts the chunk as uploaded. -/
def Answer.accepted (a : Answer) : Bool :=
  a.status = 204 || a.lengthZero || a.ok && (a.body = .empty || a.body matches .json _ _)

/-- No `ApiError` is made of an answer with this body. -/
def ResponseBody.throws : ResponseBody → Bool
  | .unreadable => true
  | .json _ printable => !printable
  | .empty | .notJson => false

/-- The client says that nothing of the chunk was written. -/
def Answer.declined (a : Answer) : Bool := !a.accepted && !a.body.throws && a.status < 500

def Exchange.accepted (x : Exchange) : Bool := x.last.answer.any Answer.accepted

def Exchange.declined (x : Exchange) : Bool := x.last.answer.any Answer.declined

/-- What the client takes for an answer is what became of the chunk. -/
structure Exchange.Honest (x : Exchange) : Prop where
  accepted : x.accepted = true → x.commits = 1
  declined : x.declined = true → x.commits = 0
  once : x.commits ≤ 1

instance (x : Exchange) : Decidable x.Honest :=
  decidable_of_iff ((x.accepted = true → x.commits = 1) ∧ (x.declined = true → x.commits = 0) ∧ x.commits ≤ 1)
    ⟨fun h => ⟨h.1, h.2.1, h.2.2⟩, fun h => ⟨h.accepted, h.declined, h.once⟩⟩

theorem parsed_ok {a : Answer} : a.parsed = .ok () ↔ a.accepted = true := by
  unfold Answer.parsed Answer.accepted
  by_cases hempty : (a.status = 204 || a.lengthZero) = true
  · simp [hempty]
  · rw [if_neg hempty]
    rw [Bool.not_eq_true] at hempty
    rw [hempty]
    cases a.body <;> cases a.ok <;> simp

theorem parsed_error {a : Answer} {e : UploadError} (h : a.parsed = .error e) :
    definitelyNotWritten e = a.declined := by
  have hna : a.accepted = false := by
    rw [Bool.eq_false_iff, Ne, ← parsed_ok, h]
    exact nofun
  unfold Answer.declined
  rw [hna]
  unfold Answer.parsed at h
  split at h
  · cases h
  · cases hb : a.body with
    | unreadable =>
      simp only [hb] at h
      cases h
      rfl
    | json code printable =>
      simp only [hb] at h
      split at h
      · cases h
      · cases h
        cases printable <;> simp [definitelyNotWritten, toApiError, ResponseBody.throws]
    | empty | notJson =>
      simp only [hb] at h
      split at h <;> cases h <;> simp [definitelyNotWritten, toApiError, ResponseBody.throws]

theorem request_ok {x : Exchange} : request x = .ok () ↔ x.accepted = true := by
  unfold request Exchange.accepted
  cases x.last.answer with
  | none => simp
  | some a => exact parsed_ok

theorem request_error {x : Exchange} {e : UploadError} (h : request x = .error e) :
    definitelyNotWritten e = x.declined ∧ x.accepted = false := by
  refine ⟨?_, by rw [Bool.eq_false_iff, Ne, ← request_ok, h]; exact nofun⟩
  unfold request at h
  unfold Exchange.declined
  cases ha : x.last.answer with
  | none =>
    rw [ha] at h
    cases h
    rfl
  | some a =>
    rw [ha] at h
    exact parsed_error h

/-! ## Chunk by chunk -/

section
variable (wire : Nat → Exchange)

def sendAll (total : Nat) : List (List Entry) → (uploaded sent : Nat) → List Entry → UploadOutcome × List Entry
  | [], uploaded, _, server => (⟨uploaded, total, 0, none⟩, server)
  | chunk :: rest, uploaded, sent, server =>
    let server := server ++ (List.replicate (wire sent).commits chunk).flatten
    match request (wire sent) with
    | .error e => (⟨uploaded, total, if definitelyNotWritten e then 0 else chunk.length, some e⟩, server)
    | .ok () => sendAll total rest (uploaded + chunk.length) (sent + 1) server

theorem loop_sendAll (total : Nat) (rest : List Entry) (p : Progress) :
    ((loop wire total rest p).1, (loop wire total rest p).2.server) =
      sendAll wire total (chunks (fun entry => entryBytes entry.request) p.chunk p.chunkBytes rest)
        p.uploaded p.sent
        p.server := by
  induction rest generalizing p with
  | nil =>
    unfold loop chunks
    by_cases hc : p.chunk = []
    · rw [if_neg (not_not.mpr hc), if_pos hc]
      rfl
    · rw [if_pos hc, if_neg hc]
      simp only [sendAll, send]
      cases request (wire p.sent) with
      | error e => rfl
      | ok u => rfl
  | cons entry rest ih =>
    unfold loop chunks
    split
    · simp only [sendAll, send]
      cases request (wire p.sent) with
      | error e => rfl
      | ok u =>
        simp only
        rw [ih]
        simp [Progress.push]
    · rw [ih]
      rfl

end

theorem chunks_ne_nil {α : Type} (bytes : α → Nat) (chunk : List α) (chunkBytes : Nat) (rest : List α) :
    ∀ c ∈ chunks bytes chunk chunkBytes rest, c ≠ [] := by
  induction rest generalizing chunk chunkBytes with
  | nil =>
    unfold chunks
    split
    · exact fun c hc => absurd hc List.not_mem_nil
    · intro c hc
      rwa [List.mem_singleton.mp hc]
  | cons entry rest ih =>
    unfold chunks
    split
    · rename_i hclosed
      intro c hc
      rcases List.mem_cons.mp hc with rfl | hc
      · exact hclosed.1
      · exact ih _ _ c hc
    · exact ih _ _

/-! ## One chunk -/

variable {wire : Nat → Exchange} {total : Nat}

theorem copies_eq_nil {c : List Entry} (hc : c ≠ []) {k : Nat} : (List.replicate k c).flatten = [] ↔ k = 0 := by
  cases k with
  | zero => simp
  | succ k => simp [List.replicate_succ, hc]

theorem copies_eq_self {c : List Entry} (hc : c ≠ []) {k : Nat} : (List.replicate k c).flatten = c ↔ k = 1 := by
  cases k with
  | zero => simp [Ne.symm hc]
  | succ k =>
    rw [List.replicate_succ, List.flatten_cons, List.append_right_eq_self, copies_eq_nil hc]
    omega

theorem account_failed {done c rest : List Entry} (hc : c ≠ []) (x : Exchange) {e : UploadError}
    (h : request x = .error e) :
    Account (done ++ (c ++ rest)) ⟨done.length, total, if definitelyNotWritten e then 0 else c.length, some e⟩
      (done ++ (List.replicate x.commits c).flatten) ↔ x.Honest := by
  obtain ⟨hd, ha⟩ := request_error h
  have htake : (done ++ (c ++ rest)).take (done.length + c.length) = done ++ c := by
    rw [← List.append_assoc, ← List.length_append]
    exact List.take_left
  have hnone : done ++ (List.replicate x.commits c).flatten = (done ++ (c ++ rest)).take done.length ↔
      x.commits = 0 := by
    rw [List.take_left, List.append_right_eq_self, copies_eq_nil hc]
  have hall : done ++ (List.replicate x.commits c).flatten = (done ++ (c ++ rest)).take (done.length + c.length) ↔
      x.commits = 1 := by
    rw [htake, List.append_cancel_left_eq, copies_eq_self hc]
  unfold Account
  rw [hd]
  cases hdec : x.declined with
  | true =>
    simp only [if_true, Nat.add_zero, hnone, or_self]
    constructor
    · intro h0
      refine ⟨fun h => ?_, fun _ => h0, by omega⟩
      rw [ha] at h
      cases h
    · exact fun h => h.declined hdec
  | false =>
    simp only [Bool.false_eq_true, if_false, hnone, hall]
    constructor
    · intro h
      refine ⟨fun h => ?_, fun h => ?_, by omega⟩
      · rw [ha] at h
        cases h
      · rw [hdec] at h
        cases h
    · intro h
      have := h.once
      omega

theorem sendAll_frame (cs : List (List Entry)) (uploaded sent : Nat) (server : List Entry) :
    uploaded ≤ (sendAll wire total cs uploaded sent server).1.uploaded ∧
      ∃ extra, (sendAll wire total cs uploaded sent server).2 = server ++ extra ∧
        ∀ e ∈ extra, e ∈ cs.flatten := by
  induction cs generalizing uploaded sent server with
  | nil => exact ⟨le_refl _, [], by simp [sendAll], by simp⟩
  | cons c rest ih =>
    have hcopies : ∀ e ∈ (List.replicate (wire sent).commits c).flatten, e ∈ c := by
      intro e he
      obtain ⟨l, hl, he⟩ := List.mem_flatten.mp he
      rwa [List.eq_of_mem_replicate hl] at he
    simp only [sendAll]
    cases request (wire sent) with
    | error e =>
      refine ⟨le_refl _, _, rfl, fun e he => ?_⟩
      rw [List.flatten_cons]
      exact List.mem_append_left _ (hcopies e he)
    | ok u =>
      obtain ⟨hle, extra, heq, hextra⟩ := ih (uploaded + c.length) (sent + 1)
        (server ++ (List.replicate (wire sent).commits c).flatten)
      refine ⟨by simp only; omega, (List.replicate (wire sent).commits c).flatten ++ extra, ?_, ?_⟩
      · rw [← List.append_assoc]
        exact heq
      · intro e he
        rw [List.flatten_cons]
        rcases List.mem_append.mp he with he | he
        · exact List.mem_append_left _ (hcopies e he)
        · exact List.mem_append_right _ (hextra e he)

theorem count_copies {c : List Entry} (hc : c.Nodup) {e : Entry} (he : e ∈ c) (k : Nat) :
    (List.replicate k c).flatten.count e = k := by
  induction k with
  | zero => simp
  | succ k ih =>
    rw [List.replicate_succ, List.flatten_cons, List.count_append, ih, List.count_eq_one_of_mem hc he]
    omega

theorem account_accepted {done c : List Entry} {cs : List (List Entry)} (hc : c ≠ [])
    (hnd : (done ++ (c ++ cs.flatten)).Nodup) {outcome : UploadOutcome} {server extra : List Entry} {k : Nat}
    (hu : done.length + c.length ≤ outcome.uploaded)
    (hs : server = done ++ (List.replicate k c).flatten ++ extra) (hextra : ∀ e ∈ extra, e ∈ cs.flatten)
    (h : Account (done ++ (c ++ cs.flatten)) outcome server) : k = 1 := by
  obtain ⟨n, hn, htake⟩ : ∃ n, done.length + c.length ≤ n ∧ server = (done ++ (c ++ cs.flatten)).take n := by
    rcases h with h | h
    · exact ⟨_, hu, h⟩
    · exact ⟨_, by omega, h⟩
  obtain ⟨e, he⟩ := List.exists_mem_of_ne_nil c hc
  obtain ⟨-, hnd', hdone⟩ := List.nodup_append.mp hnd
  obtain ⟨hndc, -, hrest⟩ := List.nodup_append.mp hnd'
  have hone : server.count e = 1 := by
    have hmem : e ∈ (done ++ (c ++ cs.flatten)).take n := by
      rw [← List.append_assoc, List.take_append, List.take_of_length_le (by rw [List.length_append]; exact hn)]
      exact List.mem_append_left _ (List.mem_append_right _ he)
    rw [htake]
    exact List.count_eq_one_of_mem (hnd.sublist (List.take_sublist _ _)) hmem
  have hd : done.count e = 0 := List.count_eq_zero.mpr fun h => hdone e h e (List.mem_append_left _ he) rfl
  have hx : extra.count e = 0 := List.count_eq_zero.mpr fun h => hrest e he e (hextra e h) rfl
  rw [hs, List.count_append, List.count_append, count_copies hndc he, hd, hx] at hone
  omega

/-! ## Every chunk -/

/-- Of the `n` requests from `sent` on, those that are made are answered honestly:
one is made when every one before it was accepted. -/
def AnsweredHonestly (wire : Nat → Exchange) (sent n : Nat) : Prop :=
  ∀ i < n, (∀ j < i, (wire (sent + j)).accepted = true) → (wire (sent + i)).Honest

theorem answeredHonestly_succ {sent n : Nat} : AnsweredHonestly wire sent (n + 1) ↔
    (wire sent).Honest ∧ ((wire sent).accepted = true → AnsweredHonestly wire (sent + 1) n) := by
  constructor
  · intro h
    refine ⟨h 0 (by omega) (by omega), fun ha i hi hj => ?_⟩
    have hnext : sent + 1 + i = sent + (i + 1) := by omega
    rw [hnext]
    refine h (i + 1) (by omega) fun j hlt => ?_
    cases j with
    | zero => exact ha
    | succ j =>
      have := hj j (by omega)
      rwa [show sent + 1 + j = sent + (j + 1) by omega] at this
  · rintro ⟨h0, h⟩ i hi hj
    cases i with
    | zero => exact h0
    | succ i =>
      rw [show sent + (i + 1) = sent + 1 + i by omega]
      refine h (hj 0 (by omega)) i (by omega) fun j hlt => ?_
      rw [show sent + 1 + j = sent + (j + 1) by omega]
      exact hj (j + 1) (by omega)

theorem sendAll_account {cs : List (List Entry)} {done : List Entry} {sent : Nat} (hne : ∀ c ∈ cs, c ≠ [])
    (hnd : (done ++ cs.flatten).Nodup) :
    Account (done ++ cs.flatten) (sendAll wire total cs done.length sent done).1
        (sendAll wire total cs done.length sent done).2 ↔ AnsweredHonestly wire sent cs.length := by
  induction cs generalizing done sent with
  | nil =>
    refine iff_of_true (Or.inl ?_) fun i hi => absurd hi (Nat.not_lt_zero i)
    simp [sendAll]
  | cons c rest ih =>
    have hc : c ≠ [] := hne c List.mem_cons_self
    rw [List.length_cons, answeredHonestly_succ, List.flatten_cons]
    rw [List.flatten_cons] at hnd
    simp only [sendAll]
    cases hr : request (wire sent) with
    | error e =>
      have ha := (request_error hr).2
      simp only
      rw [account_failed hc (wire sent) hr]
      refine ⟨fun h => ⟨h, fun h => ?_⟩, fun h => h.1⟩
      rw [ha] at h
      cases h
    | ok u =>
      have ha : (wire sent).accepted = true := request_ok.mp hr
      simp only
      by_cases hk : (wire sent).commits = 1
      · have hh : (wire sent).Honest := by
          refine ⟨fun _ => hk, fun h => ?_, by omega⟩
          unfold Exchange.declined Answer.declined at h
          unfold Exchange.accepted at ha
          cases hans : (wire sent).last.answer with
          | none => simp [hans] at ha
          | some a =>
            rw [hans, Option.any_some] at ha h
            simp [ha] at h
        have happend := @ih (done ++ c) (sent + 1) (fun x hx => hne x (List.mem_cons_of_mem _ hx))
          (by rwa [List.append_assoc])
        rw [List.append_assoc, List.length_append] at happend
        rw [hk, List.replicate_one, List.flatten_singleton, happend]
        exact ⟨fun h => ⟨hh, fun _ => h⟩, fun h => h.2 ha⟩
      · obtain ⟨hle, extra, heq, hextra⟩ := @sendAll_frame wire total rest (done.length + c.length) (sent + 1)
          (done ++ (List.replicate (wire sent).commits c).flatten)
        refine iff_of_false (fun h => hk (account_accepted hc hnd hle heq hextra h)) fun h => ?_
        exact hk (h.1.accepted ha)

/-! ## The account of an upload -/

section
variable {K P : Type} (C : Crypto K P) (draw : Nat → ItemDraw K) (held : Ref → Nat → K)

def requests (session : SessionBuffers) (items : List P) (collectionId : Option Id) : Nat :=
  (chunks (fun entry => entryBytes entry.request) [] 0 (entries C draw held session items collectionId)).length

theorem entries_nodup (session : SessionBuffers) (items : List P) (collectionId : Option Id) :
    (entries C draw held session items collectionId).Nodup := by
  unfold entries
  split
  · rename_i key hkey
    apply List.Nodup.of_map Entry.position
    rw [List.map_map]
    change (items.zipIdx.map Prod.snd).Nodup
    rw [List.zipIdx_map_snd]
    exact List.nodup_range'
  · exact List.nodup_nil

def Told (wire : Nat → Exchange) (session : SessionBuffers) (items : List P) (collectionId : Option Id) : Prop :=
  ∃ outcome server, uploadItems C draw held wire session items collectionId = some (outcome, server) ∧
    Account (entries C draw held session items collectionId) outcome server

theorem upload_told_iff (wire : Nat → Exchange) (session : SessionBuffers) (items : List P)
    (collectionId : Option Id) :
    Told C draw held wire session items collectionId ↔
      (items = [] ∨ (session.parentKeyFor collectionId).isSome = true) ∧
        AnsweredHonestly wire 0 (requests C draw held session items collectionId) := by
  have hnone : entries C draw held session items collectionId = [] →
      AnsweredHonestly wire 0 (requests C draw held session items collectionId) := by
    intro h
    unfold requests
    rw [h]
    exact fun i hi => absurd hi (Nat.not_lt_zero i)
  unfold Told uploadItems
  by_cases hitems : items = []
  · have hentries : entries C draw held session items collectionId = [] := by
      unfold entries
      rw [hitems]
      split <;> rfl
    rw [if_pos hitems, hentries]
    exact iff_of_true ⟨_, _, rfl, Or.inl rfl⟩ ⟨Or.inl hitems, hnone hentries⟩
  · rw [if_neg hitems]
    cases hkey : session.parentKeyFor collectionId with
    | none => simp [hitems]
    | some found =>
      cases found with
      | none =>
        have hentries : entries C draw held session items collectionId = [] := by
          unfold entries
          rw [hkey]
        rw [hentries]
        exact iff_of_true ⟨_, _, rfl, Or.inl rfl⟩ ⟨Or.inr rfl, hnone hentries⟩
      | some key =>
        have hloop := loop_sendAll wire items.length (entries C draw held session items collectionId)
          ⟨0, [], 0, 0, []⟩
        rw [Prod.ext_iff] at hloop
        have hflat := flatten_chunks (fun entry => entryBytes entry.request) [] 0
          (entries C draw held session items collectionId)
        have hacc := @sendAll_account wire items.length
          (chunks (fun entry => entryBytes entry.request) [] 0 (entries C draw held session items collectionId))
            [] 0
          (chunks_ne_nil _ _ _ _) (by rw [hflat]; exact entries_nodup C draw held session items collectionId)
        rw [hflat] at hacc
        simp only [List.nil_append, List.length_nil] at hacc hloop
        rw [← hloop.1, ← hloop.2] at hacc
        simp only [Option.some.injEq, Prod.mk.injEq, Option.isSome_some, or_true, true_and]
        refine Iff.trans ?_ hacc
        constructor
        · rintro ⟨outcome, server, ⟨rfl, rfl⟩, h⟩
          exact h
        · exact fun h => ⟨_, _, ⟨rfl, rfl⟩, h⟩

end

open Vault.Sealing (labelled drawn)

def unlocked : SessionBuffers := { createSession with userKey := some 0, privateKey := some 1 }

/-- The server takes the request; the body of its 201 is cut off on the way. -/
def cutOff : Exchange := ⟨⟨some ⟨201, false, .notJson⟩, true⟩, false, ⟨none, false⟩⟩

/-- The connection is lost after the commit. -/
def lostAnswer : Exchange := ⟨⟨none, true⟩, false, ⟨none, false⟩⟩

theorem upload_told_lost : Told labelled drawn (fun _ _ => 'u') (fun _ => lostAnswer) unlocked ["password"] none :=
  (upload_told_iff labelled drawn (fun _ _ => 'u') (fun _ => lostAnswer) unlocked ["password"] none).mpr
    ⟨Or.inr rfl, fun _ _ _ => (by decide : lostAnswer.Honest)⟩

/-- The one item is on the server, and the outcome says that nothing was written. -/
theorem malformed_answer_denied :
    ¬ ∀ (K P : Type) (C : Crypto K P) (draw : Nat → ItemDraw K) (held : Ref → Nat → K)
    (wire : Nat → Exchange) (session : SessionBuffers) (items : List P) (collectionId : Option Id),
    Told C draw held wire session items collectionId := by
  intro h
  obtain ⟨outcome, server, hrun, hacc⟩ :=
    h Char String labelled drawn (fun _ _ => 'u') (fun _ => cutOff) unlocked ["password"] none
  have hsome : uploadItems labelled drawn (fun _ _ => 'u') (fun _ => cutOff) unlocked ["password"] none =
      some (⟨0, 1, 0, some (.api "internal" 201)⟩,
        entries labelled drawn (fun _ _ => 'u') unlocked ["password"] none) := by decide
  rw [hsome] at hrun
  cases hrun
  rcases hacc with hacc | hacc <;> exact absurd hacc (by decide)

end Keyhole.Client.Upload
