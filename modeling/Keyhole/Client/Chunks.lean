import Keyhole.Client.Upload
import Keyhole.Crypto.RoundTrip
import Keyhole.Lib.Ascii
import Keyhole.Store.Audit

/-!
# The requests of an upload

`uploadItems` over the texts it writes: how many items a request carries and
how many bytes.
-/

namespace Keyhole.Client.Chunks
open Unicode Json Crypto Vault
open Upload (UploadOutcome UploadError Exchange definitelyNotWritten)

def maxBulkBody : Nat := 8 * 2 ^ 20

structure BulkEntry where
  collectionId : Option Text
  ciphertext : Text
  wrappedItemKey : Text
  deriving DecidableEq, Repr

def BulkEntry.toJson (entry : BulkEntry) : Json :=
  .object [(units "collectionId", ofNullable entry.collectionId), (units "ciphertext", .string entry.ciphertext),
    (units "wrappedItemKey", .string entry.wrappedItemKey)]

def entryBytes (entry : BulkEntry) : Nat := (stringify entry.toJson).length + 1

/-- The body of a request, as `fetch` encodes it. -/
def bodyOf (chunk : List BulkEntry) : Bytes :=
  utf8Encode (stringify (.object [(units "items", .array (chunk.map BulkEntry.toJson))]))

/-- The variables of `uploadItems`, and the chunks it has posted. -/
structure Progress where
  uploaded : Nat
  chunk : List BulkEntry
  chunkBytes : Nat
  posts : List (List BulkEntry)

def Progress.push (p : Progress) (entry : BulkEntry) : Progress :=
  { p with chunk := p.chunk ++ [entry], chunkBytes := p.chunkBytes + entryBytes entry }

section
variable (P : Platform) (draw : Nat → ItemDraw) (wire : Nat → Exchange)

/-- `draw i` is what item `i` draws. -/
def entryFor (key : Bytes) (collectionId : Option Text) (item : ItemPlaintext) (i : Nat) :
    Except CryptoError BulkEntry := do
  let encrypted ← encryptItem P (draw i) item key
  return { collectionId, ciphertext := encrypted.ciphertext, wrappedItemKey := encrypted.wrappedItemKey }

/-- `wire i` is what becomes of request `i`. -/
def send (p : Progress) : Option UploadError × Progress :=
  let x := wire p.posts.length
  let p := { p with posts := p.posts ++ [p.chunk] }
  match Upload.request x with
  | .error e => (some e, p)
  | .ok () => (none, { p with uploaded := p.uploaded + p.chunk.length, chunk := [], chunkBytes := 0 })

def failure (total : Nat) (p : Progress) (error : UploadError) (attempted : Nat) : UploadOutcome where
  uploaded := p.uploaded
  total := total
  inDoubt := if definitelyNotWritten error then 0 else attempted
  error := some error

def finished (total : Nat) (p : Progress) : UploadOutcome where
  uploaded := p.uploaded
  total := total
  inDoubt := 0
  error := none

/-- `.error` where `encryptItem` throws. -/
def loop (total : Nat) (key : Bytes) (collectionId : Option Text) :
    List (ItemPlaintext × Nat) → Progress → Except CryptoError UploadOutcome × Progress
  | [], p =>
    if p.chunk ≠ [] then
      match send wire p with
      | (some e, p') => (.ok (failure total p' e p.chunk.length), p')
      | (none, p') => (.ok (finished total p'), p')
    else (.ok (finished total p), p)
  | (item, i) :: rest, p =>
    match entryFor P draw key collectionId item i with
    | .error e => (.error e, p)
    | .ok entry =>
      if p.chunk ≠ [] ∧
          (p.chunk.length ≥ MAX_ITEMS_PER_REQUEST ∨ p.chunkBytes + entryBytes entry > BODY_BUDGET) then
        match send wire p with
        | (some e, p') => (.ok (failure total p' e p.chunk.length), p')
        | (none, p') => loop total key collectionId rest (p'.push entry)
      else loop total key collectionId rest (p.push entry)

/-- What it returns, beside the chunks it has posted. Every key of a session is one of 32 bytes. -/
def uploadItems (session : Session (Random KEY_BYTES)) (items : List ItemPlaintext)
    (collectionId : Option Store.Id) :
    Except CryptoError UploadOutcome × List (List BulkEntry) :=
  if items.length = 0 then (.ok ⟨0, 0, 0, none⟩, [])
  else
    match parentKeyFor session collectionId with
    | none => (.ok ⟨0, items.length, 0, some .noKey⟩, [])
    | some key =>
      let text := collectionId.map fun id => utf16 id.toList
      let (outcome, p) := loop P draw wire items.length key.val text items.zipIdx ⟨0, [], 0, []⟩
      (outcome, p.posts)

end

/-! ## What is written is of ASCII -/

theorem ascii_toBase64 (bytes : Bytes) : Ascii (toBase64 bytes) := by
  have hletter : ∀ i < 64, (letter i).toNat < 0x80 := by decide +kernel
  obtain ⟨n, hn⟩ := toBase64_letters bytes
  rw [hn, ascii_append]
  constructor
  · intro u hu
    obtain ⟨i, hi, rfl⟩ := List.mem_map.mp hu
    exact hletter i (sextets_lt bytes i hi)
  · intro u hu
    rw [List.eq_of_mem_replicate hu]
    decide

theorem ascii_sealed (P : Platform) (nonce : Random NONCE_BYTES) (plaintext key : Bytes) :
    Ascii (sealed P nonce plaintext key) := by
  unfold sealed serializeEnvelope
  apply ascii_stringify
  simp only [HasAscii, FieldsAscii, ascii_toBase64, and_true, true_and]
  decide

/-- The texts of an entry are ones an encryption or the server has made. -/
structure BulkEntry.IsAscii (entry : BulkEntry) : Prop where
  collectionId : ∀ id ∈ entry.collectionId, Ascii id
  ciphertext : Ascii entry.ciphertext
  wrappedItemKey : Ascii entry.wrappedItemKey

theorem BulkEntry.IsAscii.hasAscii {entry : BulkEntry} (h : entry.IsAscii) : HasAscii entry.toJson := by
  have hid : HasAscii (ofNullable entry.collectionId) := by
    cases hc : entry.collectionId with
    | none => simp [ofNullable, HasAscii]
    | some id =>
      rw [ofNullable, HasAscii]
      exact h.collectionId id hc
  unfold BulkEntry.toJson
  simp only [HasAscii, FieldsAscii, hid, h.ciphertext, h.wrappedItemKey, and_true, true_and]
  decide

theorem haveAscii_map {chunk : List BulkEntry} (h : ∀ entry ∈ chunk, entry.IsAscii) :
    HaveAscii (chunk.map BulkEntry.toJson) := by
  induction chunk with
  | nil => simp [HaveAscii]
  | cons entry chunk ih =>
    rw [List.forall_mem_cons] at h
    rw [List.map_cons, HaveAscii]
    exact ⟨h.1.hasAscii, ih h.2⟩

/-- The envelope around the entries: eleven bytes more than they are counted for. -/
theorem length_bodyOf {chunk : List BulkEntry} (hne : chunk ≠ []) (h : ∀ entry ∈ chunk, entry.IsAscii) :
    (bodyOf chunk).length = (chunk.map entryBytes).sum + 11 := by
  have hascii : Ascii (stringify (.object [(units "items", .array (chunk.map BulkEntry.toJson))])) := by
    apply ascii_stringify
    simp only [HasAscii, FieldsAscii, haveAscii_map h, and_true]
    decide
  have hitems : (quote (units "items")).length = 7 := by decide
  have hmap : chunk.map BulkEntry.toJson ≠ [] := by simpa using hne
  have helements := length_elements hmap
  rw [List.map_map] at helements
  have hsum : (chunk.map entryBytes).sum =
      (chunk.map ((fun x => (stringify x).length + 1) ∘ BulkEntry.toJson)).sum := rfl
  unfold bodyOf utf8Encode
  rw [length_utf8 hascii, hsum, ← helements]
  simp only [stringify, stringifyMembers, List.length_cons, List.length_append, hitems, List.length_nil]
  omega

/-! ## The limits of a chunk -/

/-- The invariant of the loop: what is open may be posted as it is. -/
structure Within {α : Type} (bytes : α → Nat) (chunk : List α) : Prop where
  few : chunk.length ≤ MAX_ITEMS_PER_REQUEST
  small : chunk.length ≤ 1 ∨ (chunk.map bytes).sum ≤ BODY_BUDGET

theorem Within.single {α : Type} (bytes : α → Nat) (entry : α) : Within bytes [entry] where
  few := by simp [MAX_ITEMS_PER_REQUEST]
  small := by simp

theorem Within.push {α : Type} {bytes : α → Nat} {chunk : List α} {entry : α}
    (h : ¬(chunk ≠ [] ∧
      (chunk.length ≥ MAX_ITEMS_PER_REQUEST ∨ (chunk.map bytes).sum + bytes entry > BODY_BUDGET))) :
    Within bytes (chunk ++ [entry]) := by
  by_cases hnil : chunk = []
  · rw [hnil]
    exact .single bytes entry
  · have hopen : ¬(chunk.length ≥ MAX_ITEMS_PER_REQUEST ∨ (chunk.map bytes).sum + bytes entry > BODY_BUDGET) :=
      fun hclosed => h ⟨hnil, hclosed⟩
    constructor
    · rw [List.length_append, List.length_singleton]
      omega
    · right
      rw [List.map_append, List.sum_append, List.map_singleton, List.sum_singleton]
      omega

theorem chunks_within {α : Type} (bytes : α → Nat) {chunk : List α} {chunkBytes : Nat} (rest : List α)
    (hbytes : chunkBytes = (chunk.map bytes).sum) (h : Within bytes chunk) :
    ∀ c ∈ chunks bytes chunk chunkBytes rest, Within bytes c := by
  induction rest generalizing chunk chunkBytes with
  | nil =>
    unfold chunks
    by_cases hnil : chunk = []
    · simp [hnil]
    · rw [if_neg hnil, List.forall_mem_singleton]
      exact h
  | cons entry rest ih =>
    unfold chunks
    rw [hbytes]
    by_cases hclosed : chunk ≠ [] ∧
        (chunk.length ≥ MAX_ITEMS_PER_REQUEST ∨ (chunk.map bytes).sum + bytes entry > BODY_BUDGET)
    · rw [if_pos hclosed, List.forall_mem_cons]
      exact ⟨h, ih (by simp) (.single bytes entry)⟩
    · rw [if_neg hclosed]
      exact ih (by simp) (.push hclosed)

/-! ## Every request succeeds -/

section
variable (P : Platform) (draw : Nat → ItemDraw)

def sealedEntry (key : Bytes) (collectionId : Option Text) (e : ItemPlaintext × Nat) : BulkEntry where
  collectionId := collectionId
  ciphertext := sealed P (draw e.2).bodyNonce (utf8Encode (stringify e.1.toJson)) (draw e.2).itemKey.val
  wrappedItemKey := sealed P (draw e.2).keyNonce (draw e.2).itemKey.val key

theorem entryFor_ok (key : Random KEY_BYTES) (collectionId : Option Text) (item : ItemPlaintext) (i : Nat) :
    entryFor P draw key.val collectionId item i = .ok (sealedEntry P draw key.val collectionId (item, i)) := by
  unfold entryFor Crypto.encryptItem
  rw [encryptString_ok P (draw i).itemKey.property, wrapKey_ok P key.property]
  rfl

theorem isAscii_sealedEntry (key : Bytes) {collectionId : Option Text} (h : ∀ id ∈ collectionId, Ascii id)
    (e : ItemPlaintext × Nat) : (sealedEntry P draw key collectionId e).IsAscii :=
  ⟨h, ascii_sealed P _ _ _, ascii_sealed P _ _ _⟩

variable {wire : Nat → Exchange} (hwire : ∀ i, Upload.request (wire i) = .ok ())
include hwire

theorem send_ok (p : Progress) : send wire p = (none,
    { uploaded := p.uploaded + p.chunk.length, chunk := [], chunkBytes := 0, posts := p.posts ++ [p.chunk] }) := by
  unfold send
  simp only [hwire]

theorem loop_chunks (total : Nat) (key : Random KEY_BYTES) (collectionId : Option Text)
    (todo : List (ItemPlaintext × Nat)) (p : Progress) :
    ∃ final, loop P draw wire total key.val collectionId todo p = (.ok (finished total final), final) ∧
      final.uploaded = p.uploaded + p.chunk.length + todo.length ∧
      final.posts = p.posts ++
        chunks entryBytes p.chunk p.chunkBytes (todo.map (sealedEntry P draw key.val collectionId)) := by
  induction todo generalizing p with
  | nil =>
    unfold loop
    by_cases hnil : p.chunk = []
    · rw [if_neg (not_not.mpr hnil)]
      exact ⟨p, rfl, by simp [hnil], by simp [chunks, hnil]⟩
    · rw [if_pos hnil, send_ok hwire]
      exact ⟨_, rfl, by simp, by simp [chunks, hnil]⟩
  | cons e rest ih =>
    obtain ⟨item, i⟩ := e
    rw [List.map_cons]
    unfold loop chunks
    rw [entryFor_ok]
    simp only
    by_cases hclosed : p.chunk ≠ [] ∧ (p.chunk.length ≥ MAX_ITEMS_PER_REQUEST ∨
        p.chunkBytes + entryBytes (sealedEntry P draw key.val collectionId (item, i)) > BODY_BUDGET)
    · rw [if_pos hclosed, if_pos hclosed, send_ok hwire]
      obtain ⟨final, hrun, hup, hposts⟩ := ih (Progress.push
        { uploaded := p.uploaded + p.chunk.length, chunk := [], chunkBytes := 0, posts := p.posts ++ [p.chunk] }
        (sealedEntry P draw key.val collectionId (item, i)))
      refine ⟨final, hrun, ?_, ?_⟩
      · rw [hup]
        simp [Progress.push]
        omega
      · rw [hposts]
        simp [Progress.push]
    · rw [if_neg hclosed, if_neg hclosed]
      obtain ⟨final, hrun, hup, hposts⟩ := ih (p.push (sealedEntry P draw key.val collectionId (item, i)))
      refine ⟨final, hrun, ?_, hposts⟩
      rw [hup]
      simp [Progress.push]
      omega

end

/-- What posting the entries in chunks owes them and the server. -/
structure Exact (entries : List BulkEntry) (posts : List (List BulkEntry)) : Prop where
  whole : posts.flatten = entries
  nonempty : ∀ chunk ∈ posts, chunk ≠ []
  few : ∀ chunk ∈ posts, chunk.length ≤ Http.maxBulkItems
  small : ∀ chunk ∈ posts, chunk.length = 1 ∨ (bodyOf chunk).length ≤ maxBulkBody

theorem length_flatten_le {α : Type} {posts : List (List α)} {n : Nat} (h : ∀ chunk ∈ posts, chunk.length ≤ n) :
    posts.flatten.length ≤ posts.length * n := by
  induction posts with
  | nil => simp
  | cons chunk rest ih =>
    rw [List.forall_mem_cons] at h
    rw [List.flatten_cons, List.length_append, List.length_cons, Nat.succ_mul, Nat.add_comm]
    exact Nat.add_le_add (ih h.2) h.1

theorem Exact.length_le {entries : List BulkEntry} {posts : List (List BulkEntry)} (h : Exact entries posts) :
    entries.length ≤ posts.length * Http.maxBulkItems := by
  rw [← h.whole]
  exact length_flatten_le h.few

theorem chunks_exact {entries : List BulkEntry} (h : ∀ entry ∈ entries, entry.IsAscii) :
    Exact entries (chunks entryBytes [] 0 entries) := by
  have hwhole : (chunks entryBytes [] 0 entries).flatten = entries := flatten_chunks entryBytes [] 0 entries
  have hne := Upload.chunks_ne_nil entryBytes [] 0 entries
  have hopen : Within entryBytes [] := ⟨by simp, .inl (by simp)⟩
  have hwithin := chunks_within entryBytes entries rfl hopen
  refine ⟨hwhole, hne, fun chunk hc => (hwithin chunk hc).few, fun chunk hc => ?_⟩
  have hascii : ∀ entry ∈ chunk, entry.IsAscii := by
    intro entry he
    apply h
    rw [← hwhole]
    exact List.mem_flatten_of_mem hc he
  have hpos := List.length_pos_iff.mpr (hne chunk hc)
  rcases (hwithin chunk hc).small with hone | hsmall
  · left
    omega
  · right
    rw [length_bodyOf (hne chunk hc) hascii]
    unfold BODY_BUDGET MAX_BODY_BYTES at hsmall
    unfold maxBulkBody
    omega

/-- When every request succeeds. The ids of collections are of ASCII, as the server makes them. -/
theorem upload_exact (P : Platform) (draw : Nat → ItemDraw) {wire : Nat → Exchange}
    (hwire : ∀ i, Upload.request (wire i) = .ok ()) (session : Session (Random KEY_BYTES))
    (items : List ItemPlaintext) (collectionId : Option Store.Id)
    (hid : ∀ id ∈ collectionId, Ascii (utf16 id.toList)) {key : Random KEY_BYTES}
    (hkey : parentKeyFor session collectionId = some key) :
    ∃ entries posts,
      items.zipIdx.map (fun e =>
        entryFor P draw key.val (collectionId.map fun id => utf16 id.toList) e.1 e.2) = entries.map .ok ∧
      uploadItems P draw wire session items collectionId = (.ok ⟨items.length, items.length, 0, none⟩, posts) ∧
      Exact entries posts := by
  let text := collectionId.map fun id => utf16 id.toList
  let entries := items.zipIdx.map (sealedEntry P draw key.val text)
  have htext : ∀ t ∈ text, Ascii t := by
    intro t ht
    obtain ⟨id, hmem, rfl⟩ := Option.mem_map.mp ht
    exact hid id hmem
  have hascii : ∀ entry ∈ entries, entry.IsAscii := by
    intro entry he
    obtain ⟨e, -, rfl⟩ := List.mem_map.mp he
    exact isAscii_sealedEntry P draw key.val htext e
  refine ⟨entries, chunks entryBytes [] 0 entries, ?_, ?_, chunks_exact hascii⟩
  · simp [entries, text, entryFor_ok]
  · unfold uploadItems
    by_cases hnone : items.length = 0
    · rw [if_pos hnone, hnone]
      have hnil : entries = [] := by simp [entries, List.length_eq_zero_iff.mp hnone]
      rw [hnil]
      rfl
    · rw [if_neg hnone, hkey]
      obtain ⟨final, hrun, hup, hposts⟩ :=
        loop_chunks P draw hwire items.length key text items.zipIdx ⟨0, [], 0, []⟩
      simp only
      rw [hrun]
      simp only
      rw [hposts]
      simp [finished, hup, entries]

theorem ascii_newID (buf : Fin 16 → UInt8) : Ascii (utf16 (Keyhole.Store.newID buf).toList) := by
  have hdigit : ∀ n < 16, Ascii (utf16Char (Keyhole.Store.hexDigit (.ofNat n))) := by decide
  have hbyte : ∀ b : UInt8, b.toNat < 16 → Ascii (utf16Char (Keyhole.Store.hexDigit b)) := by
    intro b hb
    have hn := hdigit b.toNat hb
    rwa [UInt8.ofNat_toNat] at hn
  rw [Keyhole.Store.newID, Keyhole.Store.encodeToString, String.toList_ofList]
  induction List.ofFn buf with
  | nil => decide
  | cons b rest ih =>
    have hstep :
        utf16 ((b :: rest).flatMap fun b => [Keyhole.Store.hexDigit (b / 16), Keyhole.Store.hexDigit (b % 16)]) =
        utf16Char (Keyhole.Store.hexDigit (b / 16)) ++ (utf16Char (Keyhole.Store.hexDigit (b % 16)) ++
          utf16 (rest.flatMap fun b => [Keyhole.Store.hexDigit (b / 16), Keyhole.Store.hexDigit (b % 16)])) := by
      simp [utf16]
    have hdiv : (b / 16).toNat < 16 := by
      have := b.toNat_lt
      simp
      omega
    have hmod : (b % 16).toNat < 16 := by
      simp
      omega
    rw [hstep, ascii_append, ascii_append]
    exact ⟨hbyte _ hdiv, hbyte _ hmod, ih⟩

def created : Exchange := ⟨⟨some ⟨201, false, .json none true⟩, true⟩, false, ⟨none, false⟩⟩

def shared : Store.Id := Keyhole.Store.newID fun _ => 0

def sharing : Session (Random KEY_BYTES) := ⟨zeroKey, ⟨[⟨shared, zeroKey⟩], by simp⟩⟩

def wifi : ItemPlaintext := .note ⟨units "wifi", units "the second of the two", false, none⟩

/-- One item more than a request may carry: there are two requests at least. -/
theorem upload_exact_wifi : ∃ entries posts,
    (List.replicate 1001 wifi).zipIdx.map (fun e => entryFor tagged (fun _ => ⟨zeroKey, zeroNonce, zeroNonce⟩)
      zeroKey.val ((some shared).map fun id => utf16 id.toList) e.1 e.2) = entries.map .ok ∧
    uploadItems tagged (fun _ => ⟨zeroKey, zeroNonce, zeroNonce⟩) (fun _ => created) sharing
      (List.replicate 1001 wifi)
      (some shared) = (.ok ⟨1001, 1001, 0, none⟩, posts) ∧ Exact entries posts ∧ 2 ≤ posts.length := by
  have hwire : ∀ _ : Nat, Upload.request created = .ok () := fun _ => rfl
  obtain ⟨entries, posts, hentries, hrun, hexact⟩ :=
    upload_exact tagged (fun _ => ⟨zeroKey, zeroNonce, zeroNonce⟩) hwire sharing (List.replicate 1001 wifi)
      (some shared) (by rintro id ⟨⟩; exact ascii_newID _) rfl
  have hlength := congrArg List.length hentries
  rw [List.length_map, List.length_zipIdx, List.length_replicate, List.length_map] at hlength
  have hle := hexact.length_le
  unfold Http.maxBulkItems at hle
  rw [List.length_replicate] at hrun
  exact ⟨entries, posts, hentries, hrun, hexact, by omega⟩

end Keyhole.Client.Chunks
