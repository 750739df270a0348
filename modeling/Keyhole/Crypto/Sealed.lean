import Keyhole.Crypto.RoundTrip

/-!
# Keys sealed to a public key

A collection's key goes to each member sealed: an ephemeral key agrees with
the member's on a secret, and what is derived from it encrypts the key. X25519
and HKDF are the packages', with the laws that are relied on.
-/

namespace Keyhole.Crypto
open Unicode Json

/-- `x25519` and `hkdf` over SHA-256 with 32 bytes asked for. What throws answers `none`. -/
structure Curve where
  getPublicKey : (privateKey : Bytes) → Option Bytes
  getSharedSecret : (privateKey publicKey : Bytes) → Option Bytes
  hkdf : (ikm info : Bytes) → Bytes
  public_some : ∀ a, a.length = KEY_BYTES → (getPublicKey a).isSome = true
  public_length : ∀ {a A}, getPublicKey a = some A → A.length = KEY_BYTES
  agree : ∀ {a b A B}, getPublicKey a = some A → getPublicKey b = some B →
    ∃ s, getSharedSecret a B = some s ∧ getSharedSecret b A = some s
  hkdf_length : ∀ s info, (hkdf s info).length = KEY_BYTES

structure SealedKey where
  epk : Text
  n : Text
  ct : Text
  deriving DecidableEq, Repr

def SEAL_ALG : Text := units "X25519-HKDF-SHA256-A256GCM"

def SEAL_INFO : Bytes := utf8Encode (units "keyhole:seal:v1")

def PUBLIC_KEY_BYTES : Nat := 32

def SEALED_SECRET_BYTES : Nat := 32

/-- Beside the package's own errors, what `x25519` throws where nobody catches it. -/
inductive SealError
  | crypto (error : CryptoError)
  | curve
  deriving DecidableEq, Repr

structure SealDraw where
  ephemeral : Random KEY_BYTES
  nonce : Random NONCE_BYTES

def serializeSealed (sealed : SealedKey) : Text :=
  stringify (.object [(units "v", .number 1 0), (units "alg", .string SEAL_ALG), (units "epk", .string sealed.epk),
    (units "n", .string sealed.n), (units "ct", .string sealed.ct)])

section
variable (P : Platform) (C : Curve)

/-- Both public keys are in the info, so another recipient derives another key. -/
def Curve.deriveSealKey (sharedSecret ephemeralPublicKey recipientPublicKey : Bytes) : Bytes :=
  C.hkdf sharedSecret (SEAL_INFO ++ ephemeralPublicKey ++ recipientPublicKey)

def sealToUserWithEphemeral (secret recipientPublicKey ephemeralPrivateKey nonce : Bytes) :
    Except SealError Text := do
  if recipientPublicKey.length ≠ PUBLIC_KEY_BYTES then
    throw (.crypto (bytesReceived "Recipient public key" PUBLIC_KEY_BYTES recipientPublicKey.length))
  match C.getPublicKey ephemeralPrivateKey, C.getSharedSecret ephemeralPrivateKey recipientPublicKey with
  | some ephemeralPublicKey, some sharedSecret =>
    let sealKey := C.deriveSealKey sharedSecret ephemeralPublicKey recipientPublicKey
    let envelope ← (encryptBytesWithNonce P secret sealKey nonce).mapError .crypto
    return serializeSealed { epk := toBase64 ephemeralPublicKey, n := envelope.n, ct := envelope.ct }
  | _, _ => throw .curve

def sealToUser (draw : SealDraw) (secret recipientPublicKey : Bytes) : Except SealError Text :=
  sealToUserWithEphemeral P C secret recipientPublicKey draw.ephemeral.val draw.nonce.val

/-- `typeof raw === "object" && raw !== null`, which an array passes; it has none of the fields. -/
def isObject (raw : Json) : Bool :=
  match raw with
  | .object _ | .array _ => true
  | _ => false

def parseSealed (serialized : Text) : Except CryptoError SealedKey := do
  match parse serialized with
  | none => throw (.malformedEnvelope (units "Sealed key is not valid JSON"))
  | some raw =>
    if !isObject raw then
      throw (.malformedEnvelope (units "Sealed key must be an object"))
    if !isOne (raw.get (units "v")) then
      throw (unsupported P "Unsupported sealed key version: " (raw.get (units "v")))
    if !isString (raw.get (units "alg")) SEAL_ALG then
      throw (unsupported P "Unsupported sealed key algorithm: " (raw.get (units "alg")))
    match raw.get (units "epk"), raw.get (units "n"), raw.get (units "ct") with
    | some (.string epk), some (.string n), some (.string ct) =>
      match fromBase64 epk with
      | .error _ => throw (.malformedEnvelope (units "Sealed key 'epk' is not valid base64"))
      | .ok ephemeralPublicKey =>
        if ephemeralPublicKey.length ≠ PUBLIC_KEY_BYTES then
          throw (.malformedEnvelope (units "Sealed key 'epk' must be " ++ decimal PUBLIC_KEY_BYTES ++
            units " bytes, received " ++ decimal ephemeralPublicKey.length))
        return { epk, n, ct }
    | _, _, _ => throw (.malformedEnvelope (units "Sealed key is missing 'epk', 'n', or 'ct'"))

/-- The `try` around the curve: the key a recipient derives. -/
def Curve.openingKey (recipientPrivateKey ephemeralPublicKey : Bytes) : Option Bytes := do
  let recipientPublicKey ← C.getPublicKey recipientPrivateKey
  let sharedSecret ← C.getSharedSecret recipientPrivateKey ephemeralPublicKey
  return C.deriveSealKey sharedSecret ephemeralPublicKey recipientPublicKey

def openSealed (sealed : Text) (recipientPrivateKey : Bytes) : Except CryptoError Bytes := do
  let parsed ← parseSealed P sealed
  let ephemeralPublicKey ← fromBase64 parsed.epk
  match C.openingKey recipientPrivateKey ephemeralPublicKey with
  | none => throw .decryption
  | some sealKey =>
    let opened ← decryptBytes P { n := parsed.n, ct := parsed.ct } sealKey
    if opened.length ≠ SEALED_SECRET_BYTES then throw .decryption
    return opened

/-- Derived for one ephemeral key, the keys of two recipients differ. -/
def Curve.Separates : Prop :=
  ∀ {a a' A A' epk s s'}, C.getPublicKey a = some A → C.getPublicKey a' = some A' →
    C.getSharedSecret a epk = some s → C.getSharedSecret a' epk = some s' →
    C.deriveSealKey s epk A = C.deriveSealKey s' epk A' → A = A'

end

/-! ## Whatever the text is -/

section
variable {P : Platform} {C : Curve} {text : Text}

/-- What `parseSealed` has checked of a text it takes. -/
theorem parseSealed_ok {parsed : SealedKey} (h : parseSealed P text = .ok parsed) :
    ∃ raw epk, parse text = some raw ∧ isOne (raw.get (units "v")) = true ∧
      isString (raw.get (units "alg")) SEAL_ALG = true ∧ fromBase64 parsed.epk = .ok epk ∧
      epk.length = PUBLIC_KEY_BYTES := by
  unfold parseSealed at h
  split at h
  · cases h
  · rename_i raw hraw
    simp only [bind, Except.bind, throw, throwThe, MonadExceptOf.throw, pure, Except.pure] at h
    by_cases hv : isOne (raw.get (units "v")) = true
    · by_cases halg : isString (raw.get (units "alg")) SEAL_ALG = true
      · repeat' split at h
        all_goals first
          | (cases h; done)
          | (rename_i bytes hbytes hlen
             cases h
             exact ⟨raw, bytes, hraw, hv, halg, hbytes, not_not.mp hlen⟩)
      · simp only [halg, Bool.not_false, if_true] at h
        repeat' split at h
        all_goals cases h
    · simp only [hv, Bool.not_false, if_true] at h
      repeat' split at h
      all_goals cases h

/-- The text is of another version or algorithm, and has no name for it. -/
def Nameless (text : Text) : Prop :=
  ∃ raw, parse text = some raw ∧ ((raw.get (units "v")).any hidesToString = true ∨
    isOne (raw.get (units "v")) = true ∧ (raw.get (units "alg")).any hidesToString = true)

theorem any_of_isOne {value : Option Json} (h : isOne value = true) : value.any hidesToString = false := by
  unfold isOne at h
  split at h
  · rfl
  · cases h

theorem any_of_isString {value : Option Json} {s : Text} (h : isString value s = true) :
    value.any hidesToString = false := by
  unfold isString at h
  split at h
  · rfl
  · cases h

/-- An error of `parseSealed` says that the text is malformed, unless it is of another version or algorithm
without a name. -/
theorem parseSealed_error {e : CryptoError} (h : parseSealed P text = .error e) :
    ((∃ message, e = .malformedEnvelope message) ∧ ¬ Nameless text) ∨ (e = .typeError ∧ Nameless text) := by
  unfold parseSealed at h
  cases hraw : parse text with
  | none =>
    rw [hraw] at h
    cases h
    refine .inl ⟨⟨_, rfl⟩, ?_⟩
    rintro ⟨raw, hp, -⟩
    rw [hraw] at hp
    cases hp
  | some raw =>
    have hname : Nameless text ↔ (raw.get (units "v")).any hidesToString = true ∨
        isOne (raw.get (units "v")) = true ∧ (raw.get (units "alg")).any hidesToString = true := by
      unfold Nameless
      rw [hraw]
      simp only [Option.some.injEq, exists_eq_left']
    rw [hname]
    simp only [hraw, bind, Except.bind, throw, throwThe, MonadExceptOf.throw, pure, Except.pure] at h
    by_cases hobject : isObject raw = true
    · by_cases hv : isOne (raw.get (units "v")) = true
      · rw [any_of_isOne hv]
        by_cases halg : isString (raw.get (units "alg")) SEAL_ALG = true
        · rw [any_of_isString halg]
          simp only [hobject, hv, halg, Bool.not_true, Bool.false_eq_true, if_false] at h
          refine .inl ⟨?_, by simp⟩
          repeat' split at h
          all_goals first
            | (cases h; done)
            | (cases h; exact ⟨_, rfl⟩)
        · simp only [hobject, hv, halg, Bool.not_true, Bool.not_false, Bool.false_eq_true, if_false, if_true] at h
          cases h
          rcases unsupported_eq P "Unsupported sealed key algorithm: " (raw.get (units "alg")) with
            ⟨he, hany⟩ | ⟨he, hany⟩
          · exact .inr ⟨he, .inr ⟨hv, hany⟩⟩
          · exact .inl ⟨he, by simp [hany]⟩
      · simp only [hobject, hv, Bool.not_true, Bool.not_false, Bool.false_eq_true, if_false, if_true] at h
        cases h
        rcases unsupported_eq P "Unsupported sealed key version: " (raw.get (units "v")) with ⟨he, hany⟩
          | ⟨he, hany⟩
        · exact .inr ⟨he, .inl hany⟩
        · exact .inl ⟨he, by simp [hany, hv]⟩
    · simp only [hobject, Bool.not_false, if_true] at h
      cases h
      have hget : ∀ key, raw.get key = none := by
        intro key
        cases raw with
        | object fields => exact absurd rfl hobject
        | _ => rfl
      exact .inl ⟨⟨_, rfl⟩, by simp [hget]⟩

theorem parseEnvelope_alg {envelope : Envelope} (h : parseEnvelope P text = .ok envelope) :
    ∃ raw, parse text = some raw ∧ isString (raw.get (units "alg")) (units "A256GCM") = true := by
  unfold parseEnvelope at h
  split at h
  · cases h
  · rename_i raw hraw
    refine ⟨raw, hraw, ?_⟩
    by_contra halg
    rw [Bool.not_eq_true] at halg
    simp only [bind, Except.bind, throw, throwThe, MonadExceptOf.throw, pure, Except.pure, halg, Bool.not_false,
      if_true] at h
    repeat' split at h
    all_goals cases h

theorem isString_iff {value : Option Json} {s : Text} : isString value s = true ↔ value = some (.string s) := by
  unfold isString
  split
  · simp
  · rename_i hother
    constructor
    · intro h
      cases h
    · intro h
      exact absurd h (hother s)

/-- The two readers ask for different algorithms. -/
theorem not_sealed_and_envelope {parsed : SealedKey} {envelope : Envelope} (hs : parseSealed P text = .ok parsed)
    (he : parseEnvelope P text = .ok envelope) : False := by
  obtain ⟨raw, -, hraw, -, hseal, -⟩ := parseSealed_ok hs
  obtain ⟨raw', hraw', halg⟩ := parseEnvelope_alg he
  obtain rfl := Option.some.inj (hraw.symm.trans hraw')
  have hsame := (isString_iff.mp hseal).symm.trans (isString_iff.mp halg)
  simp only [Option.some.injEq, string.injEq] at hsame
  exact absurd hsame (by decide)

theorem decryptBytes_error {envelope : Envelope} {key : Bytes} {e : CryptoError} (hk : key.length = KEY_BYTES)
    (h : decryptBytes P envelope key = .error e) : e = .decryption := by
  unfold decryptBytes at h
  rw [importKey_ok hk] at h
  simp only [bind, Except.bind, throw, throwThe, MonadExceptOf.throw, pure, Except.pure] at h
  repeat' split at h
  all_goals first
    | (cases h; done)
    | (cases h; rfl)

theorem deriveSealKey_length (C : Curve) (s epk pk : Bytes) : (C.deriveSealKey s epk pk).length = KEY_BYTES :=
  C.hkdf_length _ _

theorem openingKey_length {privateKey ephemeralPublicKey sealKey : Bytes}
    (h : C.openingKey privateKey ephemeralPublicKey = some sealKey) : sealKey.length = KEY_BYTES := by
  unfold Curve.openingKey at h
  simp only [bind, Option.bind_eq_some_iff, pure, Option.some.injEq] at h
  obtain ⟨-, -, -, -, rfl⟩ := h
  exact deriveSealKey_length C _ _ _

/-- A key, or an error that the caller can tell from a programming error. -/
def Typed : Except CryptoError Bytes → Prop
  | .ok opened => opened.length = SEALED_SECRET_BYTES
  | .error e => e = .decryption ∨ ∃ message, e = .malformedEnvelope message

/-- What is opened after all, or not, once the text has been read. -/
theorem openSealed_parsed {parsed : SealedKey} (hparsed : parseSealed P text = .ok parsed) (privateKey : Bytes) :
    Typed (openSealed P C text privateKey) := by
  obtain ⟨-, epk, -, -, -, hepk, -⟩ := parseSealed_ok hparsed
  unfold openSealed
  simp only [bind, Except.bind, hparsed, hepk]
  cases hkey : C.openingKey privateKey epk with
  | none => exact .inl rfl
  | some sealKey =>
    cases hopened : decryptBytes P ⟨parsed.n, parsed.ct⟩ sealKey with
    | error e =>
      simp only [hopened]
      exact .inl (decryptBytes_error (openingKey_length hkey) hopened)
    | ok opened =>
      simp only [hopened]
      by_cases hlen : opened.length = SEALED_SECRET_BYTES
      · rw [if_neg (not_not.mpr hlen)]
        exact hlen
      · rw [if_pos hlen]
        exact .inl rfl

theorem not_nameless {parsed : SealedKey} (h : parseSealed P text = .ok parsed) : ¬ Nameless text := by
  obtain ⟨raw, -, hraw, hv, halg, -⟩ := parseSealed_ok h
  rintro ⟨raw', hraw', hname⟩
  obtain rfl := Option.some.inj (hraw.symm.trans hraw')
  rw [any_of_isOne hv, any_of_isString halg] at hname
  simp at hname

theorem openSealed_typed (privateKey : Bytes) :
    Typed (openSealed P C text privateKey) ∧ ¬ Nameless text ∨
      openSealed P C text privateKey = .error .typeError ∧ Nameless text := by
  cases hparsed : parseSealed P text with
  | ok parsed => exact .inl ⟨openSealed_parsed hparsed privateKey, not_nameless hparsed⟩
  | error e =>
    have herror : openSealed P C text privateKey = .error e := by
      unfold openSealed
      rw [hparsed]
      rfl
    rw [herror]
    rcases parseSealed_error hparsed with ⟨hm, hname⟩ | ⟨rfl, hname⟩
    · exact .inl ⟨.inr hm, hname⟩
    · exact .inr ⟨rfl, hname⟩

end

/-! ## Sealed for one -/

section
variable {P : Platform} {C : Curve}

theorem parseSealed_serialize {sealed : SealedKey} {epk : Bytes} (hepk : sealed.epk = toBase64 epk)
    (hlen : epk.length = PUBLIC_KEY_BYTES) : parseSealed P (serializeSealed sealed) = .ok sealed := by
  obtain ⟨text, n, ct⟩ := sealed
  obtain rfl : text = toBase64 epk := hepk
  unfold parseSealed serializeSealed
  rw [parse_stringify]
  have hread : fromBase64 (toBase64 epk) = .ok epk := fromBase64_toBase64 epk
  change (match fromBase64 (toBase64 epk) with
    | .error _ => _
    | .ok ephemeralPublicKey => _) = _
  rw [hread]
  exact if_neg (not_not.mpr hlen)

variable (P) in
/-- The text `sealToUser` makes, when it makes one. -/
def sealedFor (draw : SealDraw) (secret epk sealKey : Bytes) : Text :=
  serializeSealed { epk := toBase64 epk, n := toBase64 draw.nonce.val
                    ct := toBase64 (P.encrypt sealKey draw.nonce.val secret) }

theorem decryptBytes_eq {key : Bytes} (hk : key.length = KEY_BYTES) (nonce ciphertext : Bytes) :
    decryptBytes P ⟨toBase64 nonce, toBase64 ciphertext⟩ key =
      match P.decrypt key nonce ciphertext with
      | some plaintext => .ok plaintext
      | none => .error .decryption := by
  unfold decryptBytes
  rw [importKey_ok hk]
  simp only [bind, Except.bind, fromBase64_toBase64]
  rfl

theorem sealToUser_ok (draw : SealDraw) (secret : Bytes) {recipient pk : Bytes}
    (hpk : C.getPublicKey recipient = some pk) :
    ∃ epk s, C.getPublicKey draw.ephemeral.val = some epk ∧ C.getSharedSecret recipient epk = some s ∧
      sealToUser P C draw secret pk = .ok (sealedFor P draw secret epk (C.deriveSealKey s epk pk)) := by
  obtain ⟨epk, hepk⟩ := Option.isSome_iff_exists.mp (C.public_some _ draw.ephemeral.property)
  obtain ⟨s, hs, hs'⟩ := C.agree hepk hpk
  refine ⟨epk, s, hepk, hs', ?_⟩
  have hlen : pk.length = PUBLIC_KEY_BYTES := C.public_length hpk
  have henc := encryptBytes_ok P (deriveSealKey_length C s epk pk) draw.nonce secret
  unfold encryptBytes at henc
  unfold sealToUser sealToUserWithEphemeral
  rw [if_neg (not_not.mpr hlen), hepk, hs]
  simp only [henc]
  rfl

theorem openSealed_sealedFor {draw : SealDraw} {secret epk sealKey : Bytes} (hlen : epk.length = PUBLIC_KEY_BYTES)
    (privateKey : Bytes) : openSealed P C (sealedFor P draw secret epk sealKey) privateKey =
      match (C.openingKey privateKey epk).bind
          fun k => P.decrypt k draw.nonce.val (P.encrypt sealKey draw.nonce.val secret) with
      | some opened => if opened.length = SEALED_SECRET_BYTES then .ok opened else .error .decryption
      | none => .error .decryption := by
  unfold openSealed sealedFor
  rw [parseSealed_serialize rfl hlen]
  simp only [bind, Except.bind, fromBase64_toBase64]
  cases hkey : C.openingKey privateKey epk with
  | none => rfl
  | some key =>
    simp only [Option.bind_some, decryptBytes_eq (openingKey_length hkey)]
    cases P.decrypt key draw.nonce.val (P.encrypt sealKey draw.nonce.val secret) with
    | none => rfl
    | some opened =>
      by_cases hsize : opened.length = SEALED_SECRET_BYTES
      · simp only [hsize, ne_eq, not_true_eq_false, if_false, if_true]
        rfl
      · simp only [hsize, ne_eq, not_false_eq_true, if_false, if_true]
        rfl

/-- A sealed key opens under the private keys of the public key it was sealed to, and under no other. -/
theorem openSealed_sealToUser (hauth : P.Authentic) (hsep : C.Separates) (draw : SealDraw) (secret : Bytes)
    {recipient pk : Bytes} (hpk : C.getPublicKey recipient = some pk) :
    ∃ blob, sealToUser P C draw secret pk = .ok blob ∧ ∀ privateKey, openSealed P C blob privateKey =
      if C.getPublicKey privateKey = some pk ∧ secret.length = SEALED_SECRET_BYTES then .ok secret
      else .error .decryption := by
  obtain ⟨epk, s, hepk, hs, hblob⟩ := sealToUser_ok (P := P) draw secret hpk
  refine ⟨_, hblob, fun privateKey => ?_⟩
  rw [openSealed_sealedFor (C.public_length hepk)]
  by_cases hmine : C.getPublicKey privateKey = some pk
  · -- both agree with the ephemeral key on one secret, however many private keys have this public key
    obtain ⟨s₁, hs₁, hs₁'⟩ := C.agree hepk hpk
    obtain ⟨s₂, hs₂, hs₂'⟩ := C.agree hepk hmine
    have hsame : s₂ = s := by
      rw [hs₁] at hs₂
      rw [hs₁'] at hs
      exact (Option.some.inj hs₂).symm.trans (Option.some.inj hs)
    subst hsame
    have hkey : C.openingKey privateKey epk = some (C.deriveSealKey s₂ epk pk) := by
      unfold Curve.openingKey
      rw [hmine, hs₂']
      rfl
    rw [hkey, Option.bind_some, P.decrypt_encrypt _ _ _ (deriveSealKey_length C _ _ _) draw.nonce.property]
    simp only [hmine, true_and]
  · rw [if_neg fun h => hmine h.1]
    cases hkey : C.openingKey privateKey epk with
    | none => rfl
    | some key =>
      unfold Curve.openingKey at hkey
      simp only [bind, Option.bind_eq_some_iff, pure, Option.some.injEq] at hkey
      obtain ⟨pk', hpk', s', hs', rfl⟩ := hkey
      have hne : C.deriveSealKey s' epk pk' ≠ C.deriveSealKey s epk pk := by
        intro he
        have hpks := hsep hpk' hpk hs' hs he
        exact hmine (hpks ▸ hpk')
      rw [Option.bind_some, hauth _ _ _ _ hne]

/-! ## As texts -/

theorem wellFormed_toBase64 (bytes : Bytes) : WellFormed (toBase64 bytes) := by
  have hletter : ∀ i < 64, (letter i).toNat < 0xD800 := by decide +kernel
  obtain ⟨n, hn⟩ := toBase64_letters bytes
  rw [hn]
  refine wellFormed_of_lt fun u hu => ?_
  rcases List.mem_append.mp hu with hu | hu
  · obtain ⟨i, hi, rfl⟩ := List.mem_map.mp hu
    exact hletter i (sextets_lt bytes i hi)
  · rw [List.eq_of_mem_replicate hu]
    decide

theorem wellFormed_sealToUser {draw : SealDraw} {secret recipient pk : Bytes} {blob : Text}
    (hpk : C.getPublicKey recipient = some pk) (h : sealToUser P C draw secret pk = .ok blob) :
    WellFormed blob := by
  obtain ⟨epk, s, -, -, hblob⟩ := sealToUser_ok (P := P) draw secret hpk
  rw [hblob] at h
  cases h
  exact wellFormed_stringify _

/-- No text is read as both, and a hostile one opens to 32 bytes or to an error that says so; only where it has
no name for its version or its algorithm the language throws instead. -/
theorem openSealed_hostile (P : Platform) (C : Curve) (text : Text) :
    (∀ privateKey, (¬ Nameless text → Typed (openSealed P C text privateKey)) ∧
      (Nameless text → openSealed P C text privateKey = .error .typeError)) ∧
      ¬ ((parseSealed P text).isOk = true ∧ (parseEnvelope P text).isOk = true) := by
  refine ⟨fun privateKey => ?_, fun ⟨hs, he⟩ => ?_⟩
  · rcases openSealed_typed privateKey with ⟨ht, hn⟩ | ⟨ht, hn⟩
    · exact ⟨fun _ => ht, fun h => absurd h hn⟩
    · exact ⟨fun h => absurd hn h, fun _ => ht⟩
  cases hsealed : parseSealed P text with
  | error e =>
    rw [hsealed] at hs
    cases hs
  | ok sealed =>
    cases henvelope : parseEnvelope P text with
    | error e =>
      rw [henvelope] at he
      cases he
    | ok envelope => exact not_sealed_and_envelope hsealed henvelope

example : Nameless (stringify (.object [(units "v", .object [(units "toString", .number 1 0)])])) :=
  ⟨_, parse_stringify _, .inl rfl⟩

/-! ## Between parents -/

variable (P) in
def rewrapItem (nonce : Random NONCE_BYTES) (encrypted : EncryptedItem) (fromParentKey toParentKey : Bytes) :
    Except CryptoError EncryptedItem := do
  let itemKey ← unwrapKey P encrypted.wrappedItemKey fromParentKey
  let wrappedItemKey ← wrapKey P nonce itemKey toParentKey
  return { ciphertext := encrypted.ciphertext, wrappedItemKey }

variable (P) in
def rewrapAlong (encrypted : EncryptedItem) (parentKey : Bytes) :
    List (Random NONCE_BYTES × Random KEY_BYTES) → Except CryptoError EncryptedItem
  | [] => .ok encrypted
  | (nonce, toParentKey) :: moves => do
    let moved ← rewrapItem P nonce encrypted parentKey toParentKey.val
    rewrapAlong moved toParentKey.val moves

theorem rewrapItem_ok {encrypted : EncryptedItem} {fromParentKey itemKey toParentKey : Bytes}
    (hitem : unwrapKey P encrypted.wrappedItemKey fromParentKey = .ok itemKey)
    (hto : toParentKey.length = KEY_BYTES) (nonce : Random NONCE_BYTES) :
    rewrapItem P nonce encrypted fromParentKey toParentKey =
      .ok { ciphertext := encrypted.ciphertext, wrappedItemKey := sealed P nonce itemKey toParentKey } := by
  unfold rewrapItem
  rw [hitem]
  simp only [bind, Except.bind, wrapKey_ok P hto]
  rfl

theorem rewrapAlong_ok {itemKey : Bytes} (last : Random NONCE_BYTES × Random KEY_BYTES)
    (moves : List (Random NONCE_BYTES × Random KEY_BYTES)) : ∀ {encrypted : EncryptedItem} {parentKey : Bytes},
    unwrapKey P encrypted.wrappedItemKey parentKey = .ok itemKey →
      rewrapAlong P encrypted parentKey (moves ++ [last]) =
        .ok { ciphertext := encrypted.ciphertext, wrappedItemKey := sealed P last.1 itemKey last.2.val } := by
  induction moves with
  | nil =>
    intro encrypted parentKey hitem
    rw [List.nil_append, rewrapAlong, rewrapItem_ok hitem last.2.property]
    rfl
  | cons move moves ih =>
    intro encrypted parentKey hitem
    rw [List.cons_append, rewrapAlong, rewrapItem_ok hitem move.2.property]
    exact ih (unwrapKey_sealed P move.2.property move.1 itemKey)

/-- Rewrapped any number of times an item is what it was under the last parent's key alone; to whoever kept the
first wrapping it stays open. -/
theorem rewrapAlong_opens (hauth : P.Authentic) {encrypted : EncryptedItem} {parentKey itemKey : Bytes}
    (hitem : unwrapKey P encrypted.wrappedItemKey parentKey = .ok itemKey)
    (moves : List (Random NONCE_BYTES × Random KEY_BYTES)) (nonce : Random NONCE_BYTES) (last : Random KEY_BYTES) :
    ∃ moved, rewrapAlong P encrypted parentKey (moves ++ [(nonce, last)]) = .ok moved ∧
      decryptItem P moved last.val = decryptItem P encrypted parentKey ∧
      (∀ key : Random KEY_BYTES, key ≠ last → decryptItem P moved key.val = .error .decryption) ∧
      ∀ ciphertext, decryptItem P { encrypted with ciphertext } parentKey =
        decryptItem P { moved with ciphertext } last.val := by
  have hopens := unwrapKey_sealed P last.property nonce itemKey
  refine ⟨_, rewrapAlong_ok (nonce, last) moves hitem, ?_, ?_, ?_⟩
  · unfold decryptItem
    rw [hitem, hopens]
  · intro key hne
    unfold decryptItem
    rw [unwrapKey_other hauth nonce itemKey key.property fun he => hne (Subtype.ext he)]
    rfl
  · intro ciphertext
    unfold decryptItem
    rw [hitem, hopens]

end

/-! A cipher that writes the key in front, and a curve on which every key is its own public key. -/

def framed (key : Bytes) : Bytes := key.flatMap ([1, ·]) ++ [0]

theorem framed_inj : ∀ {key' key plaintext : Bytes}, framed key' <+: framed key ++ plaintext → key' = key
  | [], [], _, _ => rfl
  | [], b :: key, _, h => by simp [framed] at h
  | b :: key', [], _, h => by simp [framed] at h
  | b :: key', c :: key, plaintext, h => by
    have hrest : b = c ∧ framed key' <+: framed key ++ plaintext := by
      simpa [framed, List.cons_prefix_cons] using h
    rw [hrest.1, framed_inj hrest.2]

def locked : Platform where
  encrypt key _ plaintext := framed key ++ plaintext
  decrypt key _ ciphertext := if framed key <+: ciphertext then some (ciphertext.drop (framed key).length) else none
  numberText mantissa _ := integer mantissa
  decrypt_encrypt key nonce plaintext _ _ := by simp

theorem locked_authentic : locked.Authentic := fun _ _ _ _ hne => if_neg fun h => hne (framed_inj h)

def plainCurve : Curve where
  getPublicKey a := if a.length = KEY_BYTES then some a else none
  getSharedSecret a B := some (List.zipWith (· + ·) a B)
  hkdf _ info := (List.replicate KEY_BYTES 0 ++ info).drop info.length
  public_some a h := by rw [if_pos h]; rfl
  public_length h := by
    obtain ⟨hlen, he⟩ := Option.ite_none_right_eq_some.mp h
    exact Option.some.inj he ▸ hlen
  agree ha hb := by
    obtain ⟨-, ha⟩ := Option.ite_none_right_eq_some.mp ha
    obtain ⟨-, hb⟩ := Option.ite_none_right_eq_some.mp hb
    cases ha
    cases hb
    exact ⟨_, rfl, congrArg some (List.zipWith_comm_of_comm UInt8.add_comm)⟩
  hkdf_length s info := by simp

theorem plainCurve_separates : plainCurve.Separates := by
  have hlast : ∀ s ephemeral recipient : Bytes, recipient.length = PUBLIC_KEY_BYTES →
      plainCurve.deriveSealKey s ephemeral recipient = recipient := by
    intro s ephemeral recipient hlen
    change (List.replicate KEY_BYTES 0 ++ (SEAL_INFO ++ ephemeral ++ recipient)).drop
      (SEAL_INFO ++ ephemeral ++ recipient).length = recipient
    rw [← List.append_assoc]
    apply List.drop_left'
    simp only [List.length_append, List.length_replicate, hlen, PUBLIC_KEY_BYTES, KEY_BYTES]
    omega
  intro a a' A A' epk s s' hA hA' _ _ he
  rw [hlast s epk A (plainCurve.public_length hA), hlast s' epk A' (plainCurve.public_length hA')] at he
  exact he

theorem plainCurve_zero : plainCurve.getPublicKey zeroKey.val = some zeroKey.val := by
  simp only [plainCurve, zeroKey.property, if_true]

theorem openSealed_sealToUser_zero :
    ∃ blob, sealToUser locked plainCurve ⟨zeroKey, zeroNonce⟩ zeroKey.val zeroKey.val = .ok blob ∧
      ∀ privateKey, openSealed locked plainCurve blob privateKey =
        if plainCurve.getPublicKey privateKey = some zeroKey.val ∧ zeroKey.val.length = SEALED_SECRET_BYTES then
          .ok zeroKey.val
        else .error .decryption :=
  openSealed_sealToUser locked_authentic plainCurve_separates _ _ plainCurve_zero

/-! A note goes from one parent to the next, and is edited after that. -/

def evenKey (b : UInt8) : Random KEY_BYTES := ⟨.replicate 32 b, rfl⟩

def memo (text : String) : ItemPlaintext := .note ⟨units "memo", units text, false, none⟩

/-- Under an item key of its own and the first parent's. -/
def boxed (text : String) : EncryptedItem where
  ciphertext := sealed locked zeroNonce (utf8Encode (stringify (memo text).toJson)) (evenKey 7).val
  wrappedItemKey := sealed locked zeroNonce (evenKey 7).val (evenKey 1).val

theorem boxed_key (text : String) :
    unwrapKey locked (boxed text).wrappedItemKey (evenKey 1).val = .ok (evenKey 7).val :=
  unwrapKey_sealed locked (evenKey 1).property zeroNonce (evenKey 7).val

theorem boxed_item (text : String) : decryptItem locked (boxed text) (evenKey 1).val = .ok (memo text) := by
  have hencrypted : encryptItem locked ⟨evenKey 7, zeroNonce, zeroNonce⟩ (memo text) (evenKey 1).val =
    .ok (boxed text) := by
    unfold encryptItem
    rw [encryptString_ok locked (evenKey 7).property, wrapKey_ok locked (evenKey 1).property]
    rfl
  have hopened := decryptItem_encryptItem locked ⟨evenKey 7, zeroNonce, zeroNonce⟩ (memo text) (evenKey 1).property
  rw [hencrypted, Except.bind] at hopened
  exact hopened

theorem rewrapAlong_opens_boxed :
    ∃ moved, rewrapAlong locked (boxed "first") (evenKey 1).val
        [(zeroNonce, evenKey 2), (zeroNonce, evenKey 3), (zeroNonce, evenKey 4)] = .ok moved ∧
      decryptItem locked moved (evenKey 4).val = .ok (memo "first") ∧
      decryptItem locked moved (evenKey 1).val = .error .decryption ∧
      decryptItem locked moved (evenKey 2).val = .error .decryption ∧
      -- the body is edited under the last parent, and the first wrapping opens it
      decryptItem locked { moved with ciphertext := (boxed "second").ciphertext } (evenKey 4).val =
        .ok (memo "second") := by
  obtain ⟨moved, hmoved, hsame, hother, hlater⟩ := rewrapAlong_opens locked_authentic (boxed_key "first")
    [(zeroNonce, evenKey 2), (zeroNonce, evenKey 3)] zeroNonce (evenKey 4)
  refine ⟨moved, hmoved, hsame.trans (boxed_item "first"), hother (evenKey 1) (by decide),
    hother (evenKey 2) (by decide), ?_⟩
  exact (hlater (boxed "second").ciphertext).symm.trans (boxed_item "second")

end Keyhole.Crypto
