import Keyhole.Lib.Unicode
import Mathlib.Data.Bool.AllAny
import Mathlib.Data.Nat.Digits.Lemmas

/-!
# JSON

Values, the grammar of their texts and one text of each value. Texts are code
units, so a string may hold a surrogate on its own; a number is its decimal
mantissa and exponent; the fields of an object are in the order of the text.
-/

inductive Json
  | null
  | bool (b : Bool)
  | number (mantissa exponent : Int)
  | string (s : List UInt16)
  | array (elements : List Json)
  | object (fields : List (List UInt16 × Json))

namespace Json
open Unicode

abbrev Units : Type := List UInt16

def unit (c : Char) : UInt16 := .ofNat c.toNat

def units (s : String) : Units := s.toList.map unit

/-! ## Reading -/

/-- Of what a language takes for white space JSON has only these. -/
def isBlank (c : UInt16) : Bool := c = unit ' ' || c = unit '\t' || c = unit '\n' || c = unit '\r'

def skip (t : Units) : Units := t.dropWhile isBlank

def expect (c : UInt16) (t : Units) : Option Units :=
  match skip t with
  | d :: t => if d = c then some t else none
  | [] => none

def isDigit (c : UInt16) : Bool := unit '0' ≤ c && c ≤ unit '9'

def digits (t : Units) : Units × Units := (t.takeWhile isDigit, t.dropWhile isDigit)

def natOf (ds : Units) : Nat := ds.foldl (fun n d => n * 10 + (d.toNat - 48)) 0

def sign (t : Units) : Bool × Units :=
  match t with
  | c :: t' => if c = unit '-' then (true, t') else (false, t)
  | [] => (false, [])

def signed (negative : Bool) (n : Nat) : Int := if negative then -n else n

def fraction (t : Units) : Option (Units × Units) :=
  match t with
  | c :: t' => if c = unit '.' then if (digits t').1 = [] then none else some (digits t') else some ([], t)
  | [] => some ([], [])

def exponent (t : Units) : Option (Int × Units) :=
  match t with
  | c :: t' =>
    if c = unit 'e' || c = unit 'E' then
      let (negative, t') := match t' with
        | d :: t'' => if d = unit '+' then (false, t'') else sign t'
        | [] => (false, [])
      if (digits t').1 = [] then none else some (signed negative (natOf (digits t').1), (digits t').2)
    else some (0, t)
  | [] => some (0, [])

/-- No digit but a nought alone begins with a nought. -/
def number? (t : Units) : Option (Json × Units) := do
  let (negative, t) := sign t
  let (int, t) := digits t
  if int = [] || (int.head? = some (unit '0') && int.length ≠ 1) then none
  let (frac, t) ← fraction t
  let (exp, t) ← exponent t
  pure (.number (signed negative (natOf (int ++ frac))) (exp - frac.length), t)

def hexValue (c : UInt16) : Option Nat :=
  if isDigit c then some (c.toNat - 48)
  else if unit 'a' ≤ c && c ≤ unit 'f' then some (c.toNat - 87)
  else if unit 'A' ≤ c && c ≤ unit 'F' then some (c.toNat - 55)
  else none

def hexUnit (a b c d : UInt16) : Option UInt16 := do
  pure (.ofNat ((((← hexValue a) * 16 + (← hexValue b)) * 16 + (← hexValue c)) * 16 + (← hexValue d)))

/-- The letters after a reverse solidus, and what they stand for. -/
def escapes : List (UInt16 × UInt16) :=
  [(unit '"', unit '"'), (unit '\\', unit '\\'), (unit '/', unit '/'), (unit 'b', 8), (unit 'f', 12),
    (unit 'n', 10),
    (unit 'r', 13), (unit 't', 9)]

def push (c : UInt16) (r : Option (Units × Units)) : Option (Units × Units) := r.map fun (s, t) => (c :: s, t)

def stringBody : Units → Option (Units × Units)
  | [] => none
  | c :: t =>
    if c = unit '"' then some ([], t)
    else if c = unit '\\' then
      match t with
      | [] => none
      | e :: t =>
        if e = unit 'u' then
          match t with
          | h₁ :: h₂ :: h₃ :: h₄ :: t => (hexUnit h₁ h₂ h₃ h₄).bind fun u => push u (stringBody t)
          | _ => none
        else (escapes.lookup e).bind fun u => push u (stringBody t)
    else if c < 0x20 then none
    else push c (stringBody t)

def word (w : Units) (j : Json) (t : Units) : Option (Json × Units) :=
  if w.isPrefixOf t then some (j, t.drop w.length) else none

-- every call is on a shorter text, so the length of the text is fuel enough
mutual

def value : (fuel : Nat) → Units → Option (Json × Units)
  | 0, _ => none
  | fuel + 1, t =>
    match skip t with
    | [] => none
    | c :: t' =>
      if c = unit '"' then (stringBody t').map fun (s, t) => (.string s, t)
      else if c = unit '{' then
        match expect (unit '}') t' with
        | some t => some (.object [], t)
        | none => (members fuel t').map fun (fields, t) => (.object fields, t)
      else if c = unit '[' then
        match expect (unit ']') t' with
        | some t => some (.array [], t)
        | none => (elements fuel t').map fun (xs, t) => (.array xs, t)
      else if c = unit 't' then word (units "true") (.bool true) (c :: t')
      else if c = unit 'f' then word (units "false") (.bool false) (c :: t')
      else if c = unit 'n' then word (units "null") .null (c :: t')
      else number? (c :: t')

def elements : (fuel : Nat) → Units → Option (List Json × Units)
  | 0, _ => none
  | fuel + 1, t => do
    let (x, t) ← value fuel t
    match expect (unit ',') t with
    | some t => (elements fuel t).map fun (xs, t) => (x :: xs, t)
    | none => (expect (unit ']') t).map fun t => ([x], t)

def members : (fuel : Nat) → Units → Option (List (Units × Json) × Units)
  | 0, _ => none
  | fuel + 1, t => do
    let (key, t) ← stringBody (← expect (unit '"') t)
    let (x, t) ← value fuel (← expect (unit ':') t)
    match expect (unit ',') t with
    | some t => (members fuel t).map fun (fields, t) => ((key, x) :: fields, t)
    | none => (expect (unit '}') t).map fun t => ([(key, x)], t)

end

/-- `none` where the text is not one value. -/
def parse (t : Units) : Option Json :=
  match value (t.length + 1) t with
  | some (j, rest) => if skip rest = [] then some j else none
  | none => none

def decimal (n : Nat) :
    Units := if n = 0 then [unit '0'] else (Nat.digits 10 n).reverse.map fun d => .ofNat (48 + d)

/-! ## What a program sees of a value -/

/-- Of a repeated name the last. -/
def get (j : Json) (key : Units) : Option Json :=
  match j with
  | object fields => fields.reverse.lookup key
  | _ => none

def setProperty (properties : List (Units × Json)) (field : Units × Json) : List (Units × Json) :=
  if properties.any (·.1 = field.1) then properties.map fun (key, x) => if key = field.1 then field else (key, x)
  else properties ++ [field]

/-- A name that is the decimal of an array index. -/
def arrayIndex? (key : Units) : Option Nat :=
  if decimal (natOf key) = key ∧ natOf key < 2 ^ 32 - 1 then some (natOf key) else none

/-- In the order of the language: the indices in ascending order, then the other names as they came. -/
def properties (fields : List (Units × Json)) : List (Units × Json) :=
  let all := fields.foldl setProperty []
  (all.filter fun field => (arrayIndex? field.1).isSome).mergeSort
      (fun left right => (arrayIndex? left.1).getD 0 ≤ (arrayIndex? right.1).getD 0) ++
    all.filter fun field => (arrayIndex? field.1).isNone

def isNull : Json → Bool
  | null => true
  | _ => false

mutual

/-- `String(value)`, where `numberText` writes a number. An object with a `toString` of its own, which nothing can
call, has no string, and asking for it throws. -/
def text (numberText : Int → Int → Units) : Json → Option Units
  | null => some (units "null")
  | bool b => some (units (if b then "true" else "false"))
  | number mantissa exponent => some (numberText mantissa exponent)
  | string s => some s
  | array xs => joined numberText xs
  | object fields => if fields.any (·.1 = units "toString") then none else some (units "[object Object]")

/-- `join` of an array: a `null` in it is nothing. -/
def joined (numberText : Int → Int → Units) : List Json → Option Units
  | [] => some []
  | [x] => if x.isNull then some [] else text numberText x
  | x :: y :: xs => (if x.isNull then some [] else text numberText x).bind fun first =>
    (joined numberText (y :: xs)).map fun rest => first ++ unit ',' :: rest

end

mutual

/-- An object with a `toString` of its own stands where the string of the value asks for it. -/
def hidesToString : Json → Bool
  | array xs => anyHidesToString xs
  | object fields => fields.any (·.1 = units "toString")
  | _ => false

def anyHidesToString : List Json → Bool
  | [] => false
  | x :: xs => hidesToString x || anyHidesToString xs

end

theorem element_eq_none {numberText : Int → Int → Units} {x : Json}
    (h : x.text numberText = none ↔ x.hidesToString = true) :
    (if x.isNull then some [] else x.text numberText) = none ↔ x.hidesToString = true := by
  cases x with
  | null => simp [isNull, hidesToString]
  | _ => exact h

mutual

theorem text_eq_none (numberText : Int → Int → Units) : (j : Json) →
    (j.text numberText = none ↔ j.hidesToString = true)
  | null => by simp [text, hidesToString]
  | bool b => by simp [text, hidesToString]
  | number m e => by simp [text, hidesToString]
  | string s => by simp [text, hidesToString]
  | array xs => by
    rw [text, hidesToString]
    exact joined_eq_none numberText xs
  | object fields => by
    rw [text, hidesToString]
    split
    · next h => simp [h]
    · next h => simp [h]

theorem joined_eq_none (numberText : Int → Int → Units) : (xs : List Json) →
    (joined numberText xs = none ↔ anyHidesToString xs = true)
  | [] => by simp [joined, anyHidesToString]
  | [x] => by
    rw [joined, anyHidesToString, anyHidesToString, Bool.or_false]
    exact element_eq_none (text_eq_none numberText x)
  | x :: y :: xs => by
    have hx := element_eq_none (text_eq_none numberText x)
    have hxs := joined_eq_none numberText (y :: xs)
    rw [joined, anyHidesToString, Bool.or_eq_true, ← hx, ← hxs]
    cases (if x.isNull then some [] else text numberText x) with
    | none => simp
    | some first => simp

end

/-- A number is read as a double. This is when it is the integer `n`, positive and below 2 ^ 52. -/
def roundsTo (mantissa exponent : Int) (n : Nat) : Bool :=
  let numerator := if 0 ≤ exponent then mantissa * 10 ^ exponent.toNat else mantissa
  let denominator : Int := if 0 ≤ exponent then 1 else 10 ^ (-exponent).toNat
  let ulp : Int := 2 ^ (n.log2 + 1)
  -- below a power of two doubles are twice as dense
  let below := if n = 2 ^ n.log2 then ulp / 2 else ulp
  (n * 2 ^ 54 - below) * denominator ≤ 2 ^ 54 * numerator && 2 ^ 54 * numerator ≤ (n * 2 ^ 54 + ulp) * denominator

/-! ## Writing -/

def hexDigit (n : Nat) : UInt16 := .ofNat (if n < 10 then 48 + n else 87 + n)

def unicodeEscape (u : UInt16) : Units :=
  let n := u.toNat
  [unit '\\', unit 'u', hexDigit (n / 4096), hexDigit (n / 256 % 16), hexDigit (n / 16 % 16), hexDigit (n % 16)]

def shortEscapes : List (UInt16 × UInt16) :=
  [(unit '"', unit '"'), (unit '\\', unit '\\'), (8, unit 'b'), (12, unit 'f'), (10, unit 'n'), (13, unit 'r'),
    (9, unit 't')]

/-- One code unit that is not half of a pair. -/
def quoteUnit (u : UInt16) : Units :=
  match shortEscapes.lookup u with
  | some e => [unit '\\', e]
  | none => if u < 0x20 || isHigh u || isLow u then unicodeEscape u else [u]

def quoteBody : Units → Units
  | [] => []
  | [u] => quoteUnit u
  | u :: v :: t => if isHigh u && isLow v then u :: v :: quoteBody t else quoteUnit u ++ quoteBody (v :: t)

def quote (s : Units) : Units := unit '"' :: (quoteBody s ++ [unit '"'])

def integer (i : Int) : Units := if i < 0 then unit '-' :: decimal i.natAbs else decimal i.natAbs

def exponentText (e : Int) : Units := if e = 0 then [] else unit 'e' :: integer e

mutual

def stringify : Json → Units
  | null => units "null"
  | bool b => units (if b then "true" else "false")
  | number mantissa exponent =>
    integer mantissa ++ exponentText exponent
  | string s => quote s
  | array xs => unit '[' :: (stringifyElements xs ++ [unit ']'])
  | object fields => unit '{' :: (stringifyMembers fields ++ [unit '}'])

def stringifyElements : List Json → Units
  | [] => []
  | [x] => stringify x
  | x :: y :: xs => stringify x ++ unit ',' :: stringifyElements (y :: xs)

def stringifyMembers : List (Units × Json) → Units
  | [] => []
  | [(key, x)] => quote key ++ unit ':' :: stringify x
  | (key, x) :: field :: fields => quote key ++ unit ':' ::
    (stringify x ++ unit ',' :: stringifyMembers (field :: fields))

end

/-! ## What is written is read back: numbers -/

theorem isDigit_ofNat : ∀ d < 10, isDigit (.ofNat (48 + d)) = true := by decide

theorem toNat_digit {d : Nat} (h : d < 10) : (UInt16.ofNat (48 + d)).toNat - 48 = d := by
  rw [UInt16.toNat_ofNat', Nat.mod_eq_of_lt (by omega), Nat.add_sub_cancel_left]

theorem isDigit_decimal {n : Nat} {c : UInt16} (h : c ∈ decimal n) : isDigit c = true := by
  unfold decimal at h
  split at h
  · rw [List.mem_singleton.mp h]
    rfl
  · obtain ⟨d, hd, rfl⟩ := List.mem_map.mp h
    exact isDigit_ofNat d (Nat.digits_lt_base (by omega) (List.mem_reverse.mp hd))

theorem natOf_map_reverse {ds : List Nat} (h : ∀ d ∈ ds, d < 10) :
    natOf (ds.reverse.map fun d => .ofNat (48 + d)) = Nat.ofDigits 10 ds := by
  unfold natOf
  induction ds with
  | nil => rfl
  | cons d ds ih =>
    rw [List.forall_mem_cons] at h
    rw [List.reverse_cons, List.map_append, List.foldl_append, ih h.2, Nat.ofDigits_cons]
    simp only [List.map_cons, List.map_nil, List.foldl_cons, List.foldl_nil, toNat_digit h.1]
    omega

@[simp] theorem natOf_decimal (n : Nat) : natOf (decimal n) = n := by
  unfold decimal
  split
  · next h => rw [h]; rfl
  · rw [natOf_map_reverse fun d hd => Nat.digits_lt_base (by omega) hd, Nat.ofDigits_digits]

theorem decimal_ne_nil (n : Nat) : decimal n ≠ [] := by
  unfold decimal
  split
  · simp
  · next h => simpa [Nat.digits_eq_nil_iff_eq_zero] using h

theorem decimal_cons (n : Nat) : ∃ c t, decimal n = c :: t ∧ isDigit c = true := by
  obtain ⟨c, t, h⟩ := List.exists_cons_of_ne_nil (decimal_ne_nil n)
  exact ⟨c, t, h, isDigit_decimal (h ▸ List.mem_cons_self)⟩

theorem head_decimal {n : Nat} (h : (decimal n).head? = some (unit '0')) : (decimal n).length = 1 := by
  unfold decimal at h ⊢
  split
  · rfl
  · next hn =>
    rw [if_neg hn] at h
    have hne : Nat.digits 10 n ≠ [] := Nat.digits_ne_nil_iff_ne_zero.mpr hn
    rw [List.head?_map, List.head?_reverse, List.getLast?_eq_getLast_of_ne_nil hne, Option.map_some,
      Option.some.injEq] at h
    have hlt : (Nat.digits 10 n).getLast hne < 10 := Nat.digits_lt_base (by omega) (List.getLast_mem hne)
    have hd := toNat_digit hlt
    rw [h] at hd
    exact absurd hd.symm (Nat.getLast_digit_ne_zero 10 hn)

def Closed (t : Units) : Prop :=
  ∀ c ∈ t.head?, isDigit c = false ∧ c ≠ unit '.' ∧ c ≠ unit 'e' ∧ c ≠ unit 'E'

theorem digits_append {ds t : Units} (hds : ∀ c ∈ ds, isDigit c = true)
    (ht : ∀ c ∈ t.head?, isDigit c = false) :
    digits (ds ++ t) = (ds, t) := by
  unfold digits
  have hstop : t.takeWhile isDigit = [] ∧ t.dropWhile isDigit = t := by
    cases t with
    | nil => exact ⟨rfl, rfl⟩
    | cons c t => simp [ht c rfl]
  rw [List.takeWhile_append_of_pos hds, List.dropWhile_append_of_pos hds, hstop.1, hstop.2, List.append_nil]

theorem ne_of_isDigit {c d : UInt16} (h : isDigit c = true) (hd : isDigit d = false) : c ≠ d := by
  rintro rfl
  rw [h] at hd
  cases hd

theorem sign_decimal (n : Nat) (t : Units) : sign (decimal n ++ t) = (false, decimal n ++ t) := by
  obtain ⟨c, ds, h, hc⟩ := decimal_cons n
  rw [h, List.cons_append, sign, if_neg (ne_of_isDigit hc rfl)]

theorem sign_integer (i : Int) (t : Units) :
    sign (integer i ++ t) = (decide (i < 0), decimal i.natAbs ++ t) := by
  unfold integer
  by_cases h : i < 0
  · simp [h, sign]
  · simp only [if_neg h, decide_eq_false h, sign_decimal]

theorem signed_natAbs (i : Int) : signed (decide (i < 0)) i.natAbs = i := by
  unfold signed
  by_cases h : i < 0
  · simp only [h, decide_true, if_true]
    omega
  · simp only [h, decide_false, Bool.false_eq_true, if_false]
    omega

theorem integer_cons (i : Int) : ∃ c t, integer i = c :: t ∧ (c = unit '-' ∨ isDigit c = true) := by
  unfold integer
  by_cases h : i < 0
  · exact ⟨_, _, if_pos h, .inl rfl⟩
  · obtain ⟨c, t, hd, hc⟩ := decimal_cons i.natAbs
    exact ⟨c, t, by rw [if_neg h, hd], .inr hc⟩

theorem fraction_closed {t : Units} (h : ∀ c ∈ t.head?, c ≠ unit '.') : fraction t = some ([], t) := by
  cases t with
  | nil => rfl
  | cons c t => rw [fraction, if_neg (h c rfl)]

theorem exponent_text (e : Int) {t : Units} (ht : Closed t) : exponent (exponentText e ++ t) = some (e, t) := by
  unfold exponentText
  by_cases he : e = 0
  · rw [if_pos he, List.nil_append, he]
    cases t with
    | nil => rfl
    | cons c t =>
      have hc := ht c rfl
      simp [exponent, hc.2.2.1, hc.2.2.2]
  · obtain ⟨c, ds, hi, hc⟩ := integer_cons e
    have hplus : c ≠ unit '+' := by
      cases hc with
      | inl h => rw [h]; decide
      | inr h => exact ne_of_isDigit h rfl
    have hdigits : digits (decimal e.natAbs ++ t) = (decimal e.natAbs, t) :=
      digits_append (fun _ => isDigit_decimal) fun c hc => (ht c hc).1
    have hsign := sign_integer e t
    rw [hi, List.cons_append] at hsign
    rw [if_neg he, hi, List.cons_append, List.cons_append, exponent]
    simp only [decide_true, Bool.true_or, if_true, if_neg hplus, hsign, hdigits, if_neg (decimal_ne_nil _),
      natOf_decimal,
      signed_natAbs]

theorem exponentText_head (e : Int) {t : Units} (ht : Closed t) :
    ∀ c ∈ (exponentText e ++ t).head?, isDigit c = false ∧ c ≠ unit '.' := by
  unfold exponentText
  by_cases he : e = 0
  · rw [if_pos he]
    exact fun c hc => ⟨(ht c hc).1, (ht c hc).2.1⟩
  · rw [if_neg he]
    intro c hc
    rw [List.cons_append, List.head?_cons, Option.mem_some_iff] at hc
    rw [← hc]
    exact ⟨rfl, by decide⟩

theorem number_written (m e : Int) {t : Units} (ht : Closed t) :
    number? (integer m ++ (exponentText e ++ t)) = some (.number m e, t) := by
  have hhead := exponentText_head e ht
  have hdigits : digits (decimal m.natAbs ++ (exponentText e ++ t)) = (decimal m.natAbs, exponentText e ++ t) :=
    digits_append (fun _ => isDigit_decimal) fun c hc => (hhead c hc).1
  have hnought : ((decimal m.natAbs).head? = some (unit '0') && (decimal m.natAbs).length ≠ 1 : Bool) = false := by
    by_cases h : (decimal m.natAbs).head? = some (unit '0')
    · simp [head_decimal h]
    · simp [h]
  unfold number?
  simp only [sign_integer, hdigits, decimal_ne_nil, hnought, decide_false, Bool.or_self,
    Bool.false_eq_true, if_false,
    fraction_closed fun c hc => (hhead c hc).2, exponent_text e ht, Option.bind_eq_bind, Option.bind_some,
      Option.pure_def,
    List.append_nil, natOf_decimal, signed_natAbs, List.length_nil, Nat.cast_zero, sub_zero]

/-! ## Strings -/

theorem hexValue_hexDigit : ∀ n < 16, hexValue (hexDigit n) = some n := by decide

theorem hexUnit_escape (u : UInt16) : hexUnit (hexDigit (u.toNat / 4096)) (hexDigit (u.toNat / 256 % 16))
    (hexDigit (u.toNat / 16 % 16)) (hexDigit (u.toNat % 16)) = some u := by
  have hu : u.toNat < 65536 := u.toNat_lt
  unfold hexUnit
  rw [hexValue_hexDigit _ (by omega), hexValue_hexDigit _ (by omega), hexValue_hexDigit _ (by omega),
    hexValue_hexDigit _ (by omega)]
  simp only [Option.bind_eq_bind, Option.bind_some, Option.pure_def]
  rw [show ((u.toNat / 4096 * 16 + u.toNat / 256 % 16) * 16 + u.toNat / 16 % 16) * 16 + u.toNat % 16 =
    u.toNat by omega,
    UInt16.ofNat_toNat]

theorem escapes_short : ∀ p ∈ shortEscapes, p.2 ≠ unit 'u' ∧ escapes.lookup p.2 = some p.1 :=
  List.all_iff_forall_prop.mp (by decide)

/-- Only what has a short escape may not stand for itself. -/
theorem plain {u : UInt16} (h : shortEscapes.lookup u = none) : u ≠ unit '"' ∧ u ≠ unit '\\' := by
  constructor <;> rintro rfl <;> cases h

theorem stringBody_plain {u : UInt16} (h : u ≠ unit '"' ∧ u ≠ unit '\\') (hc : ¬ u < 0x20) (t : Units) :
    stringBody (u :: t) = push u (stringBody t) := by
  rw [stringBody.eq_def]
  simp only [if_neg h.1, if_neg h.2, if_neg hc]

theorem stringBody_quoteUnit (u : UInt16) (t : Units) : stringBody (quoteUnit u ++ t) = push u (stringBody t) := by
  unfold quoteUnit
  split
  · next e he =>
    obtain ⟨before, after, hl, -⟩ := List.lookup_eq_some_iff.mp he
    have hshort := escapes_short (u, e) (by rw [hl]; simp)
    rw [List.cons_append, List.cons_append, List.nil_append, stringBody.eq_def]
    simp [hshort.1, hshort.2, show unit '\\' ≠ unit '"' by decide]
  · next hnone =>
    split
    · rw [unicodeEscape, List.cons_append, List.cons_append, List.cons_append, List.cons_append, List.cons_append,
        List.cons_append, List.nil_append, stringBody]
      simp [hexUnit_escape, show unit '\\' ≠ unit '"' by decide]
    · next hcontrol =>
      simp only [Bool.or_eq_true, decide_eq_true_eq, not_or] at hcontrol
      exact stringBody_plain (plain hnone) hcontrol.1.1 t

theorem stringBody_surrogate {u : UInt16} (h : 0xD800 ≤ u.toNat) (t : Units) :
    stringBody (u :: t) = push u (stringBody t) := by
  apply stringBody_plain
  · constructor <;> rintro rfl <;> revert h <;> decide
  · rw [UInt16.lt_iff_toNat_lt]
    exact fun hlt => absurd (Nat.lt_of_lt_of_le hlt (by decide : (0x20 : UInt16).toNat ≤ 0xD800)) (by omega)

theorem isHigh_ge {u : UInt16} (h : isHigh u = true) : 0xD800 ≤ u.toNat := by
  simp only [isHigh, Bool.and_eq_true, decide_eq_true_eq] at h
  exact h.1

theorem isLow_ge {u : UInt16} (h : isLow u = true) : 0xD800 ≤ u.toNat := by
  simp only [isLow, Bool.and_eq_true, decide_eq_true_eq] at h
  omega

@[simp] theorem stringBody_close (t : Units) : stringBody (unit '"' :: t) = some ([], t) := by
  rw [stringBody.eq_def]
  simp only [if_true]

theorem stringBody_quoteBody (s t : Units) : stringBody (quoteBody s ++ unit '"' :: t) = some (s, t) := by
  induction s using quoteBody.induct with
  | case1 => exact stringBody_close t
  | case2 u =>
    rw [quoteBody, stringBody_quoteUnit, stringBody_close]
    rfl
  | case3 u v s h ih =>
    have huv := (Bool.and_eq_true _ _).mp h
    rw [quoteBody, if_pos h, List.cons_append, List.cons_append, stringBody_surrogate (isHigh_ge huv.1),
      stringBody_surrogate (isLow_ge huv.2), ih]
    rfl
  | case4 u v s h ih =>
    rw [quoteBody, if_neg h, List.append_assoc, stringBody_quoteUnit, ih]
    rfl

/-! ## Values -/

theorem skip_cons {c : UInt16} (h : isBlank c = false) (t : Units) : skip (c :: t) = c :: t := by
  unfold skip
  rw [List.dropWhile_cons, if_neg (by simp [h])]

theorem expect_cons {c : UInt16} (h : isBlank c = false) (t : Units) : expect c (c :: t) = some t := by
  unfold expect
  rw [skip_cons h]
  simp

theorem expect_other {c d : UInt16} (h : isBlank d = false) (hd : d ≠ c) (t : Units) :
    expect c (d :: t) = none := by
  unfold expect
  rw [skip_cons h]
  simp [hd]

theorem closed_cons {c : UInt16} (h : isDigit c = false ∧ c ≠ unit '.' ∧ c ≠ unit 'e' ∧ c ≠ unit 'E')
    (t : Units) :
    Closed (c :: t) := by
  intro d hd
  rw [List.head?_cons, Option.mem_some_iff] at hd
  exact hd ▸ h

/-- How a value begins: with no blank, and with nothing that closes a list. -/
theorem stringify_cons (j : Json) : ∃ c t, stringify j = c :: t ∧ isBlank c = false ∧ c ≠ unit ']' := by
  cases j with
  | null => exact ⟨_, _, rfl, rfl, by decide⟩
  | bool b => cases b <;> exact ⟨_, _, rfl, rfl, by decide⟩
  | number m e =>
    obtain ⟨c, t, hi, hc⟩ := integer_cons m
    refine ⟨c, t ++ exponentText e, by rw [stringify, hi, List.cons_append], ?_⟩
    cases hc with
    | inl h => rw [h]; decide
    | inr h =>
      refine ⟨?_, ne_of_isDigit h rfl⟩
      simp [isBlank, @ne_of_isDigit c (unit ' ') h rfl, @ne_of_isDigit c (unit '\t') h rfl,
        @ne_of_isDigit c (unit '\n') h rfl, @ne_of_isDigit c (unit '\r') h rfl]
  | string s => exact ⟨_, _, by rw [stringify, quote], rfl, by decide⟩
  | array xs => exact ⟨_, _, by rw [stringify], rfl, by decide⟩
  | object fields => exact ⟨_, _, by rw [stringify], rfl, by decide⟩

theorem value_number (m e : Int) (fuel : Nat) {t : Units} (ht : Closed t) :
    value (fuel + 1) (integer m ++ (exponentText e ++ t)) = some (.number m e, t) := by
  obtain ⟨c, ds, hi, hc⟩ := integer_cons m
  have hother : ∀ d, d ≠ unit '-' → isDigit d = false → c ≠ d := by
    intro d hm hd
    cases hc with
    | inl h => exact h ▸ hm.symm
    | inr h => exact ne_of_isDigit h hd
  have hblank : isBlank c = false := by
    simp [isBlank, hother (unit ' ') (by decide) rfl, hother (unit '\t') (by decide) rfl,
      hother (unit '\n') (by decide) rfl, hother (unit '\r') (by decide) rfl]
  have hnumber := number_written m e ht
  rw [hi, List.cons_append] at hnumber ⊢
  rw [value, skip_cons hblank]
  simp only [if_neg (hother (unit '"') (by decide) rfl), if_neg (hother (unit '{') (by decide) rfl),
    if_neg (hother (unit '[') (by decide) rfl), if_neg (hother (unit 't') (by decide) rfl),
    if_neg (hother (unit 'f') (by decide) rfl), if_neg (hother (unit 'n') (by decide) rfl), hnumber]

theorem elements_cons (x : Json) (xs : List Json) : ∃ t, stringifyElements (x :: xs) = stringify x ++ t := by
  cases xs with
  | nil => exact ⟨[], by rw [stringifyElements, List.append_nil]⟩
  | cons y xs => exact ⟨_, by rw [stringifyElements]⟩

theorem members_cons (field : Units × Json) (fields : List (Units × Json)) :
    ∃ t, stringifyMembers (field :: fields) = unit '"' :: t := by
  cases fields with
  | nil => exact ⟨_, by rw [stringifyMembers, quote, List.cons_append]⟩
  | cons next fields => exact ⟨_, by rw [stringifyMembers, quote, List.cons_append]⟩

/-- What is written in no more than `fuel` code units is read back; a list takes a step of its own. -/
structure Inverts (fuel : Nat) : Prop where
  value : ∀ {j t}, (stringify j).length ≤ fuel → Closed t → value fuel (stringify j ++ t) = some (j, t)
  elements : ∀ {xs t}, xs ≠ [] → (stringifyElements xs).length + 1 ≤ fuel →
    elements fuel (stringifyElements xs ++ unit ']' :: t) = some (xs, t)
  members : ∀ {fields t}, fields ≠ [] → (stringifyMembers fields).length + 1 ≤ fuel →
    members fuel (stringifyMembers fields ++ unit '}' :: t) = some (fields, t)

section
variable {fuel : Nat} (ih : Inverts fuel)
include ih

theorem array_written {xs : List Json} {t : Units} (hf : (stringify (.array xs)).length ≤ fuel + 1) :
    value (fuel + 1) (stringify (.array xs) ++ t) = some (.array xs, t) := by
  rw [stringify] at hf ⊢
  rw [List.length_cons, List.length_append, List.length_singleton] at hf
  rw [List.cons_append, List.append_assoc, List.cons_append, List.nil_append, value, skip_cons rfl]
  cases xs with
  | nil =>
    have hclose : expect (unit ']') (stringifyElements [] ++ unit ']' :: t) = some t := by
      rw [stringifyElements, List.nil_append, expect_cons rfl]
    simp only [show unit '[' ≠ unit '"' by decide, show unit '[' ≠ unit '{' by decide, if_false, if_true, hclose]
  | cons x xs =>
    obtain ⟨tail, htail⟩ := elements_cons x xs
    obtain ⟨d, head, hd, hblank, hclose⟩ := stringify_cons x
    have hnone : expect (unit ']') (stringifyElements (x :: xs) ++ unit ']' :: t) = none := by
      rw [htail, hd, List.cons_append, List.cons_append, expect_other hblank hclose]
    have hlist := ih.elements (t := t) (List.cons_ne_nil x xs) (by omega)
    simp only [show unit '[' ≠ unit '"' by decide, show unit '[' ≠ unit '{' by decide, if_false, if_true,
      hnone, hlist,
      Option.map_some]

theorem object_written {fields : List (Units × Json)} {t : Units}
    (hf : (stringify (.object fields)).length ≤ fuel + 1) :
    value (fuel + 1) (stringify (.object fields) ++ t) = some (.object fields, t) := by
  rw [stringify] at hf ⊢
  rw [List.length_cons, List.length_append, List.length_singleton] at hf
  rw [List.cons_append, List.append_assoc, List.cons_append, List.nil_append, value, skip_cons rfl]
  cases fields with
  | nil =>
    have hclose : expect (unit '}') (stringifyMembers [] ++ unit '}' :: t) = some t := by
      rw [stringifyMembers, List.nil_append, expect_cons rfl]
    simp only [show unit '{' ≠ unit '"' by decide, if_false, if_true, hclose]
  | cons field fields =>
    obtain ⟨tail, htail⟩ := members_cons field fields
    have hnone : expect (unit '}') (stringifyMembers (field :: fields) ++ unit '}' :: t) = none := by
      rw [htail, List.cons_append, expect_other rfl (by decide)]
    have hlist := ih.members (t := t) (List.cons_ne_nil field fields) (by omega)
    simp only [show unit '{' ≠ unit '"' by decide, if_false, if_true, hnone, hlist, Option.map_some]

theorem value_written {j : Json} {t : Units} (hf : (stringify j).length ≤ fuel + 1) (ht : Closed t) :
    value (fuel + 1) (stringify j ++ t) = some (j, t) := by
  cases j with
  | null =>
    rw [stringify, value.eq_def]
    rfl
  | bool b =>
    cases b
    all_goals
      rw [stringify, value.eq_def]
      rfl
  | number m e => rw [stringify, List.append_assoc, value_number m e fuel ht]
  | string s =>
    rw [stringify, quote, List.cons_append, value, skip_cons rfl, List.append_assoc]
    simp only [if_true, List.cons_append, List.nil_append, stringBody_quoteBody, Option.map_some]
  | array xs => exact array_written ih hf
  | object fields => exact object_written ih hf

theorem elements_written {xs : List Json} {t : Units} (hne : xs ≠ [])
    (hf : (stringifyElements xs).length + 1 ≤ fuel + 1) :
    elements (fuel + 1) (stringifyElements xs ++ unit ']' :: t) = some (xs, t) := by
  match xs with
  | [x] =>
    rw [stringifyElements] at hf ⊢
    rw [elements, ih.value (by omega) (closed_cons (by decide) t)]
    simp [expect_other (c := unit ',') (d := unit ']') rfl (by decide), expect_cons (c := unit ']') rfl]
  | x :: y :: xs =>
    rw [stringifyElements, List.length_append, List.length_cons] at hf
    rw [stringifyElements, List.append_assoc, List.cons_append, elements,
      ih.value (by omega) (closed_cons (by decide) _)]
    have hxs := ih.elements (t := t) (List.cons_ne_nil y xs) (by omega)
    simp [expect_cons (c := unit ',') rfl, hxs]

theorem members_written {fields : List (Units × Json)} {t : Units} (hne : fields ≠ [])
    (hf : (stringifyMembers fields).length + 1 ≤ fuel + 1) :
    members (fuel + 1) (stringifyMembers fields ++ unit '}' :: t) = some (fields, t) := by
  match fields with
  | [(key, x)] =>
    rw [stringifyMembers, List.length_append, List.length_cons] at hf
    have hx := ih.value (j := x) (by omega) (closed_cons (c := unit '}') (by decide) t)
    rw [stringifyMembers, List.append_assoc, List.cons_append, members, quote, List.cons_append, List.append_assoc,
      List.cons_append, List.nil_append]
    simp [expect_cons (c := unit '"') rfl, stringBody_quoteBody, expect_cons (c := unit ':') rfl, hx,
      expect_other (c := unit ',') (d := unit '}') rfl (by decide), expect_cons (c := unit '}') rfl]
  | (key, x) :: field :: fields =>
    rw [stringifyMembers, List.length_append, List.length_cons, List.length_append, List.length_cons] at hf
    have hx := ih.value (j := x) (by omega)
      (closed_cons (c := unit ',') (by decide) (stringifyMembers (field :: fields) ++ unit '}' :: t))
    have hxs := ih.members (t := t) (List.cons_ne_nil field fields) (by omega)
    rw [stringifyMembers, List.append_assoc, List.cons_append, List.append_assoc, List.cons_append, members, quote,
      List.cons_append, List.append_assoc, List.cons_append, List.nil_append]
    simp [expect_cons (c := unit '"') rfl, stringBody_quoteBody, expect_cons (c := unit ':') rfl, hx,
      expect_cons (c := unit ',') rfl, hxs]

end

theorem inverts (fuel : Nat) : Inverts fuel := by
  induction fuel with
  | zero =>
    constructor
    · intro j t hf
      obtain ⟨c, head, hhead, -, -⟩ := stringify_cons j
      rw [hhead] at hf
      cases hf
    · intro xs t _ hf
      cases hf
    · intro fields t _ hf
      cases hf
  | succ fuel ih => exact ⟨value_written ih, elements_written ih, members_written ih⟩

theorem parse_stringify (j : Json) : parse (stringify j) = some j := by
  have hclosed : Closed [] := fun c hc => by cases hc
  have h := (inverts _).value (Nat.le_succ (stringify j).length) hclosed
  rw [List.append_nil] at h
  unfold parse
  rw [h]
  rfl

/-! ## More fuel, and white space before a value -/

/-- What is read is read with one more unit of fuel. -/
structure Settled (fuel : Nat) : Prop where
  value : ∀ {t r}, value fuel t = some r → value (fuel + 1) t = some r
  elements : ∀ {t r}, elements fuel t = some r → elements (fuel + 1) t = some r
  members : ∀ {t r}, members fuel t = some r → members (fuel + 1) t = some r

section
variable {fuel : Nat} (ih : Settled fuel)
include ih

theorem value_settled {t : Units} {r : Json × Units} (h : value (fuel + 1) t = some r) :
    value (fuel + 2) t = some r := by
  rw [value] at h ⊢
  cases hskip : skip t with
  | nil =>
    rw [hskip] at h
    cases h
  | cons c t' =>
    rw [hskip] at h
    simp only at h ⊢
    by_cases hquote : c = unit '"'
    · rw [if_pos hquote] at h ⊢
      exact h
    rw [if_neg hquote] at h ⊢
    by_cases hobject : c = unit '{'
    · rw [if_pos hobject] at h ⊢
      cases hclose : expect (unit '}') t' with
      | some rest => simpa only [hclose] using h
      | none =>
        simp only [hclose, Option.map_eq_some_iff] at h ⊢
        obtain ⟨read, hread, rfl⟩ := h
        exact ⟨read, ih.members hread, rfl⟩
    rw [if_neg hobject] at h ⊢
    by_cases harray : c = unit '['
    · rw [if_pos harray] at h ⊢
      cases hclose : expect (unit ']') t' with
      | some rest => simpa only [hclose] using h
      | none =>
        simp only [hclose, Option.map_eq_some_iff] at h ⊢
        obtain ⟨read, hread, rfl⟩ := h
        exact ⟨read, ih.elements hread, rfl⟩
    rw [if_neg harray] at h ⊢
    exact h

theorem elements_settled {t : Units} {r : List Json × Units} (h : elements (fuel + 1) t = some r) :
    elements (fuel + 2) t = some r := by
  rw [elements] at h ⊢
  obtain ⟨⟨x, rest⟩, hx, h⟩ := Option.bind_eq_some_iff.mp h
  rw [ih.value hx]
  simp only [Option.bind_eq_bind, Option.bind_some] at h ⊢
  cases hcomma : expect (unit ',') rest with
  | none => simpa only [hcomma] using h
  | some rest =>
    simp only [hcomma, Option.map_eq_some_iff] at h ⊢
    obtain ⟨read, hread, rfl⟩ := h
    exact ⟨read, ih.elements hread, rfl⟩

theorem members_settled {t : Units} {r : List (Units × Json) × Units} (h : members (fuel + 1) t = some r) :
    members (fuel + 2) t = some r := by
  rw [members] at h ⊢
  obtain ⟨name, hname, h⟩ := Option.bind_eq_some_iff.mp h
  obtain ⟨⟨key, rest⟩, hkey, h⟩ := Option.bind_eq_some_iff.mp h
  obtain ⟨after, hcolon, h⟩ := Option.bind_eq_some_iff.mp h
  obtain ⟨⟨x, rest'⟩, hx, h⟩ := Option.bind_eq_some_iff.mp h
  simp only [hname, hkey, hcolon, ih.value hx, Option.bind_eq_bind, Option.bind_some] at h ⊢
  cases hcomma : expect (unit ',') rest' with
  | none => simpa only [hcomma] using h
  | some rest =>
    simp only [hcomma, Option.map_eq_some_iff] at h ⊢
    obtain ⟨read, hread, rfl⟩ := h
    exact ⟨read, ih.members hread, rfl⟩

end

theorem settled (fuel : Nat) : Settled fuel := by
  induction fuel with
  | zero => exact ⟨nofun, nofun, nofun⟩
  | succ fuel ih => exact ⟨value_settled ih, elements_settled ih, members_settled ih⟩

theorem value_le {fuel fuel' : Nat} (hf : fuel ≤ fuel') {t : Units} {r : Json × Units} (h : value fuel t = some r) :
    value fuel' t = some r := by
  induction hf with
  | refl => exact h
  | step _ ih => exact (settled _).value ih

theorem parse_blank {blank t : Units} (hblank : ∀ c ∈ blank, isBlank c = true) {j : Json} (h : parse t = some j) :
    parse (blank ++ t) = some j := by
  unfold parse at h ⊢
  have hskip : skip (blank ++ t) = skip t := List.dropWhile_append_of_pos hblank
  have hvalue : value ((blank ++ t).length + 1) (blank ++ t) = value ((blank ++ t).length + 1) t := by
    rw [value, value, hskip]
  rw [hvalue]
  cases hv : value (t.length + 1) t with
  | none =>
    rw [hv] at h
    cases h
  | some r =>
    rw [value_le (by simp) hv]
    rw [hv] at h
    exact h

def Begins (c : UInt16) : Prop :=
  c = unit '"' ∨ c = unit '{' ∨ c = unit '[' ∨ c = unit 't' ∨ c = unit 'f' ∨ c = unit 'n' ∨ c = unit '-' ∨
    isDigit c = true

theorem parse_other {t : Units} {c : UInt16} {rest : Units} (hskip : skip t = c :: rest) (hc : ¬ Begins c) :
    parse t = none := by
  simp only [Begins, not_or, Bool.not_eq_true] at hc
  obtain ⟨hquote, hobject, harray, ht, hf, hn, hminus, hdigit⟩ := hc
  have hnumber : number? (c :: rest) = none := by
    simp [number?, sign, hminus, digits, hdigit]
  unfold parse
  rw [value, hskip]
  simp only [hquote, hobject, harray, ht, hf, hn, if_false, hnumber]

/-! ## A written text is well formed, whatever its strings are -/

theorem digit_lt {c : UInt16} (h : isDigit c = true) : c.toNat < 0xD800 := by
  simp only [isDigit, Bool.and_eq_true, decide_eq_true_eq, UInt16.le_iff_toNat_le] at h
  exact Nat.lt_of_le_of_lt h.2 (by decide)

theorem integer_lt (i : Int) : ∀ c ∈ integer i, c.toNat < 0xD800 := by
  unfold integer
  split
  · rw [List.forall_mem_cons]
    exact ⟨by decide, fun c hc => digit_lt (isDigit_decimal hc)⟩
  · exact fun c hc => digit_lt (isDigit_decimal hc)

theorem exponentText_lt (e : Int) : ∀ c ∈ exponentText e, c.toNat < 0xD800 := by
  unfold exponentText
  split
  · exact fun c hc => by cases hc
  · rw [List.forall_mem_cons]
    exact ⟨by decide, integer_lt e⟩

theorem hexDigit_lt : ∀ n < 16, (hexDigit n).toNat < 0xD800 := by decide

theorem unicodeEscape_lt (u : UInt16) : ∀ c ∈ unicodeEscape u, c.toNat < 0xD800 := by
  have hu : u.toNat < 65536 := u.toNat_lt
  unfold unicodeEscape
  simp only [List.forall_mem_cons, List.not_mem_nil, IsEmpty.forall_iff, implies_true, and_true]
  exact ⟨by decide, by decide, hexDigit_lt _ (by omega), hexDigit_lt _ (by omega), hexDigit_lt _ (by omega),
    hexDigit_lt _ (by omega)⟩

theorem shortEscapes_lt : ∀ p ∈ shortEscapes, p.2.toNat < 0xD800 := List.all_iff_forall_prop.mp (by decide)

theorem wellFormed_quoteUnit (u : UInt16) : WellFormed (quoteUnit u) := by
  unfold quoteUnit
  split
  · next e he =>
    obtain ⟨before, after, hl, -⟩ := List.lookup_eq_some_iff.mp he
    have hlt := shortEscapes_lt (u, e) (by rw [hl]; simp)
    apply wellFormed_of_lt
    simpa using ⟨by decide, hlt⟩
  · split
    · exact wellFormed_of_lt (unicodeEscape_lt u)
    · next h =>
      simp only [Bool.or_eq_true, decide_eq_true_eq, not_or, Bool.not_eq_true] at h
      exact wellFormed_single h.1.2 h.2

theorem wellFormed_quoteBody (s : Units) : WellFormed (quoteBody s) := by
  induction s using quoteBody.induct with
  | case1 => exact wellFormed_nil
  | case2 u => exact wellFormed_quoteUnit u
  | case3 u v s h ih =>
    have huv := (Bool.and_eq_true _ _).mp h
    rw [quoteBody, if_pos h]
    exact (wellFormed_pair huv.1 huv.2).append ih
  | case4 u v s h ih =>
    rw [quoteBody, if_neg h]
    exact (wellFormed_quoteUnit u).append ih

theorem wellFormed_unit {c : UInt16} (h : c.toNat < 0xD800) : WellFormed [c] :=
  wellFormed_of_lt (by simpa using h)

theorem wellFormed_quote (s : Units) : WellFormed (quote s) :=
  (wellFormed_unit (by decide)).append ((wellFormed_quoteBody s).append (wellFormed_unit (by decide)))

mutual

theorem wellFormed_stringify : (j : Json) → WellFormed (stringify j)
  | null => by
    rw [stringify]
    exact wellFormed_of_lt (List.all_iff_forall_prop.mp (by decide))
  | bool b => by
    rw [stringify]
    cases b <;> exact wellFormed_of_lt (List.all_iff_forall_prop.mp (by decide))
  | number m e => by
    rw [stringify]
    exact (wellFormed_of_lt (integer_lt m)).append (wellFormed_of_lt (exponentText_lt e))
  | string s => by
    rw [stringify]
    exact wellFormed_quote s
  | array xs => by
    rw [stringify]
    exact (wellFormed_unit (by decide)).append ((wellFormed_elements xs).append (wellFormed_unit (by decide)))
  | object fields => by
    rw [stringify]
    exact (wellFormed_unit (by decide)).append ((wellFormed_members fields).append (wellFormed_unit (by decide)))

theorem wellFormed_elements : (xs : List Json) → WellFormed (stringifyElements xs)
  | [] => wellFormed_nil
  | [x] => by
    rw [stringifyElements]
    exact wellFormed_stringify x
  | x :: y :: xs => by
    rw [stringifyElements]
    exact (wellFormed_stringify x).append ((wellFormed_unit (by decide)).append (wellFormed_elements (y :: xs)))

theorem wellFormed_members : (fields : List (Units × Json)) → WellFormed (stringifyMembers fields)
  | [] => wellFormed_nil
  | [(key, x)] => by
    rw [stringifyMembers]
    exact (wellFormed_quote key).append ((wellFormed_unit (by decide)).append (wellFormed_stringify x))
  | (key, x) :: field :: fields => by
    rw [stringifyMembers]
    exact (wellFormed_quote key).append ((wellFormed_unit (by decide)).append
      ((wellFormed_stringify x).append
        ((wellFormed_unit (by decide)).append (wellFormed_members (field :: fields)))))

end

end Json
