/-
# JSON as `encoding/json` writes it, and why it can be cut from a stream

Integers in decimal, strings with the escapes of `json.Marshal`, objects with their members in
order. The words of the characters are prefix-free (`jsonChar_inj`) and none starts with a quote, so
a string ends at its closing quote; an integer ends at the first byte that is not a digit. So a
value is determined by any stream it stands at the front of (`JsonValue.unique`), and an object ends
at its own brace (`jsonObject_unique`).
-/
import Mathlib.Data.Nat.Digits.Defs
import Scrap.Lib.Text

namespace Scrap.Json

open Text

/-! ## Characters -/

def hexDigit (n : Nat) : UInt8 := if n < 10 then UInt8.ofNat (48 + n) else UInt8.ofNat (87 + n)

/-- The escape of a character, if it has one. `json.Marshal` also escapes what HTML gives a meaning
to, and the line separators that JavaScript does not take. -/
def jsonEscape (c : Char) : Option (List UInt8) :=
  let n := c.toNat
  if n = 0x22 ∨ n = 0x5c then some [0x5c, UInt8.ofNat n]
  else if n = 0x08 then some [0x5c, 0x62]
  else if n = 0x0c then some [0x5c, 0x66]
  else if n = 0x0a then some [0x5c, 0x6e]
  else if n = 0x0d then some [0x5c, 0x72]
  else if n = 0x09 then some [0x5c, 0x74]
  else if n < 0x20 ∨ n = 0x3c ∨ n = 0x3e ∨ n = 0x26 then
    some [0x5c, 0x75, 0x30, 0x30, hexDigit (n / 16), hexDigit (n % 16)]
  else if n = 0x2028 ∨ n = 0x2029 then
    some [0x5c, 0x75, 0x32, 0x30, 0x32, hexDigit (n % 16)]
  else none

def jsonChar (c : Char) : List UInt8 := (jsonEscape c).getD (String.utf8EncodeChar c)

/-- The code points that are escaped, with some that are not. -/
def escapeRange : List Nat := List.range 0x60 ++ [0x2028, 0x2029]

variable {c d : Char} {ms ms' : List (String × List UInt8)} {r s w r' : List UInt8} {b : UInt8}

theorem mem_escapeRange (h : jsonEscape c ≠ none) : c.toNat ∈ escapeRange := by
  by_contra hout
  simp only [escapeRange, List.mem_append, List.mem_range, List.mem_cons] at hout
  refine h ?_
  unfold jsonEscape
  rw [if_neg (by omega), if_neg (by omega), if_neg (by omega), if_neg (by omega),
    if_neg (by omega), if_neg (by omega), if_neg (by omega), if_neg (by omega)]

theorem escapes_apart : ∀ m ∈ escapeRange, ∀ n ∈ escapeRange,
    ∀ v ∈ jsonEscape (Char.ofNat m), ∀ w ∈ jsonEscape (Char.ofNat n), v <+: w → m = n := by
  decide +kernel

theorem head?_jsonEscape (h : jsonEscape c = some w) :
    w.head? = some 0x5c := by
  unfold jsonEscape at h
  simp only at h
  split_ifs at h <;> (rw [← Option.some.inj h]; rfl)

theorem utf8EncodeChar_inj (h : String.utf8EncodeChar c ++ r = String.utf8EncodeChar d ++ s) :
    c = d ∧ r = s := by
  have hc := ByteArray.utf8DecodeChar?_utf8EncodeChar_append (b := r.toByteArray) (c := c)
  have hd := ByteArray.utf8DecodeChar?_utf8EncodeChar_append (b := s.toByteArray) (c := d)
  rw [← List.toByteArray_append, h, List.toByteArray_append, hd] at hc
  have hcd : d = c := Option.some.inj hc
  subst hcd
  exact ⟨rfl, List.append_cancel_left h⟩

/-- A character that is not escaped does not start with a quote or a backslash. -/
theorem head?_utf8EncodeChar (h : jsonEscape c = none) :
    (String.utf8EncodeChar c).head? ≠ some 0x22 ∧ (String.utf8EncodeChar c).head? ≠ some 0x5c := by
  have hn : c.toNat ≠ 0x22 ∧ c.toNat ≠ 0x5c := by
    constructor
    · intro hc
      simp [jsonEscape, hc] at h
    · intro hc
      simp [jsonEscape, hc] at h
  constructor
  · intro hb
    rcases toNat_ge_of_mem_utf8EncodeChar (List.mem_of_mem_head? hb) with heq | hge
    · exact hn.1 heq.symm
    · exact absurd hge (by decide)
  · intro hb
    rcases toNat_ge_of_mem_utf8EncodeChar (List.mem_of_mem_head? hb) with heq | hge
    · exact hn.2 heq.symm
    · exact absurd hge (by decide)

theorem jsonChar_ne_nil (c : Char) : jsonChar c ≠ [] := by
  unfold jsonChar
  cases h : jsonEscape c with
  | none => exact String.utf8EncodeChar_ne_nil
  | some w => ?_
  have hw := head?_jsonEscape h
  intro hnil
  have hnil' : w = [] := hnil
  simp [hnil'] at hw

theorem head?_append_of_head? {α : Type} {w r : List α} {a : α} (h : w.head? = some a) :
    (w ++ r).head? = some a := by
  cases w with
  | nil => simp at h
  | cons b w => exact h

theorem head?_jsonChar (c : Char) : (jsonChar c).head? ≠ some 0x22 := by
  unfold jsonChar
  cases h : jsonEscape c with
  | none => exact (head?_utf8EncodeChar h).1
  | some w => ?_
  show w.head? ≠ some 0x22
  rw [head?_jsonEscape h]
  decide

theorem escape_ne_raw {v : List UInt8} (hc : jsonEscape c = some v) (hd : jsonEscape d = none) :
    v ++ r ≠ String.utf8EncodeChar d ++ s := by
  intro h
  have hv := head?_append_of_head? (r := r) (head?_jsonEscape hc)
  obtain ⟨b, w, hw⟩ := List.exists_cons_of_ne_nil (String.utf8EncodeChar_ne_nil)
  rw [h, hw] at hv
  refine (head?_utf8EncodeChar hd).2 ?_
  rw [hw]
  exact hv

theorem jsonChar_inj (h : jsonChar c ++ r = jsonChar d ++ s) : c = d ∧ r = s := by
  unfold jsonChar at h
  cases hc : jsonEscape c with
  | none =>
    cases hd : jsonEscape d with
    | none => exact utf8EncodeChar_inj (by simpa [hc, hd] using h)
    | some w =>
      rw [hc, hd] at h
      exact absurd h.symm (escape_ne_raw hd hc)
  | some v =>
    cases hd : jsonEscape d with
    | none =>
      rw [hc, hd] at h
      exact absurd h (escape_ne_raw hc hd)
    | some w =>
      rw [hc, hd] at h
      have hcmem := mem_escapeRange (c := c) (by simp [hc])
      have hdmem := mem_escapeRange (c := d) (by simp [hd])
      have hcv : v ∈ jsonEscape (Char.ofNat c.toNat) := by simp [hc]
      have hdw : w ∈ jsonEscape (Char.ofNat d.toNat) := by simp [hd]
      have hcd : c.toNat = d.toNat := by
        rcases List.prefix_or_prefix_of_prefix (List.prefix_append v r)
            (h ▸ List.prefix_append w s) with hp | hp
        · exact escapes_apart _ hcmem _ hdmem v hcv w hdw hp
        · exact (escapes_apart _ hdmem _ hcmem w hdw v hcv hp).symm
      have hcd' : c = d := Char.toNat_inj.mp hcd
      subst hcd'
      rw [hc] at hd
      have hvw : v = w := Option.some.inj hd
      subst hvw
      exact ⟨rfl, List.append_cancel_left h⟩

/-! ## Strings and integers -/

def jsonString (s : String) : List UInt8 := 0x22 :: s.toList.flatMap jsonChar ++ [0x22]

theorem quote_ne_jsonChars {c : Char} {l : List Char} {r r' : List UInt8} :
    0x22 :: r ≠ (c :: l).flatMap jsonChar ++ 0x22 :: r' := by
  intro h
  rw [List.flatMap_cons, List.append_assoc] at h
  obtain ⟨b, w, hw⟩ := List.exists_cons_of_ne_nil (jsonChar_ne_nil c)
  rw [hw] at h
  refine absurd ?_ (head?_jsonChar c)
  rw [hw, ← (List.cons.inj h).1]
  rfl

theorem jsonChars_inj : ∀ {l l' : List Char} {r r' : List UInt8},
    l.flatMap jsonChar ++ 0x22 :: r = l'.flatMap jsonChar ++ 0x22 :: r' → l = l' ∧ r = r'
  | [], [], _, _, h => ⟨rfl, (List.cons.inj h).2⟩
  | [], _ :: _, _, _, h => absurd h quote_ne_jsonChars
  | _ :: _, [], _, _, h => absurd h.symm quote_ne_jsonChars
  | c :: l, d :: l', r, r', h => by
    rw [List.flatMap_cons, List.flatMap_cons, List.append_assoc, List.append_assoc] at h
    obtain ⟨hcd, hrest⟩ := jsonChar_inj h
    obtain ⟨hl, hr⟩ := jsonChars_inj hrest
    exact ⟨by rw [hcd, hl], hr⟩

theorem jsonString_inj {s t : String} (h : jsonString s ++ r = jsonString t ++ r') :
    s = t ∧ r = r' := by
  unfold jsonString at h
  simp only [List.append_assoc] at h
  obtain ⟨hst, hr⟩ := jsonChars_inj (List.cons.inj h).2
  exact ⟨String.toList_inj.mp hst, hr⟩

def decimal (n : Nat) : List UInt8 :=
  if n = 0 then [0x30] else ((Nat.digits 10 n).map (fun d => UInt8.ofNat (48 + d))).reverse

def jsonInt (v : Int) : List UInt8 :=
  if v < 0 then 0x2d :: decimal v.natAbs else decimal v.natAbs

def IsIntByte (b : UInt8) : Prop := b = 0x2d ∨ (48 ≤ b.toNat ∧ b.toNat ≤ 57)

instance (b : UInt8) : Decidable (IsIntByte b) := inferInstanceAs (Decidable (_ ∨ _))

theorem toNat_digitByte {d : Nat} (h : d < 10) : (UInt8.ofNat (48 + d)).toNat = 48 + d := by
  simp only [UInt8.toNat_ofNat']
  omega

theorem decimal_digits {n : Nat} (h : b ∈ decimal n) :
    48 ≤ b.toNat ∧ b.toNat ≤ 57 := by
  unfold decimal at h
  by_cases hn : n = 0
  · rw [if_pos hn, List.mem_singleton] at h
    rw [h]
    decide
  · rw [if_neg hn, List.mem_reverse] at h
    obtain ⟨d, hd, rfl⟩ := List.mem_map.mp h
    have hlt := Nat.digits_lt_base (by decide) hd
    rw [toNat_digitByte hlt]
    omega

theorem ofDigits_decimal (n : Nat) :
    Nat.ofDigits 10 ((decimal n).reverse.map (fun b => b.toNat - 48)) = n := by
  unfold decimal
  by_cases hn : n = 0
  · subst hn
    rfl
  have hback : ((Nat.digits 10 n).map (fun d => UInt8.ofNat (48 + d))).map
      (fun b => b.toNat - 48) = Nat.digits 10 n := by
    have hid : ∀ d ∈ Nat.digits 10 n, (UInt8.ofNat (48 + d)).toNat - 48 = id d := by
      intro d hd
      rw [toNat_digitByte (Nat.digits_lt_base (by decide) hd)]
      simp
    rw [List.map_map]
    exact (List.map_congr_left hid).trans (List.map_id _)
  rw [if_neg hn, List.reverse_reverse, hback, Nat.ofDigits_digits]

theorem decimal_injective : Function.Injective decimal := by
  intro m n h
  rw [← ofDigits_decimal m, h, ofDigits_decimal]

theorem jsonInt_bytes {v : Int} (h : b ∈ jsonInt v) : IsIntByte b := by
  unfold jsonInt at h
  by_cases hv : v < 0
  · rw [if_pos hv] at h
    rcases List.mem_cons.mp h with rfl | hb
    · exact .inl rfl
    · exact .inr (decimal_digits hb)
  · rw [if_neg hv] at h
    exact .inr (decimal_digits h)

theorem decimal_ne_nil (n : Nat) : decimal n ≠ [] := by
  unfold decimal
  by_cases hn : n = 0 <;> simp [hn, Nat.digits_ne_nil_iff_ne_zero]

theorem decimal_ne_sign (m n : Nat) : 0x2d :: decimal m ≠ decimal n := by
  intro h
  have hmem : (0x2d : UInt8) ∈ decimal n := by
    rw [← h]
    exact List.mem_cons_self
  exact absurd (decimal_digits hmem).1 (by decide)

theorem jsonInt_injective : Function.Injective jsonInt := by
  intro v w h
  unfold jsonInt at h
  by_cases hv : v < 0
  · by_cases hw : w < 0
    · rw [if_pos hv, if_pos hw] at h
      have habs := decimal_injective (List.cons.inj h).2
      omega
    · rw [if_pos hv, if_neg hw] at h
      exact absurd h (decimal_ne_sign _ _)
  · by_cases hw : w < 0
    · rw [if_neg hv, if_pos hw] at h
      exact absurd h.symm (decimal_ne_sign _ _)
    · rw [if_neg hv, if_neg hw] at h
      have habs := decimal_injective h
      omega

theorem jsonInt_ne_nil (v : Int) : jsonInt v ≠ [] := by
  unfold jsonInt
  split_ifs
  · simp
  · exact decimal_ne_nil _

/-! ## Objects -/

def jsonTail : List (String × List UInt8) → List UInt8
  | [] => []
  | (k, v) :: ms => 0x2c :: jsonString k ++ 0x3a :: v ++ jsonTail ms

def jsonMembers : List (String × List UInt8) → List UInt8
  | [] => []
  | (k, v) :: ms => jsonString k ++ 0x3a :: v ++ jsonTail ms

def jsonObject (ms : List (String × List UInt8)) : List UInt8 :=
  0x7b :: jsonMembers ms ++ [0x7d]

inductive JsonValue : List UInt8 → Prop
  | int (v : Int) : JsonValue (jsonInt v)
  | string (s : String) : JsonValue (jsonString s)
  | object (ms : List (String × List UInt8)) :
      (∀ m ∈ ms, JsonValue m.2) → JsonValue (jsonObject ms)

def EndsMember (t : UInt8) : Prop := t = 0x2c ∨ t = 0x7d

theorem EndsMember.not_int {t : UInt8} (h : EndsMember t) : ¬ IsIntByte t := by
  rcases h with rfl | rfl <;> decide

/-- The value stands at the front of one stream only. -/
def Unique (w : List UInt8) : Prop :=
  ∀ ⦃w' : List UInt8⦄, JsonValue w' → ∀ ⦃t t' : UInt8⦄ ⦃r r' : List UInt8⦄,
    EndsMember t → EndsMember t' → w ++ t :: r = w' ++ t' :: r' → w = w' ∧ t :: r = t' :: r'

theorem jsonTail_append_brace (ms : List (String × List UInt8)) (r : List UInt8) :
    ∃ t r', EndsMember t ∧ jsonTail ms ++ 0x7d :: r = t :: r' := by
  cases ms with
  | nil => exact ⟨0x7d, r, .inr rfl, rfl⟩
  | cons m ms => exact ⟨0x2c, _, .inl rfl, rfl⟩

theorem member_unique {k k' : String} {v v' : List UInt8} (hv : Unique v) (hv' : JsonValue v')
    (h : jsonString k ++ 0x3a :: v ++ jsonTail ms ++ 0x7d :: r =
      jsonString k' ++ 0x3a :: v' ++ jsonTail ms' ++ 0x7d :: r') :
    (k, v) = (k', v') ∧ jsonTail ms ++ 0x7d :: r = jsonTail ms' ++ 0x7d :: r' := by
  simp only [List.append_assoc] at h
  obtain ⟨hk, hrest⟩ := jsonString_inj h
  obtain ⟨t, q, ht, hq⟩ := jsonTail_append_brace ms r
  obtain ⟨t', q', ht', hq'⟩ := jsonTail_append_brace ms' r'
  have hvals := (List.cons.inj hrest).2
  rw [hq, hq'] at hvals ⊢
  obtain ⟨hvv, htail⟩ := hv hv' ht ht' hvals
  exact ⟨by rw [hk, hvv], htail⟩

theorem jsonTail_unique : ∀ {ms ms' : List (String × List UInt8)} {r r' : List UInt8},
    (∀ m ∈ ms, Unique m.2) → (∀ m ∈ ms', JsonValue m.2) →
    jsonTail ms ++ 0x7d :: r = jsonTail ms' ++ 0x7d :: r' → ms = ms' ∧ r = r'
  | [], [], _, _, _, _, h => ⟨rfl, (List.cons.inj h).2⟩
  | [], _ :: _, _, _, _, _, h => absurd (List.cons.inj h).1 (by decide)
  | _ :: _, [], _, _, _, _, h => absurd (List.cons.inj h).1 (by decide)
  | (k, v) :: ms, (k', v') :: ms', _, _, hu, hv', h => by
    obtain ⟨hm, htail⟩ := member_unique (hu _ List.mem_cons_self)
      (hv' _ List.mem_cons_self) (List.cons.inj h).2
    obtain ⟨hms, hr⟩ := jsonTail_unique (fun m hm => hu m (List.mem_cons_of_mem _ hm))
      (fun m hm => hv' m (List.mem_cons_of_mem _ hm)) htail
    exact ⟨by rw [hm, hms], hr⟩

theorem jsonMembers_unique (hu : ∀ m ∈ ms, Unique m.2) (hv' : ∀ m ∈ ms', JsonValue m.2)
    (h : jsonMembers ms ++ 0x7d :: r = jsonMembers ms' ++ 0x7d :: r') : ms = ms' ∧ r = r' := by
  match ms, ms' with
  | [], [] => exact ⟨rfl, (List.cons.inj h).2⟩
  | [], m :: ms' => exact absurd (List.cons.inj h).1 (by decide)
  | m :: ms, [] => exact absurd (List.cons.inj h).1 (by decide)
  | _ :: _, _ :: _ => exact jsonTail_unique hu hv' (congrArg (0x2c :: ·) h)

theorem head?_jsonInt (v : Int) : ∃ b, (jsonInt v).head? = some b ∧ IsIntByte b := by
  obtain ⟨b, w, hw⟩ := List.exists_cons_of_ne_nil (jsonInt_ne_nil v)
  exact ⟨b, by rw [hw]; rfl, jsonInt_bytes (by rw [hw]; exact List.mem_cons_self)⟩

theorem jsonInt_head_ne {v : Int} (hb : ¬ IsIntByte b) :
    jsonInt v ++ r ≠ b :: w ++ s := by
  intro h
  obtain ⟨c, hc, hint⟩ := head?_jsonInt v
  have hhead := head?_append_of_head? (r := r) hc
  rw [h] at hhead
  exact hb ((Option.some.inj hhead) ▸ hint)

theorem JsonValue.unique (hw : JsonValue w) : Unique w := by
  induction hw with
  | int v =>
    intro w' hw' t t' r r' ht ht' h
    cases hw' with
    | int v' =>
      exact append_cons_inj (fun b hb => jsonInt_bytes hb)
        (fun b hb => jsonInt_bytes hb) ht.not_int ht'.not_int h
    | string s => exact absurd h (jsonInt_head_ne (by decide))
    | object ms _ => exact absurd h (jsonInt_head_ne (by decide))
  | string s =>
    intro w' hw' t t' r r' _ _ h
    cases hw' with
    | int v' => exact absurd h.symm (jsonInt_head_ne (by decide))
    | string s' =>
      obtain ⟨hs, hr⟩ := jsonString_inj h
      exact ⟨by rw [hs], hr⟩
    | object ms _ => exact absurd (List.cons.inj h).1 (by decide)
  | object ms hms ih =>
    intro w' hw' t t' r r' _ _ h
    cases hw' with
    | int v' => exact absurd h.symm (jsonInt_head_ne (by decide))
    | string s => exact absurd (List.cons.inj h).1 (by decide)
    | object ms' hms' => ?_
    simp only [jsonObject, List.append_assoc] at h
    obtain ⟨hmm, hr⟩ := jsonMembers_unique ih hms' (List.cons.inj h).2
    exact ⟨by rw [hmm], hr⟩

theorem jsonObject_unique (hms : ∀ m ∈ ms, JsonValue m.2) (hms' : ∀ m ∈ ms', JsonValue m.2)
    (h : jsonObject ms ++ r = jsonObject ms' ++ r') : ms = ms' ∧ r = r' := by
  simp only [jsonObject, List.append_assoc] at h
  exact jsonMembers_unique (fun m hm => (hms m hm).unique) hms' (List.cons.inj h).2

end Scrap.Json
