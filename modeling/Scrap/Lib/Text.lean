/-
# Text as bytes, and control characters

A text that has no control character has no byte below `0x20`: a code point below `0x80` is
one byte, its own value, and every byte of a longer sequence is `0x80` or above. Such a text
can therefore be ended by any byte below `0x20` (`eq_of_terminated`), which is how the keys
and values of the development are kept apart.
-/
import Mathlib.Data.List.Basic
import Mathlib.Logic.Function.Basic

namespace Scrap.Text

def utf8 (s : String) : List UInt8 := s.toList.flatMap String.utf8EncodeChar

theorem toByteArray_utf8 (s : String) : (utf8 s).toByteArray = s.toByteArray := by
  rw [← String.utf8Encode_toList]
  rfl

theorem utf8_injective : Function.Injective utf8 := by
  intro s t h
  rw [← String.toByteArray_inj, ← toByteArray_utf8, ← toByteArray_utf8, h]

/-- The category `Cc`. -/
def isControl (c : Char) : Bool := c.toNat < 0x20 || (0x7f ≤ c.toNat && c.toNat < 0xa0)

def Plain (s : String) : Prop := ∀ c ∈ s.toList, isControl c = false

instance (s : String) : Decidable (Plain s) :=
  List.decidableBAll (fun c => isControl c = false) s.toList

theorem toNat_ge_of_mem_utf8EncodeChar {c : Char} {b : UInt8}
    (hb : b ∈ String.utf8EncodeChar c) : b.toNat = c.toNat ∨ 0x80 ≤ b.toNat := by
  unfold String.utf8EncodeChar at hb
  by_cases h1 : c.val.toNat ≤ 0x7f
  · left
    rw [if_pos h1, List.mem_singleton] at hb
    have hlt : c.toNat < 256 := Nat.lt_of_le_of_lt h1 (by omega)
    rw [hb]
    simpa using Nat.mod_eq_of_lt hlt
  · right
    rw [if_neg h1] at hb
    by_cases h2 : c.val.toNat ≤ 0x7ff
    · rw [if_pos h2] at hb
      rcases List.mem_pair.mp hb with rfl | rfl <;> simp <;> omega
    rw [if_neg h2] at hb
    by_cases h3 : c.val.toNat ≤ 0xffff
    · rw [if_pos h3] at hb
      simp only [List.mem_cons, List.not_mem_nil, or_false] at hb
      rcases hb with rfl | rfl | rfl <;> simp <;> omega
    · rw [if_neg h3] at hb
      simp only [List.mem_cons, List.not_mem_nil, or_false] at hb
      rcases hb with rfl | rfl | rfl | rfl <;> simp <;> omega

theorem Plain.le_of_mem_utf8 {s : String} (h : Plain s) {b : UInt8} (hb : b ∈ utf8 s) :
    0x20 ≤ b.toNat := by
  obtain ⟨c, hc, hbc⟩ := List.mem_flatMap.mp hb
  have hctl := h c hc
  rcases toNat_ge_of_mem_utf8EncodeChar hbc with heq | hge
  · simp only [isControl, Bool.or_eq_false_iff, decide_eq_false_iff_not] at hctl
    omega
  · omega

/-- Two lists that are ended by an element neither contains are equal, and so is what
follows. -/
theorem append_cons_inj {α : Type} {p : α → Prop} : ∀ {l l' r r' : List α} {a a' : α},
    (∀ b ∈ l, p b) → (∀ b ∈ l', p b) → ¬ p a → ¬ p a' →
    l ++ a :: r = l' ++ a' :: r' → l = l' ∧ a :: r = a' :: r'
  | [], [], _, _, _, _, _, _, _, _, h => ⟨rfl, h⟩
  | [], b :: l', _, _, _, _, _, hl', ha, _, h => by
    have hab : _ = b := (List.cons.inj h).1
    exact absurd (hab ▸ hl' b List.mem_cons_self) ha
  | b :: l, [], _, _, _, _, hl, _, _, ha', h => by
    have hab : b = _ := (List.cons.inj h).1
    exact absurd (hab ▸ hl b List.mem_cons_self) ha'
  | b :: l, b' :: l', _, _, _, _, hl, hl', ha, ha', h => by
    obtain ⟨hb, ht⟩ := List.cons.inj h
    obtain ⟨hll, hr⟩ := append_cons_inj (fun x hx => hl x (List.mem_cons_of_mem _ hx))
      (fun x hx => hl' x (List.mem_cons_of_mem _ hx)) ha ha' ht
    exact ⟨by rw [hb, hll], hr⟩

theorem eq_of_terminated {s t : String} {a a' : UInt8} {r r' : List UInt8} (hs : Plain s)
    (ht : Plain t) (ha : a.toNat < 0x20) (ha' : a'.toNat < 0x20)
    (h : utf8 s ++ a :: r = utf8 t ++ a' :: r') : s = t ∧ a :: r = a' :: r' := by
  obtain ⟨hst, hr⟩ := append_cons_inj
    (fun b hb => hs.le_of_mem_utf8 hb) (fun b hb => ht.le_of_mem_utf8 hb) (by omega) (by omega) h
  exact ⟨utf8_injective hst, hr⟩

end Scrap.Text
