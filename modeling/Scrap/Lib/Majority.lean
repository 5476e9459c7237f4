/-
# Counting ballots and strict majorities

A table from values to counts is built one ballot at a time (`bump`), and is then visited in an
order nothing fixes (`RangeOrder`, the order of a `range` over a Go map). What is read off it does
not depend on that order: the table holds exactly the counts of the ballots (`lookup_tally`), and
two values with more than half of the voters each are equal (`Strict.unique`), so the first entry
above half is the only one (`firstAbove_eq_some_iff`).
-/
import Mathlib.Data.List.AList
import Mathlib.Data.List.Count

namespace Scrap.Majority

structure RangeOrder (α : Type) where
  visit : List α → List α
  perm : ∀ l, (visit l).Perm l

def RangeOrder.id (α : Type) : RangeOrder α := ⟨fun l => l, fun l => .refl l⟩

def RangeOrder.reverse (α : Type) : RangeOrder α := ⟨List.reverse, List.reverse_perm⟩

theorem RangeOrder.mem_visit {α : Type} (o : RangeOrder α) {l : List α} {a : α} :
    a ∈ o.visit l ↔ a ∈ l :=
  (o.perm l).mem_iff

variable {α : Type} [DecidableEq α]

/-! ## The table of counts -/

abbrev Table (α : Type) := AList (fun _ : α => Nat)

/-- `table[a]++`: an absent count is zero. -/
def bump (t : Table α) (a : α) : Table α := t.insert a ((t.lookup a).getD 0 + 1)

def tally (t : Table α) (ballots : List α) : Table α := ballots.foldl bump t

theorem lookup_bump (t : Table α) (a b : α) :
    ((bump t a).lookup b).getD 0 = (t.lookup b).getD 0 + if a = b then 1 else 0 := by
  by_cases h : a = b
  · subst h
    simp [bump]
  · simp [bump, h, AList.lookup_insert_ne (Ne.symm h)]

theorem lookup_tally (a : α) : ∀ (ballots : List α) (t : Table α),
    ((tally t ballots).lookup a).getD 0 = (t.lookup a).getD 0 + ballots.countP (· = a)
  | [], t => by simp [tally]
  | b :: ballots, t => by
    have ih := lookup_tally a ballots (bump t b)
    rw [lookup_bump] at ih
    rw [show tally t (b :: ballots) = tally (bump t b) ballots from rfl, ih, List.countP_cons]
    by_cases h : b = a
    · simp [h]
      omega
    · simp [h]

theorem mem_entries_iff (t : Table α) {a : α} {n : Nat} (hn : 0 < n) :
    (⟨a, n⟩ : Sigma fun _ : α => Nat) ∈ t.entries ↔ (t.lookup a).getD 0 = n := by
  rw [← AList.mem_lookup_iff]
  cases h : t.lookup a with
  | none => simp [Nat.ne_of_lt hn]
  | some m => simp

/-! ## Strict majorities -/

/-- More than half of `n` voters cast `a`. -/
def Strict (n : Nat) (ballots : List α) (a : α) : Prop := n < 2 * ballots.countP (· = a)

instance (n : Nat) (ballots : List α) (a : α) : Decidable (Strict n ballots a) :=
  inferInstanceAs (Decidable (_ < _))

theorem half_lt_iff {n k : Nat} : n / 2 < k ↔ n < 2 * k := by omega

theorem countP_eq_add_ne (l : List α) (a : α) :
    l.countP (· = a) + l.countP (· ≠ a) = l.length := by
  rw [List.length_eq_countP_add_countP (fun b => decide (b = a))]
  simp

theorem countP_eq_le_ne {a b : α} (h : b ≠ a) (l : List α) :
    l.countP (· = b) ≤ l.countP (· ≠ a) := by
  refine List.countP_mono_left (fun c _ hc => ?_)
  have hcb : c = b := by simpa using hc
  simpa [hcb] using h

section

variable {n : Nat} {ballots : List α} {a b : α}

theorem Strict.minority (hn : ballots.length ≤ n) (h : Strict n ballots a) :
    2 * ballots.countP (· ≠ a) < n := by
  have hsum := countP_eq_add_ne ballots a
  unfold Strict at h
  omega

theorem Strict.unique (hn : ballots.length ≤ n) (ha : Strict n ballots a)
    (hb : Strict n ballots b) : a = b := by
  by_contra hne
  have hle := countP_eq_le_ne (Ne.symm hne) ballots
  have hmin := ha.minority hn
  unfold Strict at hb
  omega

end

/-- The first entry, in the order of the visit, with more than half of `n` voters. -/
def firstAbove (n : Nat) (entries : List (Sigma fun _ : α => Nat)) : Option α :=
  (entries.find? (fun e => n / 2 < e.2)).map (·.1)

theorem firstAbove_eq_some_iff {n : Nat} {ballots : List α} (hn : ballots.length ≤ n)
    (t : Table α) (ht : ∀ a, (t.lookup a).getD 0 = ballots.countP (· = a))
    (o : RangeOrder (Sigma fun _ : α => Nat)) {a : α} :
    firstAbove n (o.visit t.entries) = some a ↔ Strict n ballots a := by
  have hentry : ∀ b k, n / 2 < k →
      ((⟨b, k⟩ : Sigma fun _ : α => Nat) ∈ o.visit t.entries ↔ ballots.countP (· = b) = k) := by
    intro b k hk
    rw [o.mem_visit, mem_entries_iff t (by omega), ht]
  constructor
  · intro h
    obtain ⟨⟨b, k⟩, hfind, rfl⟩ := Option.map_eq_some_iff.mp h
    have hk : n / 2 < k := by simpa using List.find?_some hfind
    have hcount := (hentry b k hk).mp (List.mem_of_find?_eq_some hfind)
    show n < 2 * ballots.countP (· = b)
    rw [hcount]
    exact half_lt_iff.mp hk
  · intro h
    have hk : n / 2 < ballots.countP (· = a) := half_lt_iff.mpr h
    have hmem := (hentry a _ hk).mpr rfl
    obtain ⟨⟨b, k⟩, hfind⟩ : ∃ e, (o.visit t.entries).find? (fun e => n / 2 < e.2) = some e := by
      rw [← Option.isSome_iff_exists, List.find?_isSome]
      exact ⟨_, hmem, by simpa using hk⟩
    have hkb : n / 2 < k := by simpa using List.find?_some hfind
    have hb := (hentry b k hkb).mp (List.mem_of_find?_eq_some hfind)
    have hab : b = a := Strict.unique hn (half_lt_iff.mp (hb ▸ hkb)) h
    simp [firstAbove, hfind, hab]

end Scrap.Majority
