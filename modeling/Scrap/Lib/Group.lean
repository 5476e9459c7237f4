/-
# Lists grouped by a key

* `runs l` is `l` with immediate repetitions removed (Mathlib's `destutter` at `≠`): what a writer
  keeps that adds an element to its list unless it is the last one there (`runs_concat`).
* `gather key l ks` collects, for each key of `ks` in turn, the elements of `l` with that key. If
  `ks` covers the keys of `l`, the collection has as many elements as `l` exactly when `ks` has no
  repetition (`length_gather_eq_iff`), and then it is `l` up to order (`gather_perm`).

A list sorted by its keys is determined by its elements of each key (`eq_of_sorted_of_filter_eq`).
-/
import Mathlib.Data.List.Destutter
import Mathlib.Data.List.Perm.Subperm
import Mathlib.Data.List.Count

namespace Scrap.Group

variable {α κ : Type} [DecidableEq κ]

/-! ## Runs -/

def runs (l : List κ) : List κ := l.destutter (· ≠ ·)

@[simp] theorem runs_nil : runs ([] : List κ) = [] := rfl

theorem destutter'_concat (b : κ) : ∀ (l : List κ) (a : κ), (l ++ [b]).destutter' (· ≠ ·) a =
      if (l.destutter' (· ≠ ·) a).getLast? = some b then l.destutter' (· ≠ ·) a
      else l.destutter' (· ≠ ·) a ++ [b]
  | [], a => by
    by_cases h : a = b <;> simp [h]
  | c :: l, a => by
    have hne := List.destutter'_ne_nil (R := (· ≠ ·)) (l := l) (a := c)
    by_cases h : a = c
    · subst h
      rw [List.cons_append, List.destutter'_cons_neg _ (by simp),
        List.destutter'_cons_neg _ (by simp), destutter'_concat b l a]
    · rw [List.cons_append, List.destutter'_cons_pos _ h, List.destutter'_cons_pos _ h,
        destutter'_concat b l c, List.getLast?_cons_of_ne_nil hne]
      split <;> rfl

theorem runs_concat (l : List κ) (b : κ) :
    runs (l ++ [b]) = if (runs l).getLast? = some b then runs l else runs l ++ [b] := by
  cases l with
  | nil => simp [runs]
  | cons a l => exact destutter'_concat b l a

variable {l : List κ} {key : α → κ}

theorem mem_runs {a : κ} : a ∈ runs l ↔ a ∈ l := by
  induction l using List.reverseRecOn with
  | nil => simp
  | append_singleton l b ih =>
    rw [runs_concat]
    by_cases h : (runs l).getLast? = some b
    · have hb : b ∈ runs l := List.mem_of_getLast? h
      rw [if_pos h, ih, List.mem_append, List.mem_singleton]
      constructor
      · exact .inl
      · rintro (ha | rfl)
        · exact ha
        · exact ih.mp hb
    · rw [if_neg h, List.mem_append, List.mem_append, ih]

theorem runs_grow (l l' : List κ) : runs l <+: runs (l ++ l') := by
  induction l' using List.reverseRecOn with
  | nil => simp
  | append_singleton l' b ih =>
    rw [← List.append_assoc, runs_concat]
    split
    · exact ih
    · exact ih.trans (List.prefix_append _ _)

theorem length_runs_le (l : List κ) : (runs l).length ≤ l.length :=
  (List.destutter_sublist (· ≠ ·) l).length_le

theorem getLast?_runs (l : List κ) : (runs l).getLast? = l.getLast? := by
  cases l using List.reverseRecOn with
  | nil => rfl
  | append_singleton l b => ?_
  rw [runs_concat, List.getLast?_concat]
  split
  · assumption
  · exact List.getLast?_concat

theorem getLast?_of_mem_of_nodup_runs {b : κ} (hb : b ∈ l) :
    ∀ l' : List κ, b ∈ l' → (runs (l ++ l')).Nodup → l.getLast? = some b := by
  intro l'
  induction l' using List.reverseRecOn with
  | nil => simp
  | append_singleton l' c ih =>
    intro hc hnodup
    rw [← List.append_assoc] at hnodup
    by_cases hmem : b ∈ l'
    · exact ih hmem (hnodup.sublist (runs_grow _ [c]).sublist)
    obtain rfl : b = c := by simpa [hmem] using hc
    rw [runs_concat] at hnodup
    by_cases hlast : (runs (l ++ l')).getLast? = some b
    · rw [getLast?_runs] at hlast
      cases l' using List.reverseRecOn with
      | nil => simpa using hlast
      | append_singleton l' d => ?_
      rw [← List.append_assoc, List.getLast?_concat] at hlast
      cases hlast
      simp at hmem
    · rw [if_neg hlast, List.nodup_append] at hnodup
      exact absurd rfl (hnodup.2.2 b (mem_runs.mpr (by simp [hb])) b (by simp))

/-! In a list sorted by an antisymmetric relation equal elements stand together. -/

section Sorted

variable {r : κ → κ → Prop} (hanti : ∀ a b, r a b → r b a → a = b)

include hanti

omit [DecidableEq κ] in
theorem getLast?_of_mem_of_sorted {b : κ} (hsorted : (l ++ [b]).Pairwise r)
    (hb : b ∈ l) : l.getLast? = some b := by
  obtain ⟨hl, -, hcross⟩ := List.pairwise_append.mp hsorted
  cases l using List.reverseRecOn with
  | nil => simp at hb
  | append_singleton l z => ?_
  have hzb : r z b := hcross z (by simp) b (by simp)
  rw [List.getLast?_concat]
  rcases List.mem_append.mp hb with hmem | hmem
  · have hbz : r b z := (List.pairwise_append.mp hl).2.2 b hmem z (by simp)
    rw [hanti z b hzb hbz]
  · rw [List.mem_singleton.mp hmem]

theorem nodup_runs_of_sorted (hsorted : l.Pairwise r) : (runs l).Nodup := by
  induction l using List.reverseRecOn with
  | nil => simp
  | append_singleton l b ih =>
    have hl := ih (List.pairwise_append.mp hsorted).1
    rw [runs_concat]
    by_cases hlast : (runs l).getLast? = some b
    · rwa [if_pos hlast]
    have hb : b ∉ runs l := fun hmem => hlast <| by
      rw [getLast?_runs]
      exact getLast?_of_mem_of_sorted hanti hsorted (mem_runs.mp hmem)
    rw [if_neg hlast]
    exact List.nodup_append.mpr ⟨hl, by simp, fun a ha c hc h => hb <| by
      rw [List.mem_singleton] at hc
      rwa [← hc, ← h]⟩

omit hanti in
theorem sorted_of_runs (hrefl : ∀ a, r a a) (hsorted : (runs l).Pairwise r) :
    l.Pairwise r := by
  induction l using List.reverseRecOn with
  | nil => exact .nil
  | append_singleton l b ih =>
    rw [runs_concat] at hsorted
    by_cases hlast : (runs l).getLast? = some b
    · rw [if_pos hlast] at hsorted
      obtain ⟨m, hm⟩ := List.getLast?_eq_some_iff.mp hlast
      refine List.pairwise_append.mpr ⟨ih hsorted, List.pairwise_singleton _ _, ?_⟩
      rintro a ha c hc
      obtain rfl := List.mem_singleton.mp hc
      rw [← mem_runs, hm] at ha
      rw [hm] at hsorted
      rcases List.mem_append.mp ha with ha | ha
      · exact (List.pairwise_append.mp hsorted).2.2 a ha _ hc
      · rw [List.mem_singleton.mp ha]
        exact hrefl _
    · rw [if_neg hlast] at hsorted
      obtain ⟨hruns, -, hcross⟩ := List.pairwise_append.mp hsorted
      exact List.pairwise_append.mpr ⟨ih hruns, List.pairwise_singleton _ _,
        fun a ha => hcross a (mem_runs.mpr ha)⟩

theorem eq_of_sorted_of_filter_eq : ∀ {l l' : List α},
    (l.map key).Pairwise r → (l'.map key).Pairwise r →
      (∀ k, l.filter (fun x => key x = k) = l'.filter (fun x => key x = k)) → l = l'
  | [], l', _, _, heq => by
    symm
    rw [List.eq_nil_iff_forall_not_mem]
    intro x hx
    have hmem : x ∈ ([] : List α).filter (fun y => key y = key x) := by
      rw [heq]
      exact List.mem_filter.mpr ⟨hx, by simp⟩
    simp at hmem
  | x :: l, [], _, _, heq => by
    have hhead := heq (key x)
    simp at hhead
  | x :: l, y :: l', hl, hl', heq => by
    rw [List.map_cons, List.pairwise_cons] at hl hl'
    have hmem : ∀ z, z ∈ x :: l ↔ z ∈ y :: l' := fun z => by
      have hz : z ∈ (x :: l).filter (fun w => key w = key z) ↔
          z ∈ (y :: l').filter (fun w => key w = key z) := by rw [heq]
      simpa [List.mem_filter] using hz
    -- each head comes first in its own list, so the keys of the heads are equal
    have hxy : x = y ∨ r (key x) (key y) :=
      (List.mem_cons.mp ((hmem y).mpr List.mem_cons_self)).imp Eq.symm
        fun hy => hl.1 _ (List.mem_map_of_mem hy)
    have hyx : x = y ∨ r (key y) (key x) :=
      (List.mem_cons.mp ((hmem x).mp List.mem_cons_self)).imp id
        fun hx => hl'.1 _ (List.mem_map_of_mem hx)
    have hkey : key x = key y := by
      rcases hxy with rfl | hxy
      · rfl
      · rcases hyx with rfl | hyx
        · rfl
        · exact hanti _ _ hxy hyx
    have hhead := heq (key x)
    rw [List.filter_cons_of_pos (by simp), List.filter_cons_of_pos (by simp [hkey]),
      List.cons.injEq] at hhead
    obtain ⟨rfl, -⟩ := hhead
    refine congrArg (x :: ·) (eq_of_sorted_of_filter_eq hl.2 hl'.2 fun k => ?_)
    have hk := heq k
    by_cases hx : key x = k
    · rw [List.filter_cons_of_pos (by simpa using hx),
        List.filter_cons_of_pos (by simpa using hx), List.cons.injEq] at hk
      exact hk.2
    · rwa [List.filter_cons_of_neg (by simpa using hx),
        List.filter_cons_of_neg (by simpa using hx)] at hk

end Sorted

/-! ## Gathering by key -/

def gather (key : α → κ) (l : List α) (ks : List κ) : List α :=
  ks.flatMap (fun k => l.filter (fun x => key x = k))

theorem count_gather [DecidableEq α] (key : α → κ) (l : List α) (x : α) :
    ∀ ks : List κ, (gather key l ks).count x = ks.count (key x) * l.count x
  | [] => by simp [gather]
  | k :: ks => by
    have ih := count_gather key l x ks
    have hcons : gather key l (k :: ks) = l.filter (fun x => key x = k) ++ gather key l ks := rfl
    rw [hcons, List.count_append, ih, List.count_cons]
    by_cases h : key x = k
    · subst h
      rw [List.count_filter (by simp), if_pos (by simp), Nat.add_mul, Nat.one_mul, Nat.add_comm]
    · have h0 : (l.filter (fun x => key x = k)).count x = 0 := by
        rw [List.count_eq_zero]
        intro hmem
        exact h (by simpa using (List.mem_filter.mp hmem).2)
      have hk : ¬ (k == key x) = true := by simpa using fun hc => h hc.symm
      rw [h0, if_neg hk, Nat.zero_add, Nat.add_zero]

/-! An element more at the end of the list. -/

theorem gather_concat_of_notMem {x : α} (l : List α) {ks : List κ}
    (h : key x ∉ ks) : gather key (l ++ [x]) ks = gather key l ks := by
  refine List.flatMap_congr fun k hk => ?_
  have hne : key x ≠ k := fun hkx => h (hkx ▸ hk)
  simp [hne]

theorem gather_concat_last {x : α} (l : List α) {ks : List κ}
    (h : key x ∉ ks) :
    gather key (l ++ [x]) (ks ++ [key x]) = gather key l (ks ++ [key x]) ++ [x] := by
  have hks := gather_concat_of_notMem l h
  unfold gather at hks ⊢
  rw [List.flatMap_append, hks]
  simp

theorem gather_concat_key {l : List α} (ks : List κ) {k : κ}
    (h : ∀ x ∈ l, key x ≠ k) : gather key l (ks ++ [k]) = gather key l ks := by
  have hnil : l.filter (fun x => key x = k) = [] := by
    rw [List.filter_eq_nil_iff]
    intro x hx
    simpa using h x hx
  simp [gather, hnil]

section Covering

variable [DecidableEq α] {key : α → κ} {l : List α} {ks : List κ}

theorem gather_perm (hcover : ∀ x ∈ l, key x ∈ ks) (hnd : ks.Nodup) :
    (gather key l ks).Perm l := by
  rw [List.perm_iff_count]
  intro x
  rw [count_gather]
  by_cases hx : x ∈ l
  · rw [List.count_eq_one_of_mem hnd (hcover x hx), Nat.one_mul]
  · rw [List.count_eq_zero.mpr hx, Nat.mul_zero]

theorem subperm_gather (hcover : ∀ x ∈ l, key x ∈ ks) : l.Subperm (gather key l ks) := by
  rw [List.subperm_ext_iff]
  intro x hx
  have hpos : 0 < ks.count (key x) := List.count_pos_iff.mpr (hcover x hx)
  rw [count_gather]
  exact Nat.le_mul_of_pos_left _ hpos

theorem length_le_gather (hcover : ∀ x ∈ l, key x ∈ ks) :
    l.length ≤ (gather key l ks).length :=
  (subperm_gather hcover).length_le

theorem length_gather_eq_iff (hcover : ∀ x ∈ l, key x ∈ ks)
    (hused : ∀ k ∈ ks, ∃ x ∈ l, key x = k) :
    (gather key l ks).length = l.length ↔ ks.Nodup := by
  constructor
  · intro hlen
    have hperm := (subperm_gather hcover).perm_of_length_le (by omega)
    rw [List.nodup_iff_count_le_one]
    intro k
    by_contra hk
    obtain ⟨x, hx, rfl⟩ := hused k (List.count_pos_iff.mp (by omega))
    have hcount := List.perm_iff_count.mp hperm x
    rw [count_gather] at hcount
    have hpos : 0 < l.count x := List.count_pos_iff.mpr hx
    have h2 : 2 * l.count x ≤ ks.count (key x) * l.count x := Nat.mul_le_mul_right _ (by omega)
    omega
  · intro hnd
    exact (gather_perm hcover hnd).length_eq

end Covering

end Scrap.Group
