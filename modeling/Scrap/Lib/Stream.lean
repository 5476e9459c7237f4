/-
# Streams that are read in buffers

A reader hands out its bytes in pieces of its own choosing and ends with an error. `readFull` is
`io.ReadFull`: it calls the reader until a buffer is full, and tells a buffer that stayed empty
(`io.EOF`) from one that is partly filled (`io.ErrUnexpectedEOF`). Whatever the pieces are, buffers
of `k` bytes cut the stream into `pieces k` (`readFull_bytes`, `readFull_rest`). A file is a reader
that ends with `io.EOF`, and `takeFull` reads from its start.
-/
import Mathlib.Data.List.Basic

namespace Scrap.Buffered

variable {α : Type}

/-- The error behind the last byte: `io.EOF`, one that wraps it, one that is or wraps
`io.ErrUnexpectedEOF`, or any other. -/
inductive Ending where
  | eof
  | wrappedEOF
  | unexpectedEOF
  | failed
deriving DecidableEq

/-- `errors.Is` for `io.EOF` or `io.ErrUnexpectedEOF`. -/
def Ending.isEOF : Ending → Bool
  | .eof => true
  | .wrappedEOF => true
  | .unexpectedEOF => true
  | .failed => false

/-- What the calls of `Read` hand out, if their buffers have room, and the error of every later
call. A smaller buffer leaves the rest of its piece; an empty piece is a call that reads nothing. -/
structure Reader (α : Type) where
  chunks : List (List α)
  ending : Ending
deriving DecidableEq

def Reader.bytes (r : Reader α) : List α := r.chunks.flatten

/-- The loop of `io.ReadFull` over a buffer with room for `k`: what it holds, and what is left to
read. -/
def fill : Nat → List (List α) → List α × List (List α)
  | _, [] => ([], [])
  | k, c :: cs =>
    if k ≤ c.length then (c.take k, c.drop k :: cs)
    else (c ++ (fill (k - c.length) cs).1, (fill (k - c.length) cs).2)

def Reader.readFull (r : Reader α) (k : Nat) : List α × Option Ending × Reader α :=
  let (bs, rest) := fill k r.chunks
  (bs, if bs.length = k then none
    else if r.ending = .eof ∧ ¬ bs.isEmpty then some .unexpectedEOF
    else some r.ending,
    { r with chunks := rest })

/-- `io.ReadFull` on a file, from the byte it stands at: the buffer and what is left. -/
def takeFull (k : Nat) (bs : List α) : Except Ending (List α × List α) :=
  match Reader.readFull ⟨[bs], .eof⟩ k with
  | (buf, none, rest) => .ok (buf, rest.bytes)
  | (_, some e, _) => .error e

/-- The pieces of length `k`, the last one perhaps shorter. -/
def pieces (k : Nat) (bs : List α) : List (List α) :=
  if _h : 0 < k ∧ 0 < bs.length then bs.take k :: pieces k (bs.drop k) else []
termination_by bs.length
decreasing_by simp; omega

/-! ## What a buffer gets -/

theorem fill_fst : ∀ (k : Nat) (cs : List (List α)), (fill k cs).1 = cs.flatten.take k
  | _, [] => by simp [fill]
  | k, c :: cs => by
    by_cases h : k ≤ c.length
    · simp only [fill, if_pos h, List.flatten_cons]
      rw [List.take_append_of_le_length h]
    · simp only [fill, if_neg h, List.flatten_cons, fill_fst]
      rw [List.take_append, List.take_of_length_le (l := c) (by omega)]

theorem fill_snd : ∀ (k : Nat) (cs : List (List α)), (fill k cs).2.flatten = cs.flatten.drop k
  | _, [] => by simp [fill]
  | k, c :: cs => by
    by_cases h : k ≤ c.length
    · simp only [fill, if_pos h, List.flatten_cons]
      rw [List.drop_append_of_le_length h]
    · simp only [fill, if_neg h, List.flatten_cons, fill_snd]
      rw [List.drop_append, List.drop_of_length_le (l := c) (by omega), List.nil_append]

section ReadFull

variable (r : Reader α) (k : Nat)

@[simp] theorem readFull_bytes : (r.readFull k).1 = r.bytes.take k := fill_fst k r.chunks

@[simp] theorem readFull_rest : (r.readFull k).2.2.bytes = r.bytes.drop k := fill_snd k r.chunks

@[simp] theorem readFull_ending : (r.readFull k).2.2.ending = r.ending := rfl

theorem length_fill : (fill k r.chunks).1.length = min k r.bytes.length := by
  rw [fill_fst, List.length_take, Reader.bytes]

theorem readFull_full (h : k ≤ r.bytes.length) : (r.readFull k).2.1 = none := by
  simp only [Reader.readFull]
  rw [if_pos (by rw [length_fill, Nat.min_eq_left h])]

/-- A buffer that is not filled comes with an error, an end of the file exactly when the stream ends
with one. -/
theorem readFull_short (h : r.bytes.length < k) :
    ∃ e, (r.readFull k).2.1 = some e ∧ e.isEOF = r.ending.isEOF := by
  simp only [Reader.readFull]
  rw [if_neg (by rw [length_fill]; omega)]
  split_ifs with heof
  · exact ⟨.unexpectedEOF, rfl, by rw [heof.1]; rfl⟩
  · exact ⟨r.ending, rfl, rfl⟩

end ReadFull

section TakeFull

variable {k : Nat} {a b bs : List α}

theorem takeFull_append (h : a.length = k) : takeFull k (a ++ b) = .ok (a, b) := by
  subst h
  simp [takeFull, Reader.readFull, fill, Reader.bytes]

theorem takeFull_nil (h : 0 < k) : takeFull k ([] : List α) = .error .eof := by
  have hk : ¬ k = 0 := by omega
  have hk' : ¬ 0 = k := by omega
  simp [takeFull, Reader.readFull, fill, hk, hk']

theorem takeFull_short (hne : bs ≠ []) (h : bs.length < k) :
    takeFull k bs = .error .unexpectedEOF := by
  have hk : ¬ k ≤ bs.length := by omega
  have hlen : ¬ bs.length = k := by omega
  simp [takeFull, Reader.readFull, fill, hk, hlen, hne]

theorem takeFull_ok : takeFull k bs = .ok (a, b) ↔ bs = a ++ b ∧ a.length = k := by
  constructor
  · intro h
    by_cases hk : k ≤ bs.length
    · have hsplit := takeFull_append (b := bs.drop k) (List.length_take_of_le hk)
      rw [List.take_append_drop, h] at hsplit
      cases Except.ok.inj hsplit
      exact ⟨(List.take_append_drop k bs).symm, List.length_take_of_le hk⟩
    · by_cases hne : bs = []
      · rw [hne, takeFull_nil (by omega)] at h
        cases h
      · rw [takeFull_short hne (by omega)] at h
        cases h
  · rintro ⟨rfl, rfl⟩
    exact takeFull_append rfl

end TakeFull

/-! ## Pieces -/

theorem pieces_nil (k : Nat) : pieces k ([] : List α) = [] := by rw [pieces, dif_neg (by simp)]

variable {k : Nat}

theorem pieces_of_pos {bs : List α} (hk : 0 < k) (hbs : bs ≠ []) :
    pieces k bs = bs.take k :: pieces k (bs.drop k) := by
  rw [pieces, dif_pos ⟨hk, List.length_pos_of_ne_nil hbs⟩]

theorem pieces_short {bs : List α} (hk : bs.length ≤ k) (hbs : bs ≠ []) :
    pieces k bs = [bs] := by
  have hpos := List.length_pos_of_ne_nil hbs
  rw [pieces_of_pos (by omega) hbs, List.take_of_length_le hk, List.drop_of_length_le hk,
    pieces_nil]

theorem pieces_eq_nil {bs : List α} (hk : 0 < k) : pieces k bs = [] ↔ bs = [] := by
  constructor
  · intro h
    by_contra hbs
    rw [pieces_of_pos hk hbs] at h
    exact List.cons_ne_nil _ _ h
  · rintro rfl
    exact pieces_nil k

theorem pieces_induction (hk : 0 < k) {motive : List α → Prop} (nil : motive [])
    (cons : ∀ bs, bs ≠ [] → motive (bs.drop k) → motive bs) :
    ∀ bs, motive bs := by
  intro bs
  induction hn : bs.length using Nat.strongRecOn generalizing bs with
  | ind n ih =>
    by_cases hbs : bs = []
    · rw [hbs]
      exact nil
    have hpos := List.length_pos_of_ne_nil hbs
    refine cons bs hbs (ih (bs.drop k).length ?_ _ rfl)
    rw [List.length_drop]
    omega

theorem flatten_pieces (hk : 0 < k) (bs : List α) : (pieces k bs).flatten = bs := by
  induction bs using pieces_induction hk with
  | nil => rw [pieces_nil, List.flatten_nil]
  | cons bs hbs ih => rw [pieces_of_pos hk hbs, List.flatten_cons, ih, List.take_append_drop]

theorem length_pieces (hk : 0 < k) (bs : List α) :
    (pieces k bs).length = (bs.length + k - 1) / k := by
  induction bs using pieces_induction hk with
  | nil => rw [pieces_nil, List.length_nil, List.length_nil, Nat.div_eq_of_lt (by omega)]
  | cons bs hbs ih =>
    have hpos := List.length_pos_of_ne_nil hbs
    rw [pieces_of_pos hk hbs, List.length_cons, ih, List.length_drop]
    by_cases h : k ≤ bs.length
    · rw [show bs.length + k - 1 = (bs.length - k + k - 1) + k by omega, Nat.add_div_right _ hk]
    · rw [Nat.div_eq_of_lt (by omega),
        show bs.length + k - 1 = (bs.length - 1) + k by omega, Nat.add_div_right _ hk,
        Nat.div_eq_of_lt (by omega)]

theorem pieces_eq_range (hk : 0 < k) (bs : List α) :
    pieces k bs = (List.range ((bs.length + k - 1) / k)).map
      (fun i => (bs.drop (i * k)).take k) := by
  rw [← length_pieces hk]
  induction bs using pieces_induction hk with
  | nil => simp [pieces_nil]
  | cons bs hbs ih =>
    rw [pieces_of_pos hk hbs, List.length_cons, List.range_succ_eq_map, List.map_cons,
      List.map_map, Nat.zero_mul]
    refine congrArg (bs.take k :: ·) (ih.trans (List.map_congr_left fun i _ => ?_))
    rw [List.drop_drop, Function.comp_apply, Nat.succ_mul, Nat.add_comm k]

theorem length_le_of_mem_pieces (hk : 0 < k) (bs : List α) :
    ∀ p ∈ pieces k bs, p.length ≤ k := by
  induction bs using pieces_induction hk with
  | nil => simp [pieces_nil]
  | cons bs hbs ih =>
    rw [pieces_of_pos hk hbs]
    intro p hp
    rcases List.mem_cons.mp hp with rfl | hp
    · rw [List.length_take]
      exact Nat.min_le_left _ _
    · exact ih p hp

end Scrap.Buffered
