/-
# The reader of a Document body

It hands on what the body gives, up to `maxBytes`; behind that it asks for one byte more, and one
that is there is an error. An empty body is an error too.

How the body answers a read (`Delivery`) is open, and `body_reader` is about all reads, also those
behind an error. The error is not kept: behind the limit each read takes a byte of the body, and
behind the last one `io.EOF` is returned (`read_on_reaches_eof`).
-/
import Mathlib.Data.List.Basic
import Mathlib.Tactic.SplitIfs

namespace Scrap.Store

inductive ReadErr where
  | eof
  | invalidArgument (msg : String)
  | resourceExhausted (msg : String)
deriving DecidableEq

structure Delivery where
  /-- how many bytes it gives, if it has them and they are asked for -/
  bytes : Nat
  /-- with the last byte, or behind it, it also says `io.EOF` -/
  eof : Bool

structure DocumentBodyReader where
  /-- what is not read yet -/
  body : List UInt8
  maxBytes : Nat
  totalBytes : Nat

def newDocumentBodyReader (body : List UInt8) (maxBytes : Nat) : DocumentBodyReader :=
  ⟨body, maxBytes, 0⟩

def readBody (body : List UInt8) (want : Nat) (d : Delivery) :
    List UInt8 × Option ReadErr × List UInt8 :=
  let n := min d.bytes want
  (body.take n, if d.eof ∧ body.drop n = [] then some .eof else none, body.drop n)

namespace DocumentBodyReader

def readLimitProbe (r : DocumentBodyReader) (d : Delivery) :
    List UInt8 × Option ReadErr × DocumentBodyReader :=
  let (probe, err, body) := readBody r.body 1 d
  ([], if probe ≠ [] then some (.resourceExhausted "document too large") else err,
    { r with body := body })

def read (r : DocumentBodyReader) (want : Nat) (d : Delivery) :
    List UInt8 × Option ReadErr × DocumentBodyReader :=
  if want = 0 then ([], none, r)
  else if r.totalBytes ≥ r.maxBytes then r.readLimitProbe d
  else
    let (p, err, body) := readBody r.body (min want (r.maxBytes - r.totalBytes)) d
    if r.totalBytes = 0 ∧ p = [] ∧ err = some .eof then
      ([], some (.invalidArgument "document body is empty"), { r with body := body })
    else (p, err, { r with body := body, totalBytes := r.totalBytes + p.length })

/-- The bytes and the errors that the reads return. A call is the size of the buffer and the answer
of the body, which a call with no buffer does not ask for. -/
def readAll (r : DocumentBodyReader) : List (Nat × Delivery) → List UInt8 × List ReadErr
  | [] => ([], [])
  | (want, d) :: calls =>
    let (p, err, r') := r.read want d
    let (more, errs) := r'.readAll calls
    (p ++ more, err.toList ++ errs)

/-- What the reader has still to return, and the error behind it. -/
def left (r : DocumentBodyReader) : List UInt8 := r.body.take (r.maxBytes - r.totalBytes)

def ending (r : DocumentBodyReader) : ReadErr :=
  if r.totalBytes = 0 ∧ r.body = [] then .invalidArgument "document body is empty"
  else if r.body.length ≤ r.maxBytes - r.totalBytes then .eof
  else .resourceExhausted "document too large"

end DocumentBodyReader

/-- The answer has a byte, or `io.EOF` when there is none. -/
def Delivery.gives (d : Delivery) : Bool := 0 < d.bytes && d.eof

theorem readBody_cases (body : List UInt8) (want : Nat) (d : Delivery) :
    ∃ p err rest, readBody body want d = (p, err, rest) ∧ body = p ++ rest ∧ p.length ≤ want ∧
      (err = none ∨ err = some .eof ∧ rest = []) ∧
      (0 < want → d.gives = true → p = [] → err = some .eof) := by
  refine ⟨_, _, _, rfl, (List.take_append_drop ..).symm, ?_, ?_, fun hwant hgives hp => ?_⟩
  · exact Nat.le_trans (List.length_take_le ..) (Nat.min_le_right ..)
  · split_ifs with heof
    · exact .inr ⟨rfl, heof.2⟩
    · exact .inl rfl
  · simp only [Delivery.gives, Bool.and_eq_true, decide_eq_true_eq] at hgives
    rcases List.take_eq_nil_iff.mp hp with hzero | rfl
    · omega
    · simp [hgives.2]

namespace DocumentBodyReader

variable {r : DocumentBodyReader}

/-- Behind an error nothing is left, and the error stays unless it is the one of the limit. -/
theorem read_step (hmax : 0 < r.maxBytes) (want : Nat) (d : Delivery) :
    match r.read want d with
    | (p, some err, r') => p = r.left ∧ err = r.ending ∧ r'.left = [] ∧ r'.maxBytes = r.maxBytes ∧
      (r.ending ≠ .resourceExhausted "document too large" → r'.ending = r.ending)
    | (p, none, r') => r.left = p ++ r'.left ∧ r'.ending = r.ending ∧ r'.maxBytes = r.maxBytes ∧
      (0 < want → d.gives = true → p ≠ []) := by
  obtain ⟨body, m, t⟩ := r
  simp only at hmax
  by_cases hwant : want = 0
  · simp [read, hwant]
  by_cases hfull : t ≥ m
  · have ht : t ≠ 0 := by omega
    have hsub : m - t = 0 := Nat.sub_eq_zero_of_le hfull
    obtain ⟨p, err, rest, hread, rfl, -, herr, hgives⟩ := readBody_cases body 1 d
    simp only [read, if_neg hwant, if_pos hfull, readLimitProbe, hread, left, ending]
    cases p with
    | nil =>
      rcases herr with rfl | ⟨rfl, rfl⟩
      · have hno : d.gives = false := by simpa using hgives
        simp [hsub, ht, hno]
      · simp [ht]
    | cons b bs => simp [hsub, ht]
  · obtain ⟨p, err, rest, hread, rfl, hp, herr, hgives⟩ := readBody_cases body (min want (m - t)) d
    have hpm : p.length ≤ m - t := by omega
    have hleft : (p ++ rest).take (m - t) = p ++ rest.take (m - (t + p.length)) := by
      rw [List.take_append, List.take_of_length_le hpm, Nat.sub_sub]
    simp only [read, if_neg hwant, if_neg hfull, hread, left, ending, hleft]
    rcases herr with rfl | ⟨rfl, rfl⟩
    · have hnil : t + p.length = 0 ∧ rest = [] ↔ t = 0 ∧ p ++ rest = [] := by
        simp [Nat.add_eq_zero_iff, and_assoc]
      have hlen : rest.length ≤ m - (t + p.length) ↔ (p ++ rest).length ≤ m - t := by
        rw [List.length_append]
        omega
      simp only [reduceCtorEq, and_false, if_false, hnil, hlen, true_and]
      intro hpos hd hp
      cases hgives (Nat.lt_min.mpr ⟨by omega, by omega⟩) hd hp
    · by_cases hempty : t = 0 ∧ p = []
      · simp [hempty]
      · simp [hempty, hpm]

/-- What all reads return. A call that asks for a byte and is given one returns one, before the
first error. -/
theorem readAll_spec (hmax : 0 < r.maxBytes) (calls : List (Nat × Delivery)) :
    let out := r.readAll calls
    out.1 <+: r.left ∧
      (out.2 = [] → (calls.countP fun call => 0 < call.1 && call.2.gives) ≤ out.1.length) ∧
      (out.2 ≠ [] → out.1 = r.left) ∧ (∀ err ∈ out.2.head?, err = r.ending) ∧
      (r.ending ≠ .resourceExhausted "document too large" → ∀ err ∈ out.2, err = r.ending) := by
  induction calls generalizing r with
  | nil => exact ⟨List.nil_prefix, fun _ => Nat.le_refl _, fun h => absurd rfl h, nofun, fun _ => nofun⟩
  | cons call calls ih =>
    obtain ⟨want, d⟩ := call
    have hstep := read_step hmax want d
    simp only [readAll]
    split at hstep
    next p err r' hread =>
      obtain ⟨rfl, rfl, hleft, hmax', hsame⟩ := hstep
      obtain ⟨hpre, -, -, -, hrest⟩ := ih (hmax' ▸ hmax)
      rw [hleft, List.prefix_nil] at hpre
      simp only [hread, hpre, List.append_nil, Option.toList_some, List.singleton_append]
      refine ⟨List.prefix_refl _, nofun, fun _ => trivial, by simp, fun hne => ?_⟩
      refine List.forall_mem_cons.mpr ⟨rfl, fun err herr => ?_⟩
      rw [← hsame hne]
      exact hrest (hsame hne ▸ hne) err herr
    next p r' hread =>
      obtain ⟨hleft, hend, hmax', hgives⟩ := hstep
      obtain ⟨hpre, hcount, hall, hfirst, hrest⟩ := ih (hmax' ▸ hmax)
      simp only [hread, hleft, Option.toList_none, List.nil_append, ← hend]
      refine ⟨(List.prefix_append_right_inj p).mpr hpre, fun hnone => ?_,
        fun hsome => by rw [hall hsome], hfirst, hrest⟩
      have hle := hcount hnone
      simp only [List.countP_cons, List.length_append]
      split
      next h =>
        simp only [Bool.and_eq_true, decide_eq_true_eq] at h
        have hpos := List.length_pos_iff.mpr (hgives h.1 h.2)
        omega
      · omega

end DocumentBodyReader

open DocumentBodyReader

/-- All reads return a prefix of the first `m` bytes, all of them once there is an error, and before
that a byte for each call that asks for one and is given one. The errors of an empty body are that
it is empty, those of a body of at most `m` bytes `io.EOF`, and the first one of a longer body is
that it is too large. -/
theorem body_reader {m : Nat} (hm : 1 ≤ m) (body : List UInt8) (calls : List (Nat × Delivery)) :
    let out := (newDocumentBodyReader body m).readAll calls
    out.1 <+: body.take m ∧
      (out.2 = [] → (calls.countP fun call => 0 < call.1 && call.2.gives) ≤ out.1.length) ∧
      (out.2 ≠ [] → out.1 = body.take m) ∧
      (body = [] → ∀ err ∈ out.2, err = .invalidArgument "document body is empty") ∧
      (1 ≤ body.length → body.length ≤ m → ∀ err ∈ out.2, err = .eof) ∧
      (m < body.length → ∀ err ∈ out.2.head?, err = .resourceExhausted "document too large") := by
  obtain ⟨hpre, hcount, hall, hfirst, hevery⟩ :=
    readAll_spec (r := newDocumentBodyReader body m) hm calls
  refine ⟨hpre, hcount, hall, ?_, fun hpos hle => ?_, fun hlt => ?_⟩
  · rintro rfl
    exact hevery (by simp [ending, newDocumentBodyReader])
  · have hend : (newDocumentBodyReader body m).ending = .eof := by
      simp [ending, newDocumentBodyReader, List.length_pos_iff.mp hpos, hle]
    exact hend ▸ hevery (by simp [hend])
  · have hne := List.length_pos_iff.mp (Nat.zero_lt_of_lt hlt)
    simpa [ending, newDocumentBodyReader, hne, Nat.not_le.mpr hlt] using hfirst

/-- The last byte comes together with `io.EOF`, and the caller reads on. -/
theorem body_reader_two :
    let calls := [(0, ⟨1, true⟩), (4, ⟨1, false⟩), (4, ⟨0, false⟩), (1, ⟨1, true⟩), (3, ⟨1, true⟩)]
    let out := (newDocumentBodyReader [7, 8] 2).readAll calls
    out.1 = [7, 8] ∧ out.2.length = 2 ∧ ∀ err ∈ out.2, err = .eof := by
  obtain ⟨-, -, hall, -, heof, -⟩ := body_reader (m := 2) (by decide) [7, 8]
    [(0, ⟨1, true⟩), (4, ⟨1, false⟩), (4, ⟨0, false⟩), (1, ⟨1, true⟩), (3, ⟨1, true⟩)]
  exact ⟨hall (by decide), rfl, heof (by decide) (by decide)⟩

/-- The byte behind the limit is gone with the error: the next read returns `io.EOF`. -/
theorem read_on_reaches_eof :
    let d : Delivery := ⟨1, true⟩
    let first := (newDocumentBodyReader [7, 8] 1).read 1 d
    let second := first.2.2.read 1 d
    let third := second.2.2.read 1 d
    first.1 = [7] ∧ second.2.1 = some (.resourceExhausted "document too large") ∧
      third.2.1 = some .eof := by
  decide

end Scrap.Store
