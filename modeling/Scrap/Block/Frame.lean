/-
# Frames and the `.blk` file

A `.blk` file is a 40-byte header followed by Frames, each a 32-byte header and a payload of at most
64 KiB. The Frames of one Document share a `doc_seq`, are numbered by `frame_seq` from zero, and
the flags mark the first and the last one.

A `BlkFile` is the list of whole Frames and the number of bytes of an incomplete Frame behind them,
which only a crash or a truncation inside a Frame leaves.
-/
import Mathlib.Algebra.Ring.Nat
import Mathlib.Data.List.Basic

namespace Scrap.Block

def headerSize : Nat := 40
def frameHeaderSize : Nat := 32
def maxFramePayload : Nat := 64 * 1024

def flagFirstFrame : UInt8 := 0x01
def flagLastFrame : UInt8 := 0x02
def flagSingleFrame : UInt8 := 0x03

structure Frame where
  flags : UInt8
  docSeq : UInt32
  frameSeq : UInt32
  payload : List UInt8
deriving DecidableEq

def Frame.size (f : Frame) : Nat := frameHeaderSize + f.payload.length

def frameFlags (seq : UInt32) (isLast : Bool) : UInt8 :=
  if seq = 0 ∧ isLast then flagSingleFrame
  else if seq = 0 then flagFirstFrame
  else if isLast then flagLastFrame
  else 0

def isLastFrame (flags : UInt8) : Bool :=
  flags = flagLastFrame ∨ flags = flagSingleFrame

def framesSize (fs : List Frame) : Nat := (fs.map Frame.size).sum

structure BlkFile where
  frames : List Frame
  torn : Nat
deriving DecidableEq

/-- `NewWriter`: the header alone. -/
def newBlkFile : BlkFile := ⟨[], 0⟩

def BlkFile.size (f : BlkFile) : Nat := headerSize + framesSize f.frames + f.torn

/-- The whole Frames within the first `n` bytes, and the bytes left over. -/
def cutFrames : List Frame → Nat → List Frame × Nat
  | [], n => ([], n)
  | f :: fs, n =>
    if f.size ≤ n then
      let (kept, rest) := cutFrames fs (n - f.size)
      (f :: kept, rest)
    else ([], n)

/-- File truncation to `offset`, at or behind the header and not beyond the end. -/
def BlkFile.truncate (f : BlkFile) (offset : Nat) : BlkFile :=
  let (kept, rest) := cutFrames f.frames (offset - headerSize)
  ⟨kept, rest⟩

/-! ## Sizes and cuts -/

@[simp] theorem framesSize_nil : framesSize [] = 0 := rfl

@[simp] theorem framesSize_cons (f : Frame) (fs : List Frame) :
    framesSize (f :: fs) = f.size + framesSize fs := by
  simp [framesSize]

@[simp] theorem framesSize_append (fs gs : List Frame) :
    framesSize (fs ++ gs) = framesSize fs + framesSize gs := by
  simp [framesSize]

theorem Frame.size_pos (f : Frame) : 0 < f.size :=
  Nat.lt_of_lt_of_le (by decide) (Nat.le_add_right frameHeaderSize f.payload.length)

theorem cutFrames_append :
    ∀ fs gs : List Frame, cutFrames (fs ++ gs) (framesSize fs) = (fs, 0)
  | [], [] => rfl
  | [], g :: gs => by
    have hpos := g.size_pos
    rw [List.nil_append, framesSize_nil, cutFrames, if_neg (by omega)]
  | f :: fs, gs => by
    rw [List.cons_append, framesSize_cons, cutFrames, if_pos (by omega),
      Nat.add_sub_cancel_left, cutFrames_append fs gs]

theorem cutFrames_initial : ∀ (fs : List Frame) (n : Nat), (cutFrames fs n).1 <+: fs
  | [], _ => List.nil_prefix
  | f :: fs, n => by
    unfold cutFrames
    split
    · simpa using cutFrames_initial fs (n - f.size)
    · exact List.nil_prefix

theorem cutFrames_size :
    ∀ (fs : List Frame) (n : Nat), framesSize (cutFrames fs n).1 + (cutFrames fs n).2 = n
  | [], n => by simp [cutFrames]
  | f :: fs, n => by
    unfold cutFrames
    split
    · rename_i h
      have ih := cutFrames_size fs (n - f.size)
      simp only [framesSize_cons]
      omega
    · simp

theorem cutFrames_inside (g : Frame) (gs : List Frame) {t : Nat} (ht : t < g.size) :
    ∀ fs : List Frame, cutFrames (fs ++ g :: gs) (framesSize fs + t) = (fs, t)
  | [] => by rw [List.nil_append, framesSize_nil, Nat.zero_add, cutFrames, if_neg (by omega)]
  | f :: fs => by
    rw [List.cons_append, framesSize_cons, cutFrames, if_pos (by omega),
      show f.size + framesSize fs + t - f.size = framesSize fs + t by omega,
      cutFrames_inside g gs ht fs]

theorem exists_frame_at : ∀ (fs : List Frame) (n : Nat), n ≤ framesSize fs → n = framesSize fs ∨
      ∃ before g after t, fs = before ++ g :: after ∧ t < g.size ∧ n = framesSize before + t
  | [], n, h => .inl (by simpa using h)
  | f :: fs, n, h => by
    rw [framesSize_cons] at h ⊢
    by_cases hle : f.size ≤ n
    · rcases exists_frame_at fs (n - f.size) (by omega) with hend | ⟨before, g, after, t, rfl, ht, hn⟩
      · exact .inl (by omega)
      · exact .inr ⟨f :: before, g, after, t, rfl, ht, by rw [framesSize_cons]; omega⟩
    · exact .inr ⟨[], f, fs, n, rfl, by omega, by simp⟩

theorem BlkFile.truncate_append (fs gs : List Frame) (t : Nat) :
    BlkFile.truncate ⟨fs ++ gs, t⟩ (headerSize + framesSize fs) = ⟨fs, 0⟩ := by
  simp [BlkFile.truncate, cutFrames_append]

end Scrap.Block
