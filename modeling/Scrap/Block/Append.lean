/-
# Appending from a reader

`writeDocFrames` of the model takes the whole body. The code reads it from a stream, one buffer
ahead of the Frame it writes (`readDocFrames`), and writes the same Frames however the bytes arrive
(`readDocFrames_eq`); so `appendDocument` may be stated on the body.
-/
import Scrap.Block.Docs
import Scrap.Lib.Bytes
import Scrap.Lib.Stream

namespace Scrap.Block

open Buffered Bytes

/-- What a reader hands out; both ends of a file count as the end of the body. -/
def bodyOf (r : Reader UInt8) : Body := ⟨r.bytes, !r.ending.isEOF⟩

/-- The loop of `writeDocFrames` with the buffer `cur`, read with `curErr`: its Frames, and whether
it fails. -/
def readDocFramesLoop (docSeq : UInt32) (cur : List UInt8) (curErr : Option Ending)
    (body : Reader UInt8) (frameSeq : UInt32) : List Frame × Bool :=
  if curErr.any (!·.isEOF) then ([], true)
  else if _hcur : cur = [] then ([], false)
  else
    let next := if curErr.isNone then body.readFull maxFramePayload else ([], none, body)
    let isLast := curErr.any (·.isEOF) || next.1.isEmpty
    let (fs, failed) := readDocFramesLoop docSeq next.1 next.2.1 next.2.2 (frameSeq + 1)
    (⟨frameFlags frameSeq isLast, docSeq, frameSeq, cur⟩ :: fs, failed)
termination_by cur.length + body.bytes.length
decreasing_by
  have hpos := List.length_pos_of_ne_nil _hcur
  by_cases hnone : curErr.isNone = true
  · rw [dif_pos hnone, readFull_bytes, readFull_rest, List.length_take, List.length_drop]
    omega
  · rw [dif_neg hnone, List.length_nil]
    exact Nat.add_lt_add_right hpos _

def readDocFrames (docSeq : UInt32) (body : Reader UInt8) : List Frame × Bool :=
  let (cur, curErr, rest) := body.readFull maxFramePayload
  readDocFramesLoop docSeq cur curErr rest 0

def Writer.appendReader (sha256 : List UInt8 → Digest) (w : Writer) (f : BlkFile)
    (body : Reader UInt8) : Except WriterErr AppendResult × Writer × BlkFile :=
  let (fs, failed) := readDocFrames w.docSeq body
  let (w', f') := w.writeFrames f fs
  if failed then (.error .readBody, w', f')
  else if fs = [] then (.error .emptyBody, w, f)
  else
    let written := (fs.map (·.payload)).flatten
    (.ok ⟨sha256 written, written.length, UInt32.ofNat fs.length, w.offset⟩, w'.documentDone, f')

/-! ## The loop does not see how the bytes arrive -/

theorem maxFramePayload_pos : 0 < maxFramePayload := by decide

theorem framePayloads_eq_pieces (bytes : List UInt8) :
    framePayloads bytes = pieces maxFramePayload bytes :=
  (pieces_eq_range maxFramePayload_pos bytes).symm

section Loop

variable {docSeq : UInt32} {body : Reader UInt8} {cur : List UInt8} {frameSeq : UInt32}

theorem readDocFramesLoop_failed {e : Ending} (he : e.isEOF = false) :
    readDocFramesLoop docSeq cur (some e) body frameSeq = ([], true) := by
  rw [readDocFramesLoop, if_pos (by simp [he])]

theorem readDocFramesLoop_empty {curErr : Option Ending} (he : ∀ e ∈ curErr, e.isEOF = true) :
    readDocFramesLoop docSeq [] curErr body frameSeq = ([], false) := by
  have hany : curErr.any (!·.isEOF) = false := by
    cases curErr with
    | none => rfl
    | some e => simp [he e rfl]
  rw [readDocFramesLoop, if_neg (by simp [hany]), dif_pos rfl]

theorem readDocFramesLoop_last {e : Ending} (he : e.isEOF = true) (hcur : cur ≠ []) :
    readDocFramesLoop docSeq cur (some e) body frameSeq =
      ([⟨frameFlags frameSeq true, docSeq, frameSeq, cur⟩], false) := by
  rw [readDocFramesLoop, dif_neg hcur]
  simp only [Option.isNone_some, Bool.false_eq_true, if_false]
  rw [readDocFramesLoop_empty (by simp)]
  simp [he]

theorem readDocFramesLoop_full (hcur : cur ≠ []) :
    readDocFramesLoop docSeq cur none body frameSeq =
      (⟨frameFlags frameSeq (body.bytes.take maxFramePayload).isEmpty, docSeq, frameSeq, cur⟩ ::
        (readDocFramesLoop docSeq (body.readFull maxFramePayload).1
          (body.readFull maxFramePayload).2.1 (body.readFull maxFramePayload).2.2
          (frameSeq + 1)).1,
        (readDocFramesLoop docSeq (body.readFull maxFramePayload).1
          (body.readFull maxFramePayload).2.1 (body.readFull maxFramePayload).2.2
          (frameSeq + 1)).2) := by
  rw [readDocFramesLoop, dif_neg hcur]
  simp

end Loop

/-- The Frames of a Document from `frameSeq` on, as far as the stream gets. -/
def framesRead (docSeq frameSeq : UInt32) (r : Reader UInt8) : List Frame :=
  let fs := docFrames docSeq frameSeq (pieces maxFramePayload r.bytes)
  if r.ending.isEOF then fs else fs.take (r.bytes.length / maxFramePayload)

theorem framesRead_short {docSeq frameSeq : UInt32} {r : Reader UInt8}
    (h : r.bytes.length < maxFramePayload) :
    framesRead docSeq frameSeq r = if r.ending.isEOF ∧ r.bytes ≠ [] then
        [⟨frameFlags frameSeq true, docSeq, frameSeq, r.bytes⟩]
      else [] := by
  simp only [framesRead]
  rw [Nat.div_eq_of_lt h, List.take_zero]
  by_cases heof : r.ending.isEOF = true
  · by_cases hbs : r.bytes = []
    · rw [if_pos heof, if_neg (by simp [hbs]), hbs, pieces_nil]
      rfl
    · rw [if_pos heof, if_pos ⟨heof, hbs⟩, pieces_short (by omega) hbs]
      rfl
  · rw [if_neg heof, if_neg (by simp [heof])]

theorem framesRead_full {docSeq frameSeq : UInt32} {r : Reader UInt8}
    (h : maxFramePayload ≤ r.bytes.length) :
    framesRead docSeq frameSeq r =
      ⟨frameFlags frameSeq (r.bytes.drop maxFramePayload).isEmpty, docSeq, frameSeq,
        r.bytes.take maxFramePayload⟩ ::
        framesRead docSeq (frameSeq + 1) (r.readFull maxFramePayload).2.2 := by
  have hne : r.bytes ≠ [] := by
    rintro hnil
    rw [hnil] at h
    exact absurd h (by decide)
  have hlast : (pieces maxFramePayload (r.bytes.drop maxFramePayload)).isEmpty =
      (r.bytes.drop maxFramePayload).isEmpty := by
    rw [Bool.eq_iff_iff, List.isEmpty_iff, List.isEmpty_iff, pieces_eq_nil maxFramePayload_pos]
  simp only [framesRead, readFull_rest, readFull_ending, List.length_drop]
  rw [pieces_of_pos maxFramePayload_pos hne, docFrames_cons, hlast]
  by_cases heof : r.ending.isEOF = true
  · rw [if_pos heof, if_pos heof]
  have hdiv : r.bytes.length / maxFramePayload =
      (r.bytes.length - maxFramePayload) / maxFramePayload + 1 := by
    rw [Nat.div_eq_sub_div maxFramePayload_pos h]
  rw [if_neg heof, if_neg heof, hdiv, List.take_succ_cons]

theorem readDocFramesLoop_eq (docSeq : UInt32) : ∀ (n : Nat) (r : Reader UInt8)
    (frameSeq : UInt32), r.bytes.length = n →
    readDocFramesLoop docSeq (r.readFull maxFramePayload).1 (r.readFull maxFramePayload).2.1
      (r.readFull maxFramePayload).2.2 frameSeq =
      (framesRead docSeq frameSeq r, !r.ending.isEOF) := by
  intro n
  induction n using Nat.strongRecOn with
  | ind n ih =>
    intro r frameSeq hn
    by_cases hfull : maxFramePayload ≤ r.bytes.length
    · have hpos := maxFramePayload_pos
      have hcur : (r.readFull maxFramePayload).1 ≠ [] := by
        intro hnil
        have hlen := congrArg List.length hnil
        rw [readFull_bytes, List.length_take, List.length_nil] at hlen
        omega
      have hrest := ih _ (by rw [readFull_rest, List.length_drop]; omega)
        (r.readFull maxFramePayload).2.2 (frameSeq + 1) rfl
      have hempty : ((r.bytes.drop maxFramePayload).take maxFramePayload).isEmpty =
          (r.bytes.drop maxFramePayload).isEmpty := by
        rw [Bool.eq_iff_iff, List.isEmpty_iff, List.isEmpty_iff, List.take_eq_nil_iff]
        exact or_iff_right (by omega)
      rw [readFull_full r maxFramePayload hfull, readDocFramesLoop_full hcur, hrest,
        readFull_rest, hempty, framesRead_full hfull, readFull_bytes, readFull_ending]
    · obtain ⟨e, he, heof⟩ := readFull_short r maxFramePayload (by omega)
      rw [he, readFull_bytes, List.take_of_length_le (by omega), framesRead_short (by omega)]
      cases hend : r.ending.isEOF with
      | false =>
        rw [readDocFramesLoop_failed (by rw [heof, hend])]
        rfl
      | true =>
        by_cases hbs : r.bytes = []
        · rw [hbs, readDocFramesLoop_empty (by simp [heof, hend])]
          rfl
        · rw [readDocFramesLoop_last (by rw [heof, hend]) hbs, if_pos ⟨rfl, hbs⟩]
          rfl

theorem readDocFrames_eq (docSeq : UInt32) (r : Reader UInt8) :
    readDocFrames docSeq r = (writeDocFrames docSeq (bodyOf r), (bodyOf r).fails) := by
  have hloop := readDocFramesLoop_eq docSeq _ r 0 rfl
  simp only [readDocFrames, writeDocFrames, bodyOf, framePayloads_eq_pieces] at hloop ⊢
  rw [hloop]
  cases hend : r.ending.isEOF <;> simp [framesRead, hend]

theorem Writer.appendReader_eq (sha256 : List UInt8 → Digest) (w : Writer) (f : BlkFile)
    (r : Reader UInt8) : w.appendReader sha256 f r = w.appendDocument sha256 f (bodyOf r) := by
  simp only [Writer.appendReader, Writer.appendDocument, readDocFrames_eq]
  by_cases hfails : (bodyOf r).fails = true
  · rw [if_pos hfails, if_pos hfails]
  have hwritten : ((writeDocFrames w.docSeq (bodyOf r)).map (·.payload)).flatten =
      (bodyOf r).bytes := by
    rw [writeDocFrames, if_neg hfails, payloads_docFrames, framePayloads_eq_pieces,
      flatten_pieces maxFramePayload_pos]
  rw [if_neg hfails, if_neg hfails, hwritten]

/-! ## The bytes of the file -/

/-- What `WriteFrame` writes; `crc32c` is the Castagnoli checksum. -/
def encodeFrame (crc32c : List UInt8 → UInt32) (f : Frame) : List UInt8 :=
  let header := leBytes 2 0x5343 ++ [0x01, f.flags] ++ leBytes 2 frameHeaderSize ++ [0, 0] ++
    leBytes 4 f.docSeq.toNat ++ leBytes 4 f.frameSeq.toNat ++ leBytes 4 f.payload.length ++
    leBytes 4 (crc32c f.payload).toNat ++ [0, 0, 0, 0]
  header ++ leBytes 4 (crc32c header).toNat ++ f.payload

/-- The bytes of a `.blk` file of whole Frames behind its header. -/
def BlkFile.stored (crc32c : List UInt8 → UInt32) (f : BlkFile) : List UInt8 :=
  f.frames.flatMap (encodeFrame crc32c)

theorem length_encodeFrame (crc32c : List UInt8 → UInt32) (f : Frame) :
    (encodeFrame crc32c f).length = f.size := by
  simp [encodeFrame, Frame.size, frameHeaderSize]
  omega

end Scrap.Block
