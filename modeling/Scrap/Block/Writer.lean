/-
# The Block writer

The writer appends whole Documents to the open `.blk` file and keeps the append offset and the next
`doc_seq` in memory. `scanWriterState` derives both again from the Frames on disk, and accepts a
file only when the Frames are numbered as the writer numbers them and end with a whole Document.

`writeDocFrames` reads one Frame ahead, so that it knows the last Frame before it writes it; an
append that fails leaves the Frames written so far for the caller to truncate.
-/
import Scrap.Block.Frame
import Scrap.Block.Idx

namespace Scrap.Block

structure Writer where
  blockID : UInt64
  offset : Nat
  docSeq : UInt32
  docCount : UInt32
deriving DecidableEq

inductive WriterErr where
  /-- `incomplete document at EOF` -/
  | incompleteDocument
  /-- `ErrTruncated`: the file ends inside a Frame -/
  | truncated
  /-- `doc_seq %d, want %d` -/
  | docSeq (got want : UInt32)
  /-- `frame_seq %d, want %d` -/
  | frameSeq (got want : UInt32)
  /-- `invalid frame flags 0x%02x for frame_seq %d` -/
  | frameFlags (flags : UInt8) (frameSeq : UInt32)
  /-- `truncate offset %d before header` -/
  | truncateBeforeHeader (offset : Nat)
  /-- `truncate offset %d beyond end %d` -/
  | truncateBeyondEnd (offset wend : Nat)
  /-- `document size is negative` -/
  | negativeSize
  /-- `document has no frames` -/
  | noFrames
  /-- `document body is empty` -/
  | emptyBody
  /-- `ErrPayloadLimit` -/
  | payloadLimit
  /-- `read body: %w` -/
  | readBody
deriving DecidableEq

def newWriter (blockID : UInt64) : Writer := ⟨blockID, headerSize, 0, 0⟩

def validateWriterScanFrame (f : Frame) (docSeq frameSeq : UInt32) : Except WriterErr Unit :=
  if f.docSeq ≠ docSeq then .error (.docSeq f.docSeq docSeq)
  else if f.frameSeq ≠ frameSeq then .error (.frameSeq f.frameSeq frameSeq)
  else if f.flags ≠ frameFlags frameSeq (isLastFrame f.flags) then
    .error (.frameFlags f.flags frameSeq)
  else .ok ()

/-- What `ReadFrame` reports where no whole Frame is left. Exactly behind a Frame header that is the
end of the file: the payload read returns `io.EOF` and the error wraps it. -/
def tailIsEOF (torn : Nat) : Bool := torn = 0 ∨ torn = frameHeaderSize

/-- The loop of `scanWriterState` over the Frames left to read. -/
def scanFrames (torn : Nat) :
    Nat → UInt32 → UInt32 → UInt32 → List Frame → Except WriterErr (Nat × UInt32 × UInt32)
  | offset, docSeq, frameSeq, docCount, [] =>
    if tailIsEOF torn then
      if frameSeq ≠ 0 then .error .incompleteDocument else .ok (offset, docSeq, docCount)
    else .error .truncated
  | offset, docSeq, frameSeq, docCount, f :: fs =>
    match validateWriterScanFrame f docSeq frameSeq with
    | .error err => .error err
    | .ok () =>
      if isLastFrame f.flags then
        scanFrames torn (offset + f.size) (docSeq + 1) 0 (docCount + 1) fs
      else scanFrames torn (offset + f.size) docSeq (frameSeq + 1) docCount fs

def scanWriterState (f : BlkFile) : Except WriterErr (Nat × UInt32 × UInt32) :=
  scanFrames f.torn headerSize 0 0 0 f.frames

/-- `OpenWriter` on a file with a valid header. -/
def openWriter (f : BlkFile) (blockID : UInt64) : Except WriterErr Writer :=
  match scanWriterState f with
  | .error err => .error err
  | .ok (offset, docSeq, docCount) => .ok ⟨blockID, offset, docSeq, docCount⟩

/-- The file is cut before the counters are derived, so a scan that fails leaves a cut file under
the old ones. -/
def Writer.truncate (w : Writer) (f : BlkFile) (offset : Nat) :
    Except WriterErr Unit × Writer × BlkFile :=
  if offset < headerSize then (.error (.truncateBeforeHeader offset), w, f)
  else if w.offset < offset then (.error (.truncateBeyondEnd offset w.offset), w, f)
  else
    let f' := f.truncate offset
    match scanWriterState f' with
    | .error err => (.error err, w, f')
    | .ok (offset', docSeq, docCount) => (.ok (), ⟨w.blockID, offset', docSeq, docCount⟩, f')

/-! ## Appending a Document -/

/-- A Document prepared in memory: its Frame payloads, digest and plaintext size. -/
structure DocumentFrames where
  payloads : List (List UInt8)
  sha256 : Digest
  size : Int
deriving DecidableEq

structure AppendResult where
  sha256 : Digest
  size : Int
  frameCount : UInt32
  firstFrameOffset : Nat
deriving DecidableEq

/-- The Frames of a Document from `frameSeq` on; the last payload is flagged. -/
def docFrames (docSeq : UInt32) : UInt32 → List (List UInt8) → List Frame
  | _, [] => []
  | frameSeq, [p] => [⟨frameFlags frameSeq true, docSeq, frameSeq, p⟩]
  | frameSeq, p :: q :: ps =>
    ⟨frameFlags frameSeq false, docSeq, frameSeq, p⟩ ::
      docFrames docSeq (frameSeq + 1) (q :: ps)

/-- Write Frames at the writer's position, behind the last whole Frame of its last scan: a torn
Frame header there is overwritten. -/
def Writer.writeFrames (w : Writer) (f : BlkFile) (fs : List Frame) : Writer × BlkFile :=
  ({ w with offset := w.offset + framesSize fs }, ⟨f.frames ++ fs, 0⟩)

def Writer.documentDone (w : Writer) : Writer :=
  { w with docSeq := w.docSeq + 1, docCount := w.docCount + 1 }

/-- `WriteFrame` refuses a payload above the limit. -/
def Writer.appendDocumentFrames (w : Writer) (f : BlkFile) (d : DocumentFrames) :
    Except WriterErr AppendResult × Writer × BlkFile :=
  if d.size < 0 then (.error .negativeSize, w, f)
  else if d.payloads = [] then (.error .noFrames, w, f)
  else
    let within := d.payloads.takeWhile (fun p => p.length ≤ maxFramePayload)
    let (w', f') := w.writeFrames f ((docFrames w.docSeq 0 d.payloads).take within.length)
    if within.length < d.payloads.length then (.error .payloadLimit, w', f')
    else
      (.ok ⟨d.sha256, d.size, UInt32.ofNat d.payloads.length, w.offset⟩, w'.documentDone, f')

/-- What a body reader hands out, and whether it ends with an error. -/
structure Body where
  bytes : List UInt8
  fails : Bool
deriving DecidableEq

/-- The payloads a body is cut into by reads of `maxFramePayload` bytes. -/
def framePayloads (bytes : List UInt8) : List (List UInt8) :=
  (List.range ((bytes.length + maxFramePayload - 1) / maxFramePayload)).map fun i =>
    (bytes.drop (i * maxFramePayload)).take maxFramePayload

/-- The Frames `writeDocFrames` writes. A reader that fails has had its full payloads written; the
one it failed in is dropped, and if nothing of it was read the one before has been flagged as the
last. -/
def writeDocFrames (docSeq : UInt32) (body : Body) : List Frame :=
  let fs := docFrames docSeq 0 (framePayloads body.bytes)
  if body.fails then fs.take (body.bytes.length / maxFramePayload) else fs

def Writer.appendDocument (sha256 : List UInt8 → Digest) (w : Writer) (f : BlkFile)
    (body : Body) : Except WriterErr AppendResult × Writer × BlkFile :=
  let fs := writeDocFrames w.docSeq body
  let (w', f') := w.writeFrames f fs
  if body.fails then (.error .readBody, w', f')
  else if fs = [] then (.error .emptyBody, w, f)
  else
    (.ok ⟨sha256 body.bytes, body.bytes.length, UInt32.ofNat fs.length, w.offset⟩,
      w'.documentDone, f')

/-- A source of ciphertext Frames, and whether it ends with an error instead of a last Frame. -/
structure FrameSource where
  payloads : List (List UInt8)
  fails : Bool
deriving DecidableEq

/-- The first Frame offset and the Frame count. -/
def Writer.appendDocumentFrameSource (w : Writer) (f : BlkFile) (src : FrameSource) :
    Except WriterErr (Nat × UInt32) × Writer × BlkFile :=
  let within := src.payloads.takeWhile (fun p => p.length ≤ maxFramePayload)
  if within.length < src.payloads.length then
    let (w', f') := w.writeFrames f ((docFrames w.docSeq 0 src.payloads).take within.length)
    (.error .payloadLimit, w', f')
  else if src.fails then
    -- the Frame that would have been the last never came
    let (w', f') := w.writeFrames f ((docFrames w.docSeq 0 (src.payloads ++ [[]])).take
      src.payloads.length)
    (.error .readBody, w', f')
  else if src.payloads = [] then (.error .noFrames, w, f)
  else
    let (w', f') := w.writeFrames f (docFrames w.docSeq 0 src.payloads)
    (.ok (w.offset, UInt32.ofNat src.payloads.length), w'.documentDone, f')

end Scrap.Block
