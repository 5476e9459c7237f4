/-
# The writer and its file, byte by byte

`Writer` of the model appends to a list of Frames. Here it has a file of bytes and a position in
it, and the disk may fail at any byte: an append then leaves whole Frames, a part of one, or all of
them without the fsync, and the caller truncates to where the append started.

`writer_matches_file` follows any sequence of such calls; what carries it is `Session.Holds`.
-/
import Mathlib.Data.List.Induction
import Scrap.Block.FrameCodec
import Scrap.Block.Scan

namespace Scrap.Block.Disk

open Bytes Buffered Records

/-! ## The Block header -/

inductive HeaderErr where
  /-- `read: %w` -/
  | read
  /-- `invalid magic %q` -/
  | magic
  /-- `version %d` -/
  | version (got : Nat)
  /-- `header_len %d` -/
  | headerLen (got : Nat)
  /-- `shard_id %d want %d` -/
  | shardID (got : Nat)
  /-- `block_id %d want %d` -/
  | blockID (got : Nat)
  /-- `header CRC mismatch` -/
  | crc
deriving DecidableEq

/-- `SCRP` -/
def blockMagic : List UInt8 := [0x53, 0x43, 0x52, 0x50]

section Header

variable (crc32c : List UInt8 → UInt32)

/-- The part of a Block header that its checksum covers. -/
def blockHead (shardID blockID createdAtUs : UInt64) : List UInt8 :=
  blockMagic ++ leBytes 2 1 ++ leBytes 2 headerSize ++ leBytes 8 shardID.toNat ++
    leBytes 8 blockID.toNat ++ leBytes 8 createdAtUs.toNat ++ [0, 0, 0, 0]

def encodeHeader (shardID blockID createdAtUs : UInt64) : List UInt8 :=
  blockHead shardID blockID createdAtUs ++
    leBytes 4 (crc32c (blockHead shardID blockID createdAtUs)).toNat

def verifyHeader (bs : List UInt8) (shardID blockID : UInt64) : Except HeaderErr Unit :=
  match takeFull headerSize bs with
  | .error _ => .error .read
  | .ok (hdr, _) =>
    if slice hdr 0 4 ≠ blockMagic then .error .magic
    else if leNat (slice hdr 4 6) ≠ 1 then .error (.version (leNat (slice hdr 4 6)))
    else if leNat (slice hdr 6 8) ≠ headerSize then .error (.headerLen (leNat (slice hdr 6 8)))
    else if leNat (slice hdr 8 16) ≠ shardID.toNat then
      .error (.shardID (leNat (slice hdr 8 16)))
    else if leNat (slice hdr 16 24) ≠ blockID.toNat then
      .error (.blockID (leNat (slice hdr 16 24)))
    else if leNat (slice hdr 36 40) ≠ (crc32c (slice hdr 0 36)).toNat then .error .crc
    else .ok ()

theorem length_encodeHeader (shardID blockID createdAtUs : UInt64) :
    (encodeHeader crc32c shardID blockID createdAtUs).length = headerSize := by
  simp [encodeHeader, blockHead, blockMagic, headerSize]

theorem verifyHeader_encodeHeader (shardID blockID createdAtUs : UInt64) (rest : List UInt8) :
    verifyHeader crc32c (encodeHeader crc32c shardID blockID createdAtUs ++ rest) shardID blockID =
      .ok () := by
  generalize hhdr : encodeHeader crc32c shardID blockID createdAtUs = hdr
  have hlen : hdr.length = headerSize := by
    rw [← hhdr]
    exact length_encodeHeader crc32c shardID blockID createdAtUs
  have hmagic : slice hdr 0 4 = blockMagic := by rw [← hhdr]; rfl
  have hversion : slice hdr 4 6 = leBytes 2 1 := by rw [← hhdr]; rfl
  have hsize : slice hdr 6 8 = leBytes 2 headerSize := by rw [← hhdr]; rfl
  have hshard : slice hdr 8 16 = leBytes 8 shardID.toNat := by rw [← hhdr]; rfl
  have hblock : slice hdr 16 24 = leBytes 8 blockID.toNat := by rw [← hhdr]; rfl
  have hcrc : slice hdr 36 40 =
      leBytes 4 (crc32c (blockHead shardID blockID createdAtUs)).toNat := by rw [← hhdr]; rfl
  have hhead : slice hdr 0 36 = blockHead shardID blockID createdAtUs := by rw [← hhdr]; rfl
  have hone : leNat (leBytes 2 1) = 1 := by decide
  have hforty : leNat (leBytes 2 headerSize) = headerSize := by decide
  rw [verifyHeader, takeFull_append hlen]
  simp only
  rw [hmagic, hversion, hsize, hshard, hblock, hcrc, hhead]
  simp [hone, hforty]

end Header

/-! ## Opening a file -/

inductive DiskErr where
  | header (err : HeaderErr)
  /-- `scan writer %s: %w` -/
  | frame (err : FrameErr)
  | writer (err : WriterErr)
  /-- a write failed -/
  | write
  /-- `fsync after document: %w` -/
  | sync
deriving DecidableEq

/-- The loop of `scanWriterState` over the Frames; `stop` is the error of the last read. -/
def scanLoop (stop : FrameErr) :
    Nat → UInt32 → UInt32 → UInt32 → List Frame → Except DiskErr (Nat × UInt32 × UInt32)
  | offset, docSeq, frameSeq, docCount, [] =>
    if stop = .eof then
      if frameSeq ≠ 0 then .error (.writer .incompleteDocument) else .ok (offset, docSeq, docCount)
    else .error (.frame stop)
  | offset, docSeq, frameSeq, docCount, f :: fs =>
    match validateWriterScanFrame f docSeq frameSeq with
    | .error err => .error (.writer err)
    | .ok () =>
      if isLastFrame f.flags then
        scanLoop stop (offset + f.size) (docSeq + 1) 0 (docCount + 1) fs
      else scanLoop stop (offset + f.size) docSeq (frameSeq + 1) docCount fs

section Open

variable (crc32c : List UInt8 → UInt32)

def scanWriterState (bs : List UInt8) : Except DiskErr (Nat × UInt32 × UInt32) :=
  let w := (frameReader crc32c).walk (bs.drop headerSize)
  scanLoop w.stop headerSize 0 0 0 w.records

def openWriter (bs : List UInt8) (shardID blockID : UInt64) : Except DiskErr Writer :=
  match verifyHeader crc32c bs shardID blockID with
  | .error err => .error (.header err)
  | .ok () =>
    match scanWriterState crc32c bs with
    | .error err => .error err
    | .ok (offset, docSeq, docCount) => .ok ⟨blockID, offset, docSeq, docCount⟩

end Open

theorem scanLoop_ok {torn : Nat} {x : Nat × UInt32 × UInt32} : ∀ (fs : List Frame) (offset : Nat)
    (docSeq frameSeq docCount : UInt32),
    scanLoop (tornErr torn) offset docSeq frameSeq docCount fs = .ok x ↔
      scanFrames torn offset docSeq frameSeq docCount fs = .ok x
  | [], offset, docSeq, frameSeq, docCount => by
    simp only [scanLoop, scanFrames, tornErr]
    by_cases ht : tailIsEOF torn = true
    · by_cases hseq : frameSeq = 0 <;> simp [ht, hseq]
    · simp [ht]
  | f :: fs, offset, docSeq, frameSeq, docCount => by
    simp only [scanLoop, scanFrames]
    cases validateWriterScanFrame f docSeq frameSeq with
    | error err => simp
    | ok u => ?_
    simp only
    split
    · exact scanLoop_ok fs _ _ _ _
    · exact scanLoop_ok fs _ _ _ _

theorem openWriter_cut (crc32c : List UInt8 → UInt32) (shardID blockID createdAtUs : UInt64)
    {fs : List Frame} (hlimit : WithinLimit fs) {n : Nat} (hn : n ≤ framesSize fs) {w : Writer} :
    openWriter crc32c (encodeHeader crc32c shardID blockID createdAtUs ++
        (encodeFrames crc32c fs).take n) shardID blockID = .ok w ↔
      Block.openWriter ⟨(cutFrames fs n).1, (cutFrames fs n).2⟩ blockID = .ok w := by
  obtain ⟨hrecords, hstop⟩ := walk_cut crc32c hlimit hn
  have hdrop : (encodeHeader crc32c shardID blockID createdAtUs ++
      (encodeFrames crc32c fs).take n).drop headerSize = (encodeFrames crc32c fs).take n := by
    rw [← length_encodeHeader crc32c shardID blockID createdAtUs, List.drop_left]
  have hscan : scanWriterState crc32c (encodeHeader crc32c shardID blockID createdAtUs ++
      (encodeFrames crc32c fs).take n) =
        scanLoop (tornErr (cutFrames fs n).2) headerSize 0 0 0 (cutFrames fs n).1 := by
    simp only [scanWriterState, hdrop, hrecords, hstop]
  rw [openWriter, verifyHeader_encodeHeader, hscan, openWriter_ok, ← scanLoop_ok]
  cases scanLoop (tornErr (cutFrames fs n).2) headerSize 0 0 0 (cutFrames fs n).1 with
  | error err => simp
  | ok x => ?_
  obtain ⟨offset, docSeq, docCount⟩ := x
  obtain ⟨blockID', offset', docSeq', docCount'⟩ := w
  simp only [Except.ok.injEq, Writer.mk.injEq, Prod.mk.injEq]
  exact ⟨fun h => ⟨h.1.symm, h.2⟩, fun h => ⟨h.1.symm, h.2⟩⟩

/-! ## Writing and truncating -/

/-- An open file: its bytes and where the next read or write goes. -/
structure Handle where
  bytes : List UInt8
  pos : Nat
deriving DecidableEq

/-- Bytes are overwritten, and a gap behind the end is filled with zeros. -/
def Handle.write (h : Handle) (data : List UInt8) : Handle :=
  ⟨h.bytes.take h.pos ++ List.replicate (h.pos - h.bytes.length) 0 ++ data ++
    h.bytes.drop (h.pos + data.length), h.pos + data.length⟩

/-- What the disk does to an append: the bytes it still takes if it is going to fail, and whether
the fsync fails. -/
structure Faults where
  room : Option Nat
  syncFails : Bool
deriving DecidableEq

structure DiskWriter where
  writer : Writer
  file : Handle
deriving DecidableEq

inductive Source where
  /-- `AppendDocument` -/
  | body (r : Reader UInt8)
  /-- `AppendDocumentFrames` -/
  | prepared (d : DocumentFrames)
  /-- `AppendDocumentFrameSource` -/
  | streamed (src : FrameSource)

section Append

variable (crc32c : List UInt8 → UInt32)

/-- The calls of `WriteFrame` for a Document. The one that fails may have written a part of its
Frame, which the offset does not count. -/
def DiskWriter.writeFrames : Option Nat → DiskWriter → List Frame → Option DiskErr × DiskWriter
  | _, d, [] => (none, d)
  | room, d, f :: fs =>
    if maxFramePayload < f.payload.length then (some (.writer .payloadLimit), d)
    else if room.any (· < f.size) then
      (some .write, { d with file := d.file.write ((encodeFrame crc32c f).take (room.getD 0)) })
    else
      DiskWriter.writeFrames (room.map (· - f.size))
        ⟨{ d.writer with offset := d.writer.offset + f.size }, d.file.write (encodeFrame crc32c f)⟩ fs

/-- What the appends share: the Frames, the error that the source ends with, and the fsync. -/
def DiskWriter.appendFrames (io : Faults) (d : DiskWriter) (fs : List Frame)
    (ending : Option WriterErr) : Except DiskErr Unit × DiskWriter :=
  match d.writeFrames crc32c io.room fs with
  | (some err, d') => (.error err, d')
  | (none, d') =>
    match ending with
    | some err => (.error (.writer err), d')
    | none =>
      if io.syncFails then (.error .sync, d')
      else (.ok (), { d' with writer := d'.writer.documentDone })

/-- It takes a Document for empty when the Frame count, a `uint32`, is zero. -/
def DiskWriter.appendDocument (io : Faults) (d : DiskWriter) (r : Reader UInt8) :
    Except DiskErr Unit × DiskWriter :=
  let (fs, failed) := readDocFrames d.writer.docSeq r
  d.appendFrames crc32c io fs
    (if failed then some .readBody else if UInt32.ofNat fs.length = 0 then some .emptyBody else none)

def DiskWriter.appendDocumentFrames (io : Faults) (d : DiskWriter) (doc : DocumentFrames) :
    Except DiskErr Unit × DiskWriter :=
  if doc.size < 0 then (.error (.writer .negativeSize), d)
  else if doc.payloads = [] then (.error (.writer .noFrames), d)
  else d.appendFrames crc32c io (docFrames d.writer.docSeq 0 doc.payloads) none

/-- Where the source fails, the last Frame never came. -/
def DiskWriter.appendDocumentFrameSource (io : Faults) (d : DiskWriter) (src : FrameSource) :
    Except DiskErr Unit × DiskWriter :=
  if src.fails then
    d.appendFrames crc32c io
      ((docFrames d.writer.docSeq 0 (src.payloads ++ [[]])).take src.payloads.length) (some .readBody)
  else if src.payloads = [] then (.error (.writer .noFrames), d)
  else d.appendFrames crc32c io (docFrames d.writer.docSeq 0 src.payloads) none

def DiskWriter.append (io : Faults) (d : DiskWriter) : Source → Except DiskErr Unit × DiskWriter
  | .body r => d.appendDocument crc32c io r
  | .prepared doc => d.appendDocumentFrames crc32c io doc
  | .streamed src => d.appendDocumentFrameSource crc32c io src

/-- A writer whose truncation fails is not used again. -/
def DiskWriter.truncate (d : DiskWriter) (offset : Nat) : Except DiskErr DiskWriter :=
  if offset < headerSize then .error (.writer (.truncateBeforeHeader offset))
  else if d.writer.offset < offset then
    .error (.writer (.truncateBeyondEnd offset d.writer.offset))
  else
    match scanWriterState crc32c (d.file.bytes.take offset) with
    | .error err => .error err
    | .ok (offset', docSeq, docCount) =>
      .ok ⟨⟨d.writer.blockID, offset', docSeq, docCount⟩, ⟨d.file.bytes.take offset, offset'⟩⟩

end Append

/-! ## Sequences of calls -/

inductive Call where
  /-- an append, and if it fails the truncation to where it started -/
  | append (src : Source) (io : Faults)
  /-- a truncation to the end of the first `k` Documents -/
  | truncate (k : Nat)
  | reopen

/-- A writer in use. `docs` are the bytes of each Document appended and not cut off. -/
structure Session where
  shardID : UInt64
  disk : DiskWriter
  docs : List (List UInt8)

section Session

variable (crc32c : List UInt8 → UInt32)

/-- `NewWriter` -/
def Session.new (shardID blockID createdAtUs : UInt64) : Session :=
  ⟨shardID, ⟨newWriter blockID, ⟨encodeHeader crc32c shardID blockID createdAtUs, headerSize⟩⟩, []⟩

def Session.call (s : Session) : Call → Except DiskErr Session
  | .append src io =>
    match s.disk.append crc32c io src with
    | (.ok (), d) =>
      .ok { s with disk := d, docs := s.docs ++ [d.file.bytes.drop s.disk.writer.offset] }
    | (.error _, d) => (d.truncate crc32c s.disk.writer.offset).map fun d' => { s with disk := d' }
  | .truncate k =>
    (s.disk.truncate crc32c (headerSize + (s.docs.take k).flatten.length)).map fun d' =>
      { s with disk := d', docs := s.docs.take k }
  | .reopen =>
    (openWriter crc32c s.disk.file.bytes s.shardID s.disk.writer.blockID).map fun w =>
      { s with disk := ⟨w, ⟨s.disk.file.bytes, w.offset⟩⟩ }

def Session.run (s : Session) : List Call → Except DiskErr Session
  | [] => .ok s
  | c :: cs =>
    match s.call crc32c c with
    | .error err => .error err
    | .ok s' => s'.run cs

/-- The writer is what `OpenWriter` recovers, it stands at the end of the file, and the file is the
header and the Documents. -/
structure Session.Matches (s : Session) (createdAtUs : UInt64) : Prop where
  recovered : openWriter crc32c s.disk.file.bytes s.shardID s.disk.writer.blockID = .ok s.disk.writer
  atEnd : s.disk.writer.offset = s.disk.file.bytes.length
  unchanged : s.disk.file.bytes =
    encodeHeader crc32c s.shardID s.disk.writer.blockID createdAtUs ++ s.docs.flatten

end Session

/-! ## What the file holds between the calls -/

/-- No payload of the Documents is longer than a Frame can be. -/
def DocsFit (ds : List Payloads) : Prop := ∀ d ∈ ds, ∀ p ∈ d.val, p.length ≤ maxFramePayload

theorem docFrames_payload_mem {seq : UInt32} : ∀ {ps : List (List UInt8)} {fseq : UInt32} {f : Frame},
    f ∈ docFrames seq fseq ps → f.payload ∈ ps := by
  intro ps fseq f hf
  have hmem := List.mem_map_of_mem (f := (·.payload)) hf
  rwa [payloads_docFrames] at hmem

theorem DocsFit.encodeDocs : ∀ {ds : List Payloads} (seq : UInt32), DocsFit ds →
    WithinLimit (encodeDocs seq ds)
  | [], _, _ => fun f hf => absurd hf List.not_mem_nil
  | d :: ds, seq, h => by
    intro f hf
    rcases List.mem_append.mp hf with hf | hf
    · exact h d List.mem_cons_self _ (docFrames_payload_mem hf)
    · exact DocsFit.encodeDocs (seq + 1) (fun e he => h e (List.mem_cons_of_mem _ he)) f hf

section Stored

variable (crc32c : List UInt8 → UInt32) (shardID blockID createdAtUs : UInt64)

def blkBytes (ds : List Payloads) : List UInt8 :=
  encodeHeader crc32c shardID blockID createdAtUs ++ encodeFrames crc32c (encodeDocs 0 ds)

def docBytes (i : Nat) (d : Payloads) : List UInt8 :=
  encodeFrames crc32c (docFrames (UInt32.ofNat i) 0 d.val)

/-- The writer behind these Documents, at the end of its file. -/
def diskAt (ds : List Payloads) : DiskWriter :=
  ⟨writerAt blockID ds, ⟨blkBytes crc32c shardID blockID createdAtUs ds, endOf ds⟩⟩

variable {ds : List Payloads}

theorem length_blkBytes (ds : List Payloads) :
    (blkBytes crc32c shardID blockID createdAtUs ds).length = endOf ds := by
  rw [blkBytes, List.length_append, length_encodeFrames]
  rfl

theorem blkBytes_append (ds es : List Payloads) :
    blkBytes crc32c shardID blockID createdAtUs (ds ++ es) =
      blkBytes crc32c shardID blockID createdAtUs ds ++
        encodeFrames crc32c (encodeDocs (UInt32.ofNat ds.length) es) := by
  rw [blkBytes, encodeDocs_append, UInt32.zero_add, encodeFrames_append]
  rfl

theorem flatten_docBytes (ds : List Payloads) :
    (ds.mapIdx (docBytes crc32c)).flatten = encodeFrames crc32c (encodeDocs 0 ds) := by
  induction ds using List.reverseRecOn with
  | nil => rfl
  | append_singleton ds d ih =>
    rw [List.mapIdx_concat, List.flatten_append, ih, encodeDocs_concat, encodeFrames_append]
    simp [docBytes]

theorem openWriter_blkBytes (h : DocsFit ds) :
    openWriter crc32c (blkBytes crc32c shardID blockID createdAtUs ds) shardID blockID =
      .ok (writerAt blockID ds) := by
  have hcut : cutFrames (encodeDocs 0 ds) (framesSize (encodeDocs 0 ds)) = (encodeDocs 0 ds, 0) := by
    simpa using cutFrames_append (encodeDocs 0 ds) []
  have hopen := openWriter_cut crc32c shardID blockID createdAtUs (h.encodeDocs 0) (Nat.le_refl _)
    (w := writerAt blockID ds)
  rw [hcut, ← length_encodeFrames crc32c, List.take_length] at hopen
  exact hopen.mpr (openWriter_blkOf blockID ds)

theorem scanWriterState_blkBytes (h : DocsFit ds) :
    scanWriterState crc32c (blkBytes crc32c shardID blockID createdAtUs ds) =
      .ok (endOf ds, UInt32.ofNat ds.length, UInt32.ofNat ds.length) := by
  have hopen := openWriter_blkBytes crc32c shardID blockID createdAtUs h
  have hheader := verifyHeader_encodeHeader crc32c shardID blockID createdAtUs
    (encodeFrames crc32c (encodeDocs 0 ds))
  rw [openWriter, blkBytes, hheader, ← blkBytes] at hopen
  cases hscan : scanWriterState crc32c (blkBytes crc32c shardID blockID createdAtUs ds) with
  | error err => simp [hscan] at hopen
  | ok x => ?_
  obtain ⟨offset, docSeq, docCount⟩ := x
  simp only [hscan, writerAt, Except.ok.injEq, Writer.mk.injEq, true_and] at hopen
  rw [hopen.1, hopen.2.1, hopen.2.2]

/-! ## The calls keep it -/

theorem DiskWriter.truncate_docs (h : DocsFit ds) {d : DiskWriter} {more : List UInt8}
    (hblock : d.writer.blockID = blockID) (hoff : endOf ds ≤ d.writer.offset)
    (hbytes : d.file.bytes = blkBytes crc32c shardID blockID createdAtUs ds ++ more) :
    d.truncate crc32c (endOf ds) = .ok (diskAt crc32c shardID blockID createdAtUs ds) := by
  have hhead : ¬ endOf ds < headerSize := by simp [endOf]
  have htake : d.file.bytes.take (endOf ds) = blkBytes crc32c shardID blockID createdAtUs ds := by
    rw [hbytes, ← length_blkBytes crc32c shardID blockID createdAtUs ds, List.take_left]
  rw [DiskWriter.truncate, if_neg hhead, if_neg (by omega), htake,
    scanWriterState_blkBytes crc32c shardID blockID createdAtUs h]
  simp only [hblock]
  rfl

theorem Handle.write_end {h : Handle} (hpos : h.pos = h.bytes.length) (data : List UInt8) :
    h.write data = ⟨h.bytes ++ data, (h.bytes ++ data).length⟩ := by
  rw [Handle.write, hpos]
  simp

namespace DiskWriter

theorem writeFrames_spec : ∀ (fs : List Frame) (room : Option Nat) (d : DiskWriter),
    d.file.pos = d.file.bytes.length →
    (∃ err d' more, d.writeFrames crc32c room fs = (some err, d') ∧
      d'.file.bytes = d.file.bytes ++ more ∧ d'.writer.blockID = d.writer.blockID ∧
      d.writer.offset ≤ d'.writer.offset) ∨
    (WithinLimit fs ∧ d.writeFrames crc32c room fs =
      (none, ⟨{ d.writer with offset := d.writer.offset + framesSize fs },
        ⟨d.file.bytes ++ encodeFrames crc32c fs, (d.file.bytes ++ encodeFrames crc32c fs).length⟩⟩))
  | [], room, d, hpos => by
    refine .inr ⟨fun f hf => absurd hf List.not_mem_nil, ?_⟩
    obtain ⟨w, bytes, pos⟩ := d
    simp only at hpos
    simp [writeFrames, encodeFrames, hpos]
  | f :: fs, room, d, hpos => by
    by_cases hlimit : maxFramePayload < f.payload.length
    · exact .inl ⟨_, d, [], by rw [writeFrames, if_pos hlimit], by simp, rfl, Nat.le_refl _⟩
    by_cases hroom : room.any (· < f.size) = true
    · refine .inl ⟨.write,
        { d with file := d.file.write ((encodeFrame crc32c f).take (room.getD 0)) },
        (encodeFrame crc32c f).take (room.getD 0), ?_, ?_, rfl, Nat.le_refl _⟩
      · rw [writeFrames, if_neg hlimit, if_pos hroom]
      · rw [Handle.write_end hpos]
    · have hstep : d.writeFrames crc32c room (f :: fs) = writeFrames crc32c (room.map (· - f.size))
            ⟨{ d.writer with offset := d.writer.offset + f.size },
              d.file.write (encodeFrame crc32c f)⟩ fs := by
        rw [writeFrames, if_neg hlimit, if_neg hroom]
      have hcons : encodeFrames crc32c (f :: fs) =
          encodeFrame crc32c f ++ encodeFrames crc32c fs := rfl
      rw [hstep, Handle.write_end hpos, hcons, framesSize_cons]
      rcases writeFrames_spec fs (room.map (· - f.size))
        ⟨{ d.writer with offset := d.writer.offset + f.size },
          ⟨d.file.bytes ++ encodeFrame crc32c f, (d.file.bytes ++ encodeFrame crc32c f).length⟩⟩
        rfl with ⟨err, d', more, hrest, hbytes, hblock, hoff⟩ | ⟨hwithin, hrest⟩
      · refine .inl ⟨err, d', encodeFrame crc32c f ++ more, hrest, ?_, hblock, ?_⟩
        · rw [hbytes, List.append_assoc]
        · exact Nat.le_trans (Nat.le_add_right _ _) hoff
      · refine .inr ⟨List.forall_mem_cons.mpr ⟨by omega, hwithin⟩, ?_⟩
        rw [hrest]
        simp only [List.append_assoc, Nat.add_assoc]

/-- An append that succeeded has put a Document behind the others; one that failed, bytes. -/
def Landed (ds : List Payloads) (out : Except DiskErr Unit × DiskWriter) : Prop :=
  (∃ d, DocsFit (ds ++ [d]) ∧
    out = (.ok (), diskAt crc32c shardID blockID createdAtUs (ds ++ [d]))) ∨
  ∃ err d' more, out = (.error err, d') ∧ d'.writer.blockID = blockID ∧
    endOf ds ≤ d'.writer.offset ∧
    d'.file.bytes = blkBytes crc32c shardID blockID createdAtUs ds ++ more

theorem landed_unchanged (err : DiskErr) :
    Landed crc32c shardID blockID createdAtUs ds
      (.error err, diskAt crc32c shardID blockID createdAtUs ds) :=
  .inr ⟨err, _, [], rfl, rfl, Nat.le_refl _, (List.append_nil _).symm⟩

/-- The shared part of the appends, over Frames that are those of a Document if nothing fails. -/
theorem appendFrames_landed (h : DocsFit ds) (io : Faults) {fs : List Frame}
    {ending : Option WriterErr}
    (hdoc : ending = none → ∃ d : Payloads, fs = docFrames (UInt32.ofNat ds.length) 0 d.val) :
    Landed crc32c shardID blockID createdAtUs ds
      ((diskAt crc32c shardID blockID createdAtUs ds).appendFrames crc32c io fs ending) := by
  have hpos : (diskAt crc32c shardID blockID createdAtUs ds).file.pos =
      (diskAt crc32c shardID blockID createdAtUs ds).file.bytes.length :=
    (length_blkBytes crc32c shardID blockID createdAtUs ds).symm
  unfold appendFrames
  rcases writeFrames_spec crc32c fs io.room _ hpos with
    ⟨err, d', more, hwrite, hbytes, hblock, hoff⟩ | ⟨hwithin, hwrite⟩
  · rw [hwrite]
    exact .inr ⟨err, d', more, rfl, hblock, hoff, hbytes⟩
  have hleft : ∀ err, Landed crc32c shardID blockID createdAtUs ds (.error err,
      ((diskAt crc32c shardID blockID createdAtUs ds).writeFrames crc32c io.room fs).2) := by
    intro err
    rw [hwrite]
    exact .inr ⟨err, _, _, rfl, rfl, Nat.le_add_right _ _, rfl⟩
  rw [hwrite] at hleft ⊢
  cases ending with
  | some err => exact hleft _
  | none => ?_
  split_ifs
  · exact hleft _
  obtain ⟨d, rfl⟩ := hdoc rfl
  refine .inl ⟨d, ?_, ?_⟩
  · intro e he p hp
    rcases List.mem_append.mp he with he | he
    · exact h e he p hp
    · rw [List.mem_singleton.mp he, ← payloads_docFrames (UInt32.ofNat ds.length) d.val 0] at hp
      obtain ⟨f, hf, rfl⟩ := List.mem_map.mp hp
      exact hwithin f hf
  · have hend : endOf ds + framesSize (docFrames (UInt32.ofNat ds.length) 0 d.val) =
        endOf (ds ++ [d]) := by
      unfold endOf docsSize
      rw [encodeDocs_concat, framesSize_append, Nat.add_assoc]
    have hbytes : blkBytes crc32c shardID blockID createdAtUs ds ++
        encodeFrames crc32c (docFrames (UInt32.ofNat ds.length) 0 d.val) =
          blkBytes crc32c shardID blockID createdAtUs (ds ++ [d]) := by
      rw [blkBytes_append, encodeDocs, encodeDocs, List.append_nil]
    simp only [diskAt, writerAt, hend, hbytes, length_blkBytes]
    exact congrArg (fun w => (Except.ok (), mk w _))
      (documentDone_writerAt blockID ds d)

theorem append_landed (h : DocsFit ds) (io : Faults) (src : Source) :
    Landed crc32c shardID blockID createdAtUs ds
      ((diskAt crc32c shardID blockID createdAtUs ds).append crc32c io src) := by
  cases src with
  | body r =>
    simp only [append, appendDocument, readDocFrames_eq]
    refine appendFrames_landed crc32c shardID blockID createdAtUs h io fun hending => ?_
    split_ifs at hending with hfails hzero
    have hfs : writeDocFrames (UInt32.ofNat ds.length) (bodyOf r) =
        docFrames (UInt32.ofNat ds.length) 0 (framePayloads (bodyOf r).bytes) := by
      rw [writeDocFrames, if_neg hfails]
    refine ⟨⟨framePayloads (bodyOf r).bytes, fun hnil => hzero ?_⟩, hfs⟩
    have hseq : (diskAt crc32c shardID blockID createdAtUs ds).writer.docSeq =
        UInt32.ofNat ds.length := rfl
    rw [hseq, hfs, hnil]
    rfl
  | prepared doc =>
    simp only [append, appendDocumentFrames]
    split_ifs with hneg hnil
    · exact landed_unchanged crc32c shardID blockID createdAtUs _
    · exact landed_unchanged crc32c shardID blockID createdAtUs _
    · exact appendFrames_landed crc32c shardID blockID createdAtUs h io
        fun _ => ⟨⟨doc.payloads, hnil⟩, rfl⟩
  | streamed src =>
    simp only [append, appendDocumentFrameSource]
    split_ifs with hfails hnil
    · exact appendFrames_landed crc32c shardID blockID createdAtUs h io (by simp)
    · exact landed_unchanged crc32c shardID blockID createdAtUs _
    · exact appendFrames_landed crc32c shardID blockID createdAtUs h io
        fun _ => ⟨⟨src.payloads, hnil⟩, rfl⟩

end DiskWriter

/-- Between the calls the file holds these Documents and the writer stands behind them. -/
structure Session.Holds (s : Session) (ds : List Payloads) : Prop where
  fit : DocsFit ds
  disk : s.disk = diskAt crc32c s.shardID s.disk.writer.blockID createdAtUs ds
  docs : s.docs = ds.mapIdx (docBytes crc32c)

end Stored

section Run

variable {crc32c : List UInt8 → UInt32} {createdAtUs : UInt64} {s : Session} {ds : List Payloads}

theorem Session.Holds.matches (h : s.Holds crc32c createdAtUs ds) :
    s.Matches crc32c createdAtUs := by
  have hopen := openWriter_blkBytes crc32c s.shardID s.disk.writer.blockID createdAtUs h.fit
  have hlen := length_blkBytes crc32c s.shardID s.disk.writer.blockID createdAtUs ds
  have hbytes : s.disk.file.bytes =
      blkBytes crc32c s.shardID s.disk.writer.blockID createdAtUs ds :=
    congrArg (·.file.bytes) h.disk
  have hwriter : s.disk.writer = writerAt s.disk.writer.blockID ds := congrArg (·.writer) h.disk
  refine ⟨?_, ?_, ?_⟩
  · rw [hbytes, hopen, ← hwriter]
  · rw [hbytes, hlen, hwriter]
    rfl
  · rw [hbytes, blkBytes, h.docs, flatten_docBytes]

theorem take_mapIdx {α β : Type} (f : Nat → α → β) (l : List α) (k : Nat) :
    (l.mapIdx f).take k = (l.take k).mapIdx f := by
  refine List.ext_getElem? fun i => ?_
  simp only [List.getElem?_take, List.getElem?_mapIdx]
  split <;> rfl

theorem length_flatten_docBytes (crc32c : List UInt8 → UInt32) (ds : List Payloads) :
    headerSize + (ds.mapIdx (docBytes crc32c)).flatten.length = endOf ds := by
  rw [flatten_docBytes, length_encodeFrames]
  rfl

theorem Session.Holds.call (h : s.Holds crc32c createdAtUs ds) (c : Call) :
    ∃ s' ds', s.call crc32c c = .ok s' ∧ s'.Holds crc32c createdAtUs ds' := by
  obtain ⟨shardID, disk, docs⟩ := s
  obtain ⟨hfit, hdisk, hdocs⟩ := h
  simp only at hdisk hdocs
  generalize disk.writer.blockID = blockID at hdisk
  subst hdisk hdocs
  cases c with
  | append src io =>
    simp only [Session.call]
    rcases DiskWriter.append_landed crc32c shardID blockID createdAtUs hfit io src with
      ⟨d, hfit', hout⟩ | ⟨err, d', more, hout, hblock, hoff, hbytes⟩
    · have hnew : (diskAt crc32c shardID blockID createdAtUs (ds ++ [d])).file.bytes.drop
          (diskAt crc32c shardID blockID createdAtUs ds).writer.offset =
            docBytes crc32c ds.length d := by
        have hlen := length_blkBytes crc32c shardID blockID createdAtUs ds
        simp only [diskAt, writerAt, blkBytes_append]
        rw [← hlen, List.drop_left, encodeDocs, encodeDocs, List.append_nil]
        rfl
      rw [hout]
      refine ⟨_, ds ++ [d], rfl, hfit', rfl, ?_⟩
      rw [List.mapIdx_concat, hnew]
    · have hcut := DiskWriter.truncate_docs crc32c shardID blockID createdAtUs hfit hblock hoff hbytes
      have hstart : (diskAt crc32c shardID blockID createdAtUs ds).writer.offset = endOf ds := rfl
      rw [hout, hstart]
      simp only [hcut]
      exact ⟨_, ds, rfl, hfit, rfl, rfl⟩
  | truncate k =>
    have hfit' : DocsFit (ds.take k) := fun d hd => hfit d (List.mem_of_mem_take hd)
    have hbytes : (diskAt crc32c shardID blockID createdAtUs ds).file.bytes =
        blkBytes crc32c shardID blockID createdAtUs (ds.take k) ++
          encodeFrames crc32c (encodeDocs (UInt32.ofNat (ds.take k).length) (ds.drop k)) := by
      rw [← blkBytes_append, List.take_append_drop]
      rfl
    have hoff : endOf (ds.take k) ≤ (diskAt crc32c shardID blockID createdAtUs ds).writer.offset := by
      have hle := endOf_le_append (ds.take k) (ds.drop k)
      rwa [List.take_append_drop] at hle
    have hcut := DiskWriter.truncate_docs crc32c shardID blockID createdAtUs hfit' rfl hoff hbytes
    simp only [Session.call, take_mapIdx, length_flatten_docBytes, hcut]
    exact ⟨_, ds.take k, rfl, hfit', rfl, rfl⟩
  | reopen =>
    have hopen := openWriter_blkBytes crc32c shardID blockID createdAtUs hfit
    refine ⟨⟨shardID, diskAt crc32c shardID blockID createdAtUs ds, ds.mapIdx (docBytes crc32c)⟩, ds,
      ?_, hfit, rfl, rfl⟩
    have hfile : (diskAt crc32c shardID blockID createdAtUs ds).file.bytes =
        blkBytes crc32c shardID blockID createdAtUs ds := rfl
    have hblock : (diskAt crc32c shardID blockID createdAtUs ds).writer.blockID = blockID := rfl
    simp only [Session.call, hfile, hblock, hopen]
    rfl

theorem Session.Holds.run : ∀ (calls : List Call) {s : Session} {ds : List Payloads},
    s.Holds crc32c createdAtUs ds →
    ∃ s' ds', s.run crc32c calls = .ok s' ∧ s'.Holds crc32c createdAtUs ds'
  | [], s, ds, h => ⟨s, ds, rfl, h⟩
  | c :: cs, s, ds, h => by
    obtain ⟨s₁, ds₁, hcall, h₁⟩ := h.call c
    obtain ⟨s₂, ds₂, hrun, h₂⟩ := Session.Holds.run cs h₁
    exact ⟨s₂, ds₂, by rw [Session.run, hcall]; exact hrun, h₂⟩

end Run

/-- Whatever is appended, wherever the disk fails, and whatever Documents are cut off again: every
truncation succeeds, and behind each call the writer is the one that `OpenWriter` recovers, at the
end of the file, with the Documents that are left as they were. -/
theorem writer_matches_file (crc32c : List UInt8 → UInt32) (shardID blockID createdAtUs : UInt64)
    (calls : List Call) :
    ∃ s, (Session.new crc32c shardID blockID createdAtUs).run crc32c calls = .ok s ∧
      s.Matches crc32c createdAtUs := by
  have hnew : (Session.new crc32c shardID blockID createdAtUs).Holds crc32c createdAtUs [] := by
    refine ⟨fun d hd => absurd hd List.not_mem_nil, ?_, rfl⟩
    have hbytes : blkBytes crc32c shardID blockID createdAtUs [] =
        encodeHeader crc32c shardID blockID createdAtUs := List.append_nil _
    simp only [Session.new]
    rfl
  obtain ⟨s, ds, hrun, h⟩ := Session.Holds.run calls hnew
  exact ⟨s, hrun, h.matches⟩

end Scrap.Block.Disk
