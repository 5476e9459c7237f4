/-
# Frames as bytes

`ReadFrame` reads a 32-byte header and then the payload it announces. `Encodes` says what it
accepts, and `encodeFrame` is what `WriteFrame` writes. Where a file ends inside a Frame the error
depends on where:

    before the header      io.EOF
    in the header          ErrTruncated
    behind the header      io.EOF again, since no byte of the payload could be read
    in the payload         ErrTruncated

`readFrameRaw`, the verifier's own reader, takes both ends in the header for the end of the file and
both ends in the payload for `ErrTruncated`.
-/
import Scrap.Block.Append
import Scrap.Lib.Records

namespace Scrap.Block.Disk

open Bytes Buffered Records

inductive FrameErr where
  /-- an error that is or wraps `io.EOF` -/
  | eof
  /-- `ErrTruncated` -/
  | truncated
  /-- `ErrHeaderCRC` -/
  | headerCRC
  /-- `ErrBadMagic` -/
  | badMagic
  /-- `ErrBadVersion` -/
  | badVersion
  /-- `ErrPayloadLimit` -/
  | payloadLimit
  /-- `ErrCRCMismatch` -/
  | crcMismatch
deriving DecidableEq

structure FrameHeader where
  flags : UInt8
  docSeq : UInt32
  frameSeq : UInt32
  payloadLen : Nat
  payloadCRC : Nat
deriving DecidableEq

def frameMagic : Nat := 0x5343
def frameVersion : UInt8 := 0x01

section Read

variable (crc32c : List UInt8 → UInt32)

def parseRawFrameHeader (buf : List UInt8) : Except FrameErr FrameHeader :=
  if (crc32c (slice buf 0 28)).toNat ≠ leNat (slice buf 28 32) then .error .headerCRC
  else if leNat (slice buf 0 2) ≠ frameMagic then .error .badMagic
  else if buf.getD 2 0 ≠ frameVersion then .error .badVersion
  else if maxFramePayload < leNat (slice buf 16 20) then .error .payloadLimit
  else
    .ok ⟨buf.getD 3 0, UInt32.ofNat (leNat (slice buf 8 12)), UInt32.ofNat (leNat (slice buf 12 16)),
      leNat (slice buf 16 20), leNat (slice buf 20 24)⟩

/-- What both readers do between their two reads; they differ in how they take an end of the file
there. -/
def readFrameWith (headerEnd payloadEnd : Ending → FrameErr) (bs : List UInt8) :
    Except FrameErr (Frame × List UInt8) :=
  match takeFull frameHeaderSize bs with
  | .error e => .error (headerEnd e)
  | .ok (buf, rest) =>
    match parseRawFrameHeader crc32c buf with
    | .error err => .error err
    | .ok hdr =>
      match takeFull hdr.payloadLen rest with
      | .error e => .error (payloadEnd e)
      | .ok (payload, rest) =>
        if (crc32c payload).toNat ≠ hdr.payloadCRC then .error .crcMismatch
        else .ok (⟨hdr.flags, hdr.docSeq, hdr.frameSeq, payload⟩, rest)

/-- `errors.Is(err, io.ErrUnexpectedEOF)` is `ErrTruncated`; any other error is wrapped. -/
def truncatedOr (e : Ending) : FrameErr := if e = .unexpectedEOF then .truncated else .eof

/-- The Frame and what is left of the file. -/
def readFrame (bs : List UInt8) : Except FrameErr (Frame × List UInt8) :=
  readFrameWith crc32c truncatedOr truncatedOr bs

def readFrameRaw (bs : List UInt8) : Except FrameErr (Frame × List UInt8) :=
  readFrameWith crc32c (fun _ => .eof) (fun _ => .truncated) bs

end Read

/-! ## What a reader takes -/

/-- The part of a Frame header that its checksum covers, with its two spare fields. -/
def spareHead (crc32c : List UInt8 → UInt32) (f : Frame) (spare spare' : List UInt8) : List UInt8 :=
  leBytes 2 frameMagic ++ [frameVersion, f.flags] ++ spare ++ leBytes 4 f.docSeq.toNat ++
    leBytes 4 f.frameSeq.toNat ++ leBytes 4 f.payload.length ++ leBytes 4 (crc32c f.payload).toNat ++
    spare'

def spareHeader (crc32c : List UInt8 → UInt32) (f : Frame) (spare spare' : List UInt8) : List UInt8 :=
  spareHead crc32c f spare spare' ++ leBytes 4 (crc32c (spareHead crc32c f spare spare')).toNat

def Encodes (crc32c : List UInt8 → UInt32) (f : Frame) (bs : List UInt8) : Prop :=
  f.payload.length ≤ maxFramePayload ∧ ∃ spare spare', spare.length = 4 ∧ spare'.length = 4 ∧
    bs = spareHeader crc32c f spare spare' ++ f.payload

section Taken

variable {crc32c : List UInt8 → UInt32} {headerEnd payloadEnd : Ending → FrameErr}
  {bs rest spare spare' : List UInt8} {f : Frame}

theorem length_spareHeader (h : spare.length = 4) (h' : spare'.length = 4) :
    (spareHeader crc32c f spare spare').length = frameHeaderSize := by
  simp [spareHeader, spareHead, frameHeaderSize, h, h']

theorem parseRawFrameHeader_spareHeader (hlimit : f.payload.length ≤ maxFramePayload)
    (h : spare.length = 4) (h' : spare'.length = 4) :
    parseRawFrameHeader crc32c (spareHeader crc32c f spare spare') =
      .ok ⟨f.flags, f.docSeq, f.frameSeq, f.payload.length, (crc32c f.payload).toNat⟩ := by
  have hlen : leNat (leBytes 4 f.payload.length) = f.payload.length :=
    leNat_leBytes_of_lt (Nat.lt_of_le_of_lt hlimit (by decide))
  have hmagic' : leNat (leBytes 2 frameMagic) = frameMagic := by decide
  obtain ⟨a, b, c, d, rfl⟩ := exists_four h
  obtain ⟨a', b', c', d', rfl⟩ := exists_four h'
  generalize hhead : spareHead crc32c f [a, b, c, d] [a', b', c', d'] = head
  generalize hhdr : spareHeader crc32c f [a, b, c, d] [a', b', c', d'] = hdr
  -- each slice of the header is one of the fields it was put together from
  have hcovered : slice hdr 0 28 = head := by rw [← hhdr, ← hhead]; rfl
  have hcrc : slice hdr 28 32 = leBytes 4 (crc32c head).toNat := by rw [← hhdr, ← hhead]; rfl
  have hmagic : slice hdr 0 2 = leBytes 2 frameMagic := by rw [← hhdr]; rfl
  have hversion : hdr.getD 2 0 = frameVersion := by rw [← hhdr]; rfl
  have hflags : hdr.getD 3 0 = f.flags := by rw [← hhdr]; rfl
  have hdoc : slice hdr 8 12 = leBytes 4 f.docSeq.toNat := by rw [← hhdr]; rfl
  have hseq : slice hdr 12 16 = leBytes 4 f.frameSeq.toNat := by rw [← hhdr]; rfl
  have hpay : slice hdr 16 20 = leBytes 4 f.payload.length := by rw [← hhdr]; rfl
  have hpaycrc : slice hdr 20 24 = leBytes 4 (crc32c f.payload).toNat := by rw [← hhdr]; rfl
  rw [parseRawFrameHeader, hcovered, hcrc, hmagic, hversion, hflags, hdoc, hseq, hpay, hpaycrc]
  simp [hlen, hmagic', hlimit]

theorem parseRawFrameHeader_ok {hdr : FrameHeader} {buf payload : List UInt8}
    (hbuf : buf.length = frameHeaderSize) (h : parseRawFrameHeader crc32c buf = .ok hdr)
    (hlen : payload.length = hdr.payloadLen) (hcrc : (crc32c payload).toNat = hdr.payloadCRC) :
    payload.length ≤ maxFramePayload ∧ buf = spareHeader crc32c
      ⟨hdr.flags, hdr.docSeq, hdr.frameSeq, payload⟩ (slice buf 4 8) (slice buf 24 28) := by
  unfold frameHeaderSize at hbuf
  unfold parseRawFrameHeader at h
  split_ifs at h with hhead hmagic hversion hlimit
  cases h
  simp only at hlen hcrc ⊢
  refine ⟨by omega, ?_⟩
  have hfirst : slice buf 0 2 = leBytes 2 frameMagic :=
    slice_eq_leBytes (by omega) rfl (Decidable.not_not.mp hmagic)
  have hpair : slice buf 2 4 = [frameVersion, buf.getD 3 0] := by
    rw [← slice_append (show 2 ≤ 3 by decide) (show 3 ≤ 4 by decide), slice_one (by omega),
      slice_one (by omega), Decidable.not_not.mp hversion]
    rfl
  have hfield : ∀ i, i + 4 ≤ 32 → slice buf i (i + 4) =
      leBytes 4 (UInt32.ofNat (leNat (slice buf i (i + 4)))).toNat := by
    intro i hi
    refine slice_eq_leBytes (by omega) (by omega) ?_
    have hlt := leNat_lt (slice buf i (i + 4))
    rw [length_slice (by omega)] at hlt
    rw [UInt32.toNat_ofNat_of_lt' (by simpa using hlt)]
  have hpay : slice buf 16 20 = leBytes 4 payload.length :=
    slice_eq_leBytes (by omega) rfl hlen.symm
  have hpaycrc : slice buf 20 24 = leBytes 4 (crc32c payload).toNat :=
    slice_eq_leBytes (by omega) rfl hcrc.symm
  have hsum : slice buf 28 32 = leBytes 4 (crc32c (slice buf 0 28)).toNat :=
    slice_eq_leBytes (by omega) rfl (Decidable.not_not.mp hhead).symm
  have hcovered : slice buf 0 28 = spareHead crc32c
      ⟨buf.getD 3 0, UInt32.ofNat (leNat (slice buf 8 12)), UInt32.ofNat (leNat (slice buf 12 16)),
        payload⟩ (slice buf 4 8) (slice buf 24 28) := by
    simp only [spareHead]
    rw [← hfirst, ← hpair, ← hfield 8 (by decide), ← hfield 12 (by decide), ← hpay, ← hpaycrc]
    simp only [slice_append, Nat.reduceLeDiff]
  rw [spareHeader, ← hcovered, ← hsum, slice_append (by decide) (by decide), slice_self hbuf]

theorem readFrameWith_ok : readFrameWith crc32c headerEnd payloadEnd bs = .ok (f, rest) ↔
    ∃ used, bs = used ++ rest ∧ Encodes crc32c f used := by
  constructor
  · intro h
    simp only [readFrameWith] at h
    cases hhead : takeFull frameHeaderSize bs with
    | error e => simp [hhead] at h
    | ok x => ?_
    obtain ⟨buf, rest₁⟩ := x
    simp only [hhead] at h
    split at h
    · cases h
    rename_i hdr hparse
    cases hpay : takeFull hdr.payloadLen rest₁ with
    | error e => simp [hpay] at h
    | ok y => ?_
    obtain ⟨payload, rest₂⟩ := y
    simp only [hpay] at h
    split_ifs at h with hcrc
    cases Except.ok.inj h
    obtain ⟨rfl, hbuf⟩ := takeFull_ok.mp hhead
    obtain ⟨rfl, hlen⟩ := takeFull_ok.mp hpay
    obtain ⟨hlimit, hspare⟩ := parseRawFrameHeader_ok hbuf hparse hlen (Decidable.not_not.mp hcrc)
    unfold frameHeaderSize at hbuf
    refine ⟨buf ++ payload, (List.append_assoc ..).symm, hlimit, slice buf 4 8,
      slice buf 24 28, length_slice (by omega), length_slice (by omega), ?_⟩
    rw [← hspare]
  · rintro ⟨used, rfl, hlimit, spare, spare', h, h', rfl⟩
    rw [readFrameWith, List.append_assoc, takeFull_append (length_spareHeader h h')]
    simp only [parseRawFrameHeader_spareHeader hlimit h h', takeFull_append rfl]
    rw [if_neg (by simp)]

theorem Encodes.length (h : Encodes crc32c f bs) : bs.length = f.size := by
  obtain ⟨-, spare, spare', h, h', rfl⟩ := h
  rw [List.length_append, length_spareHeader h h']
  rfl

theorem readFrameWith_consumes (h : readFrameWith crc32c headerEnd payloadEnd bs = .ok (f, rest)) :
    rest.length < bs.length := by
  obtain ⟨used, rfl, hused⟩ := readFrameWith_ok.mp h
  have hpos := f.size_pos
  rw [List.length_append, hused.length]
  omega

end Taken

def frameReader (crc32c : List UInt8 → UInt32) : RecordReader UInt8 Frame FrameErr :=
  ⟨readFrame crc32c, readFrameWith_consumes⟩

def rawFrameReader (crc32c : List UInt8 → UInt32) : RecordReader UInt8 Frame FrameErr :=
  ⟨readFrameRaw crc32c, readFrameWith_consumes⟩

@[simp] theorem frameReader_next (crc32c : List UInt8 → UInt32) :
    (frameReader crc32c).next = readFrame crc32c := rfl

@[simp] theorem rawFrameReader_next (crc32c : List UInt8 → UInt32) :
    (rawFrameReader crc32c).next = readFrameRaw crc32c := rfl

/-! ## Reading back what was written -/

def frameHead (crc32c : List UInt8 → UInt32) (f : Frame) : List UInt8 :=
  leBytes 2 frameMagic ++ [frameVersion, f.flags] ++ leBytes 2 frameHeaderSize ++ [0, 0] ++
    leBytes 4 f.docSeq.toNat ++ leBytes 4 f.frameSeq.toNat ++ leBytes 4 f.payload.length ++
    leBytes 4 (crc32c f.payload).toNat ++ [0, 0, 0, 0]

def frameHeader (crc32c : List UInt8 → UInt32) (f : Frame) : List UInt8 :=
  frameHead crc32c f ++ leBytes 4 (crc32c (frameHead crc32c f)).toNat

section RoundTrip

variable (crc32c : List UInt8 → UInt32) (f : Frame)

theorem encodeFrame_eq : encodeFrame crc32c f = frameHeader crc32c f ++ f.payload := by
  simp only [encodeFrame, frameHeader, frameHead, frameMagic, frameVersion]

theorem frameHeader_eq : frameHeader crc32c f =
    spareHeader crc32c f (leBytes 2 frameHeaderSize ++ [0, 0]) [0, 0, 0, 0] := by
  simp only [frameHeader, frameHead, spareHeader, spareHead, List.append_assoc]

theorem length_frameHeader : (frameHeader crc32c f).length = frameHeaderSize := by
  simp [frameHeader, frameHead, frameHeaderSize]

variable (hlimit : f.payload.length ≤ maxFramePayload)

include hlimit

theorem parseRawFrameHeader_frameHeader :
    parseRawFrameHeader crc32c (frameHeader crc32c f) =
      .ok ⟨f.flags, f.docSeq, f.frameSeq, f.payload.length, (crc32c f.payload).toNat⟩ := by
  exact parseRawFrameHeader_spareHeader hlimit rfl rfl

theorem encodes_encodeFrame : Encodes crc32c f (encodeFrame crc32c f) :=
  ⟨hlimit, _, _, rfl, rfl, by rw [encodeFrame_eq, frameHeader_eq]⟩

theorem readFrameWith_encodeFrame (headerEnd payloadEnd : Ending → FrameErr) (rest : List UInt8) :
    readFrameWith crc32c headerEnd payloadEnd (encodeFrame crc32c f ++ rest) = .ok (f, rest) :=
  readFrameWith_ok.mpr ⟨_, rfl, encodes_encodeFrame crc32c f hlimit⟩

theorem readFrame_encodeFrame (rest : List UInt8) :
    readFrame crc32c (encodeFrame crc32c f ++ rest) = .ok (f, rest) :=
  readFrameWith_encodeFrame crc32c f hlimit _ _ rest

theorem readFrameRaw_encodeFrame (rest : List UInt8) :
    readFrameRaw crc32c (encodeFrame crc32c f ++ rest) = .ok (f, rest) :=
  readFrameWith_encodeFrame crc32c f hlimit _ _ rest

/-- The error of `ReadFrame` where `torn` bytes of a Frame are left. -/
def tornErr (torn : Nat) : FrameErr := if tailIsEOF torn then .eof else .truncated

theorem readFrame_cut {torn : Nat} (h : torn < f.size) :
    readFrame crc32c ((encodeFrame crc32c f).take torn) = .error (tornErr torn) := by
  have hhead := length_frameHeader crc32c f
  unfold Frame.size at h
  rw [encodeFrame_eq, List.take_append, hhead, readFrame, readFrameWith]
  by_cases hzero : torn = 0
  · simp [hzero, takeFull_nil (show 0 < frameHeaderSize by decide), truncatedOr, tornErr, tailIsEOF]
  by_cases hin : torn < frameHeaderSize
  · have hne : (frameHeader crc32c f).take torn ≠ [] := by
      rw [ne_eq, List.take_eq_nil_iff, ← List.length_eq_zero_iff]
      omega
    rw [Nat.sub_eq_zero_of_le (Nat.le_of_lt hin), List.take_zero, List.append_nil,
      takeFull_short hne (by rw [List.length_take]; omega)]
    have htail : ¬ (torn = 0 ∨ torn = frameHeaderSize) := by omega
    simp [truncatedOr, tornErr, tailIsEOF, htail]
  · rw [List.take_of_length_le (by omega), takeFull_append hhead]
    simp only [parseRawFrameHeader_frameHeader crc32c f hlimit]
    by_cases hbare : torn = frameHeaderSize
    · rw [hbare, Nat.sub_self, List.take_zero, takeFull_nil (by omega)]
      simp [truncatedOr, tornErr, tailIsEOF]
    have hne : f.payload.take (torn - frameHeaderSize) ≠ [] := by
      rw [ne_eq, List.take_eq_nil_iff, ← List.length_eq_zero_iff]
      omega
    rw [takeFull_short hne (by rw [List.length_take]; omega)]
    have htail : ¬ (torn = 0 ∨ torn = frameHeaderSize) := by omega
    simp [truncatedOr, tornErr, tailIsEOF, htail]

end RoundTrip

/-! ## The bytes of many Frames -/

def encodeFrames (crc32c : List UInt8 → UInt32) (fs : List Frame) : List UInt8 :=
  fs.flatMap (encodeFrame crc32c)

def WithinLimit (fs : List Frame) : Prop := ∀ f ∈ fs, f.payload.length ≤ maxFramePayload

section Frames

variable (crc32c : List UInt8 → UInt32) {fs : List Frame}

theorem encodeFrames_append (fs gs : List Frame) :
    encodeFrames crc32c (fs ++ gs) = encodeFrames crc32c fs ++ encodeFrames crc32c gs :=
  List.flatMap_append

theorem length_encodeFrames (fs : List Frame) : (encodeFrames crc32c fs).length = framesSize fs := by
  simp [encodeFrames, framesSize, length_encodeFrame]

theorem take_encodeFrames : ∀ (fs : List Frame) (n : Nat), n ≤ framesSize fs →
    (encodeFrames crc32c fs).take n = encodeFrames crc32c (cutFrames fs n).1 ∧
        (cutFrames fs n).2 = 0 ∨
      ∃ f ∈ fs, (cutFrames fs n).2 < f.size ∧ (encodeFrames crc32c fs).take n =
        encodeFrames crc32c (cutFrames fs n).1 ++ (encodeFrame crc32c f).take (cutFrames fs n).2
  | [], n, h => by
    obtain rfl : n = 0 := by simpa using h
    exact .inl ⟨rfl, rfl⟩
  | f :: fs, n, h => by
    rw [framesSize_cons] at h
    have hsize := length_encodeFrame crc32c f
    have hcons : encodeFrames crc32c (f :: fs) = encodeFrame crc32c f ++ encodeFrames crc32c fs :=
      rfl
    rw [hcons, List.take_append, hsize]
    by_cases hle : f.size ≤ n
    · simp only [cutFrames, if_pos hle]
      rw [List.take_of_length_le (by omega)]
      have hrest : ∀ gs, encodeFrames crc32c (f :: gs) =
          encodeFrame crc32c f ++ encodeFrames crc32c gs := fun _ => rfl
      rw [hrest]
      rcases take_encodeFrames fs (n - f.size) (by omega) with ⟨heq, hz⟩ | ⟨g, hg, hlt, heq⟩
      · exact .inl ⟨by rw [heq], hz⟩
      · exact .inr ⟨g, List.mem_cons_of_mem _ hg, hlt, by rw [heq, List.append_assoc]⟩
    · simp only [cutFrames, if_neg hle]
      rw [Nat.sub_eq_zero_of_le (by omega), List.take_zero, List.append_nil]
      exact .inr ⟨f, List.mem_cons_self, by omega, rfl⟩

theorem walk_encodeFrames (h : WithinLimit fs) (tail : List UInt8) :
    (frameReader crc32c).walk (encodeFrames crc32c fs ++ tail) =
      { (frameReader crc32c).walk tail with
        records := fs ++ ((frameReader crc32c).walk tail).records } := by
  have hnext : ∀ f ∈ fs, ∀ rest, (frameReader crc32c).next (encodeFrame crc32c f ++ rest) =
      .ok (f, rest) := by
    intro f hf rest
    rw [frameReader_next, readFrame_encodeFrame crc32c f (h f hf)]
  rw [encodeFrames, (frameReader crc32c).walk_encode tail hnext]

theorem rawWalk_encodeFrames (h : WithinLimit fs) (tail : List UInt8) :
    (rawFrameReader crc32c).walk (encodeFrames crc32c fs ++ tail) =
      { (rawFrameReader crc32c).walk tail with
        records := fs ++ ((rawFrameReader crc32c).walk tail).records } := by
  have hnext : ∀ f ∈ fs, ∀ rest, (rawFrameReader crc32c).next (encodeFrame crc32c f ++ rest) =
      .ok (f, rest) := by
    intro f hf rest
    rw [rawFrameReader_next, readFrameRaw_encodeFrame crc32c f (h f hf)]
  rw [encodeFrames, (rawFrameReader crc32c).walk_encode tail hnext]

theorem readFrameWith_nil (headerEnd payloadEnd : Ending → FrameErr) :
    readFrameWith crc32c headerEnd payloadEnd [] = .error (headerEnd .eof) := by
  rw [readFrameWith, takeFull_nil (by decide)]

theorem walk_nil : (frameReader crc32c).walk [] = ⟨[], .eof, []⟩ :=
  (frameReader crc32c).walk_of_error (readFrameWith_nil crc32c truncatedOr truncatedOr)

theorem rawWalk_nil : (rawFrameReader crc32c).walk [] = ⟨[], .eof, []⟩ :=
  (rawFrameReader crc32c).walk_of_error
    (readFrameWith_nil crc32c (fun _ => .eof) (fun _ => .truncated))

/-- A file cut at a byte reads as the whole Frames, and the error tells what is behind them. -/
theorem walk_cut (h : WithinLimit fs) {n : Nat} (hn : n ≤ framesSize fs) :
    ((frameReader crc32c).walk ((encodeFrames crc32c fs).take n)).records = (cutFrames fs n).1 ∧
      ((frameReader crc32c).walk ((encodeFrames crc32c fs).take n)).stop =
        tornErr (cutFrames fs n).2 := by
  have hkept : WithinLimit (cutFrames fs n).1 :=
    fun f hf => h f ((cutFrames_initial fs n).subset hf)
  rcases take_encodeFrames crc32c fs n hn with ⟨heq, hz⟩ | ⟨f, hf, hlt, heq⟩
  · have hwalk := walk_encodeFrames crc32c hkept []
    rw [List.append_nil, walk_nil] at hwalk
    rw [heq, hwalk, hz]
    exact ⟨List.append_nil _, rfl⟩
  · have hstop : (frameReader crc32c).next ((encodeFrame crc32c f).take (cutFrames fs n).2) =
        .error (tornErr (cutFrames fs n).2) := by
      rw [frameReader_next, readFrame_cut crc32c f (h f hf) hlt]
    rw [heq, walk_encodeFrames crc32c hkept, (frameReader crc32c).walk_of_error hstop]
    exact ⟨List.append_nil _, rfl⟩

end Frames

end Scrap.Block.Disk
