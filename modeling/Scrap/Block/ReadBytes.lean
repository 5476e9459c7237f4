/-
# Reading a Document from the bytes of a Block

`verifyAndSpool` seeks to where the entry says that the Document starts, reads as many Frames as the
entry counts, checks their numbers and then the digest. Whatever the file contains, what comes out
has the digest of the entry (`read_matches_digest`).

There is one way out that is neither content nor an error: the buffer is made with the entry's
`TotalBytes` as its capacity, and one that is negative or larger than the runtime can allocate
(`maxAlloc`) is a panic.

`FramesAt` says what the bytes hold without a reader: `storedFrames_ok` ties the loop to it.
-/
import Scrap.Block.CutFile
import Scrap.Block.IdxTail
import Scrap.Block.RoundTrip

namespace Scrap.Block.Disk

open Bytes Buffered Records

/-! ## The Frames of a Document -/

inductive StoredErr where
  /-- `read stored frame %d: %w`, `verify frame %d: %w` -/
  | frame (i : Nat) (err : FrameErr)
  /-- `ErrFrameSequence`: `frame_seq %d want %d` -/
  | sequence (i : Nat) (got : UInt32)
deriving DecidableEq

section Stored

variable (crc32c : List UInt8 → UInt32)

/-- The loop over the Frames of a Document, `n` left and the next numbered `i`: the payloads up to
the end or to the Frame that cannot be read. -/
def storedFrames : Nat → Nat → List UInt8 → List (List UInt8) × Option StoredErr
  | 0, _, _ => ([], none)
  | n + 1, i, bs =>
    match readFrame crc32c bs with
    | .error err => ([], some (.frame i err))
    | .ok (f, rest) =>
      if f.frameSeq ≠ UInt32.ofNat i then ([], some (.sequence i f.frameSeq))
      else (f.payload :: (storedFrames n (i + 1) rest).1, (storedFrames n (i + 1) rest).2)

def FramesAt : List Frame → List UInt8 → Prop
  | [], _ => True
  | f :: fs, bs => ∃ used rest, bs = used ++ rest ∧ Encodes crc32c f used ∧ FramesAt fs rest

def Numbered : Nat → List Frame → Prop
  | _, [] => True
  | i, f :: fs => f.frameSeq = UInt32.ofNat i ∧ Numbered (i + 1) fs

variable {crc32c}

theorem readFrame_ok {bs rest : List UInt8} {f : Frame} :
    readFrame crc32c bs = .ok (f, rest) ↔ ∃ used, bs = used ++ rest ∧ Encodes crc32c f used :=
  readFrameWith_ok

theorem storedFrames_ok : ∀ {n i : Nat} {bs : List UInt8} {ps : List (List UInt8)},
    storedFrames crc32c n i bs = (ps, none) ↔
      ∃ fs, fs.length = n ∧ FramesAt crc32c fs bs ∧ Numbered i fs ∧ ps = fs.map (·.payload)
  | 0, i, bs, ps => by
    simp only [storedFrames, Prod.mk.injEq, and_true, List.length_eq_zero_iff]
    constructor
    · rintro rfl
      exact ⟨[], rfl, trivial, trivial, rfl⟩
    · rintro ⟨fs, rfl, -, -, rfl⟩
      rfl
  | n + 1, i, bs, ps => by
    constructor
    · intro h
      rw [storedFrames] at h
      cases hread : readFrame crc32c bs with
      | error err => simp [hread] at h
      | ok x => ?_
      obtain ⟨f, rest⟩ := x
      simp only [hread] at h
      split_ifs at h with hseq
      · simp at h
      obtain ⟨rfl, hnone⟩ := Prod.mk.inj h
      obtain ⟨fs, hlen, hat, hnum, hps⟩ :=
        storedFrames_ok.mp (Prod.ext rfl hnone : storedFrames crc32c n (i + 1) rest = (_, none))
      obtain ⟨used, hbs, hf⟩ := readFrame_ok.mp hread
      exact ⟨f :: fs, by rw [List.length_cons, hlen], ⟨used, rest, hbs, hf, hat⟩,
        ⟨Decidable.not_not.mp hseq, hnum⟩, congrArg (f.payload :: ·) hps⟩
    · rintro ⟨fs, hlen, hat, hnum, rfl⟩
      cases fs with
      | nil => simp at hlen
      | cons f fs => ?_
      obtain ⟨used, rest, hbs, hf, hat⟩ := hat
      have hrest := storedFrames_ok.mpr ⟨fs, by simpa using hlen, hat, hnum.2, rfl⟩
      rw [storedFrames, readFrame_ok.mpr ⟨used, hbs, hf⟩]
      simp only [hnum.1, ne_eq, not_true_eq_false, if_false, hrest, List.map_cons]

end Stored

/-! ## `ReadDocument` -/

inductive ReadErr where
  /-- `ErrEncryptedEntry` -/
  | encrypted
  /-- `block: open %s: %w` -/
  | openBlk
  /-- `block: seek: %w` -/
  | seek
  /-- `ErrSHA256Mismatch`: `document integrity check missing SHA-256` -/
  | missingSHA256
  | frame (err : StoredErr)
  /-- `ErrSHA256Mismatch`: `document integrity check failed` -/
  | sha256Mismatch
deriving DecidableEq

inductive ReadOutcome where
  /-- a reader over these bytes -/
  | content (bs : List UInt8)
  | failed (err : ReadErr)
  /-- `makeslice: cap out of range` -/
  | panics
deriving DecidableEq

section Read

variable (crc32c : List UInt8 → UInt32) (sha256 : List UInt8 → Digest) (maxAlloc : Nat)

/-- `make([]byte, 0, n)` does not panic. -/
def CanAllocate (n : Int64) : Prop := 0 ≤ n.toInt ∧ n.toInt ≤ maxAlloc

instance (n : Int64) : Decidable (CanAllocate maxAlloc n) :=
  inferInstanceAs (Decidable (0 ≤ n.toInt ∧ n.toInt ≤ maxAlloc))

def seekTo (bs : List UInt8) (off : Int64) : List UInt8 := bs.drop off.toInt.toNat

/-- `blk` is `none` if the file cannot be opened. -/
def verifyAndSpool (blk : Option (List UInt8)) (e : Record) : ReadOutcome :=
  match blk with
  | none => .failed .openBlk
  | some bs =>
    if e.firstFrameOff < 0 then .failed .seek
    else if isZeroSHA256 e.sha256 then .failed .missingSHA256
    else if ¬ CanAllocate maxAlloc e.totalBytes then .panics
    else
      match storedFrames crc32c e.frameCount.toNat 0 (seekTo bs e.firstFrameOff) with
      | (_, some err) => .failed (.frame err)
      | (ps, none) =>
        if sha256 ps.flatten ≠ e.sha256 then .failed .sha256Mismatch else .content ps.flatten

def readDocument (blk : Option (List UInt8)) (e : Record) : ReadOutcome :=
  if 0 < e.encryptionEnvelope.length then .failed .encrypted
  else verifyAndSpool crc32c sha256 maxAlloc blk e

variable {crc32c sha256 maxAlloc} {blk : Option (List UInt8)} {e : Record}

theorem readDocument_plaintext (he : e.encryptionEnvelope = []) :
    readDocument crc32c sha256 maxAlloc blk e = verifyAndSpool crc32c sha256 maxAlloc blk e := by
  rw [readDocument, if_neg (by simp [he])]

theorem verifyAndSpool_content {c : List UInt8} :
    verifyAndSpool crc32c sha256 maxAlloc blk e = .content c ↔
      ∃ bs ps, blk = some bs ∧ ¬ e.firstFrameOff < 0 ∧ isZeroSHA256 e.sha256 = false ∧
        CanAllocate maxAlloc e.totalBytes ∧
        storedFrames crc32c e.frameCount.toNat 0 (seekTo bs e.firstFrameOff) = (ps, none) ∧
        sha256 ps.flatten = e.sha256 ∧ c = ps.flatten := by
  cases blk with
  | none => simp [verifyAndSpool]
  | some bs => ?_
  simp only [verifyAndSpool]
  by_cases hoff : e.firstFrameOff < 0
  · simp [hoff]
  by_cases hzero : isZeroSHA256 e.sha256 = true
  · simp [hoff, hzero]
  by_cases halloc : CanAllocate maxAlloc e.totalBytes
  · rcases hframes : storedFrames crc32c e.frameCount.toNat 0 (seekTo bs e.firstFrameOff) with
      ⟨ps, err⟩
    cases err with
    | some err => simp [hoff, hzero, halloc, hframes]
    | none => ?_
    by_cases hsha : sha256 ps.flatten = e.sha256
    · simp [hoff, hzero, halloc, hframes, hsha, eq_comm]
    · simp [hoff, hzero, halloc, hframes, hsha]
  · simp [hoff, hzero, halloc]

/-- The call panics only for the capacity, behind the checks that come before it. -/
theorem verifyAndSpool_panics :
    verifyAndSpool crc32c sha256 maxAlloc blk e = .panics ↔
      blk ≠ none ∧ ¬ e.firstFrameOff < 0 ∧ isZeroSHA256 e.sha256 = false ∧
        ¬ CanAllocate maxAlloc e.totalBytes := by
  cases blk with
  | none => simp [verifyAndSpool]
  | some bs => ?_
  simp only [verifyAndSpool]
  by_cases hoff : e.firstFrameOff < 0
  · simp [hoff]
  by_cases hzero : isZeroSHA256 e.sha256 = true
  · simp [hoff, hzero]
  by_cases halloc : CanAllocate maxAlloc e.totalBytes
  · generalize storedFrames crc32c e.frameCount.toNat 0 (seekTo bs e.firstFrameOff) = out
    obtain ⟨ps, err⟩ := out
    cases err with
    | some err => simp [hoff, hzero]
    | none => by_cases hsha : sha256 ps.flatten = e.sha256 <;> simp [hoff, hzero, hsha]
  · simp [hoff, halloc]

end Read

/-- A read of a plaintext entry gives an error or content with the entry's digest, so the body it
was written for, exactly when it does not come to a capacity that cannot be allocated. -/
theorem read_matches_digest (crc32c : List UInt8 → UInt32) (sha256 : List UInt8 → Digest)
    (maxAlloc : Nat) (blk : Option (List UInt8)) (e : Record) (he : e.encryptionEnvelope = []) :
    (((∃ err, readDocument crc32c sha256 maxAlloc blk e = .failed err) ∨
        ∃ c, readDocument crc32c sha256 maxAlloc blk e = .content c ∧ sha256 c = e.sha256) ∧
      ∀ b c, e.sha256 = sha256 b → readDocument crc32c sha256 maxAlloc blk e = .content c →
        (sha256 c = sha256 b → c = b) → c = b) ↔
      (blk = none ∨ e.firstFrameOff < 0 ∨ isZeroSHA256 e.sha256 = true ∨
        CanAllocate maxAlloc e.totalBytes) := by
  rw [readDocument_plaintext he]
  have hdigest : ∀ c, verifyAndSpool crc32c sha256 maxAlloc blk e = .content c →
      sha256 c = e.sha256 := by
    intro c hc
    obtain ⟨bs, ps, -, -, -, -, -, hsha, rfl⟩ := verifyAndSpool_content.mp hc
    exact hsha
  have hbody : ∀ b c, e.sha256 = sha256 b →
      verifyAndSpool crc32c sha256 maxAlloc blk e = .content c →
      (sha256 c = sha256 b → c = b) → c = b := by
    intro b c hb hc hcollision
    exact hcollision ((hdigest c hc).trans hb)
  have hpanics : verifyAndSpool crc32c sha256 maxAlloc blk e ≠ .panics ↔
      (blk = none ∨ e.firstFrameOff < 0 ∨ isZeroSHA256 e.sha256 = true ∨
        CanAllocate maxAlloc e.totalBytes) := by
    rw [ne_eq, verifyAndSpool_panics]
    by_cases hblk : blk = none <;> by_cases hoff : e.firstFrameOff < 0 <;>
      by_cases hzero : isZeroSHA256 e.sha256 = true <;> simp [hblk, hoff, hzero]
  rw [← hpanics]
  refine ⟨fun h => ?_, fun h => ⟨?_, hbody⟩⟩
  · rcases h.1 with ⟨err, herr⟩ | ⟨c, hc, -⟩
    · simp [herr]
    · simp [hc]
  · cases hout : verifyAndSpool crc32c sha256 maxAlloc blk e with
    | failed err => exact .inl ⟨err, rfl⟩
    | content c => exact .inr ⟨c, rfl, hdigest c hout⟩
    | panics => exact absurd hout h

/-- The entry of a Document of one byte at the start of a Block, with this size. -/
def oneByteEntry (totalBytes : Int64) : Record :=
  ⟨[0x74], [0x64], [], 0, 40, 1, totalBytes, sha256OfBit [1], []⟩

theorem read_matches_digest_one :
    ((∃ err, readDocument castagnoli sha256OfBit (2 ^ 48)
          (some (blkBytes castagnoli 2 1 0 [oneFrameDoc] ++ [0xff])) (oneByteEntry 1) = .failed err) ∨
        ∃ c, readDocument castagnoli sha256OfBit (2 ^ 48)
            (some (blkBytes castagnoli 2 1 0 [oneFrameDoc] ++ [0xff])) (oneByteEntry 1) = .content c ∧
          sha256OfBit c = (oneByteEntry 1).sha256) ∧
      ∀ b c, (oneByteEntry 1).sha256 = sha256OfBit b → readDocument castagnoli sha256OfBit (2 ^ 48)
          (some (blkBytes castagnoli 2 1 0 [oneFrameDoc] ++ [0xff])) (oneByteEntry 1) = .content c →
        (sha256OfBit c = sha256OfBit b → c = b) → c = b :=
  (read_matches_digest castagnoli sha256OfBit (2 ^ 48) _ (oneByteEntry 1) rfl).mpr
    (.inr (.inr (.inr (by decide))))

/-- The same entry with a negative size can be read from an index; reading its Document panics. -/
theorem negative_size_panics :
    openIndexReader castagnoli (newIndexBytes castagnoli ++
        encodeRecords castagnoli [oneByteEntry (-1)]) = .ok [oneByteEntry (-1)] ∧
      ¬ ((∃ err, readDocument castagnoli sha256OfBit (2 ^ 48)
          (some (blkBytes castagnoli 2 1 0 [oneFrameDoc])) (oneByteEntry (-1)) = .failed err) ∨
        ∃ c, readDocument castagnoli sha256OfBit (2 ^ 48)
            (some (blkBytes castagnoli 2 1 0 [oneFrameDoc])) (oneByteEntry (-1)) = .content c ∧
          sha256OfBit c = (oneByteEntry (-1)).sha256) := by
  have hpanics : readDocument castagnoli sha256OfBit (2 ^ 48)
      (some (blkBytes castagnoli 2 1 0 [oneFrameDoc])) (oneByteEntry (-1)) = .panics := by
    rw [readDocument_plaintext rfl]
    exact verifyAndSpool_panics.mpr ⟨by simp, by decide⟩
  refine ⟨(openIndexReader_encodeRecords (validHeader_newIndexBytes castagnoli) (by decide)).mpr
    (by decide), ?_⟩
  rw [hpanics]
  simp

end Scrap.Block.Disk
