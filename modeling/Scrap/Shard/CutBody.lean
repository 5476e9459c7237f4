/-
# A body that breaks off

Both appends read a body with `io.ReadFull` and take three things for its end: `io.EOF`, the
`io.ErrUnexpectedEOF` that `io.ReadFull` makes of it behind a partly filled buffer, and every other
error that is or wraps one of the two. The last are errors of the body's own reader, a cut
connection for instance, and what had arrived is stored as a whole Document (`isBodyEOF`,
`isStreamBodyEOF`). `cut_body_rejected` says that these are the only bodies that break off and are
not refused.
-/
import Scrap.Block.DiskWriter
import Scrap.Shard.ReplicatedAppend

namespace Scrap.Block.Disk

open Buffered Encryption

def noFaults : Faults := ⟨none, false⟩

variable {cfg : EncryptorConfig} {r : Reader UInt8} {S : Suite}

section Appends

variable {crc32c : List UInt8 → UInt32} {d : DiskWriter} {fs : List Frame}

theorem DiskWriter.appendFrames_error (io : Faults) (err : WriterErr) :
    ∃ e, (d.appendFrames crc32c io fs (some err)).1 = .error e := by
  unfold DiskWriter.appendFrames
  rcases d.writeFrames crc32c io.room fs with ⟨werr, d'⟩
  cases werr with
  | some werr => exact ⟨werr, rfl⟩
  | none => exact ⟨.writer err, rfl⟩

theorem DiskWriter.writeFrames_noFaults : ∀ {fs : List Frame} {d : DiskWriter}, WithinLimit fs →
    (d.writeFrames crc32c none fs).1 = none
  | [], _, _ => rfl
  | f :: fs, d, h => by
    have hlimit : ¬ maxFramePayload < f.payload.length := Nat.not_lt.mpr (h f (by simp))
    rw [DiskWriter.writeFrames, if_neg hlimit, if_neg (by simp)]
    exact writeFrames_noFaults fun g hg => h g (by simp [hg])

theorem DiskWriter.appendFrames_noFaults (h : WithinLimit fs) :
    (d.appendFrames crc32c noFaults fs none).1 = .ok () := by
  have hwrite : (d.writeFrames crc32c noFaults.room fs).1 = none :=
    DiskWriter.writeFrames_noFaults h
  unfold DiskWriter.appendFrames
  rcases hout : d.writeFrames crc32c noFaults.room fs with ⟨werr, d'⟩
  rw [hout] at hwrite
  obtain rfl : werr = none := hwrite
  rfl

theorem withinLimit_docFrames {docSeq frameSeq : UInt32} {ps : List (List UInt8)}
    (h : ∀ p ∈ ps, p.length ≤ maxFramePayload) : WithinLimit (docFrames docSeq frameSeq ps) := by
  intro f hf
  have hmem := List.mem_map_of_mem (f := (·.payload)) hf
  rw [payloads_docFrames] at hmem
  exact h _ hmem

theorem DiskWriter.appendDocument_failed (io : Faults) (hfail : r.ending.isEOF = false) :
    ∃ e, (d.appendDocument crc32c io r).1 = .error e := by
  have hfails : (bodyOf r).fails = true := by simp [bodyOf, hfail]
  simp only [DiskWriter.appendDocument, readDocFrames_eq, hfails]
  exact DiskWriter.appendFrames_error io _

theorem DiskWriter.appendDocument_eof (heof : r.ending.isEOF = true)
    (hcount : UInt32.ofNat (framePayloads r.bytes).length ≠ 0) :
    (d.appendDocument crc32c noFaults r).1 = .ok () := by
  have hfails : (bodyOf r).fails = false := by simp [bodyOf, heof]
  have hfs : writeDocFrames d.writer.docSeq (bodyOf r) =
      docFrames d.writer.docSeq 0 (framePayloads r.bytes) := by
    rw [writeDocFrames, if_neg (by simp [hfails])]
    rfl
  simp only [DiskWriter.appendDocument, readDocFrames_eq, hfails, hfs, length_docFrames,
    if_neg hcount]
  rw [framePayloads_eq_pieces]
  exact DiskWriter.appendFrames_noFaults
    (withinLimit_docFrames (length_le_of_mem_pieces maxFramePayload_pos _))

theorem documentEncryptor_failed {enc : Encryptor} (henc : documentEncryptor S cfg r = some enc)
    (hfail : r.ending.isEOF = false) : enc.frames.fails = true := by
  unfold documentEncryptor at henc
  cases hnew : newDocumentEncryptor cfg r with
  | none => simp [hnew] at henc
  | some e => ?_
  have hframes := (newDocumentEncryptor_at hnew).2.1.frames_failed S cfg _ rfl hfail
  simp only [hnew, hframes, Option.some.injEq] at henc
  rw [← henc]
  rfl

theorem documentEncryptor_eof (hkey : cfg.key.plaintext.length = aes256KeySize) (hne : r.bytes ≠ [])
    (heof : r.ending.isEOF = true) :
    ∃ info, documentEncryptor S cfg r =
      some ⟨⟨sealFrames S cfg 0 (pieces plainFrameSize r.bytes), false⟩, info⟩ := by
  obtain ⟨e, hnew⟩ : ∃ e, newDocumentEncryptor cfg r = some e := by simp [newDocumentEncryptor, hkey]
  obtain ⟨-, hat, hseq, -⟩ := newDocumentEncryptor_at hnew
  obtain ⟨e', hrun, -⟩ := hat.frames_eq S cfg _ rfl heof hne
  rw [hseq] at hrun
  exact ⟨e'.finalize S cfg, by simp [documentEncryptor, hnew, hrun]⟩

theorem DiskWriter.appendDocumentFrameSource_eof (hS : S.Lawful)
    (hkey : cfg.key.plaintext.length = aes256KeySize) (hne : r.bytes ≠ []) :
    (d.appendDocumentFrameSource crc32c noFaults
      ⟨sealFrames S cfg 0 (pieces plainFrameSize r.bytes), false⟩).1 = .ok () := by
  have hfs : sealFrames S cfg 0 (pieces plainFrameSize r.bytes) ≠ [] := by
    intro hnil
    have hlen := congrArg List.length hnil
    rw [length_sealFrames, List.length_nil, List.length_eq_zero_iff,
      pieces_eq_nil plainFrameSize_pos] at hlen
    exact hne hlen
  rw [DiskWriter.appendDocumentFrameSource, if_neg hfs]
  exact DiskWriter.appendFrames_noFaults
    (withinLimit_docFrames (length_sealFrames_pieces hS hkey r.bytes 0).1)

end Appends

/-- A body that delivers something is refused by both appends, whatever the disk does, exactly when
its reader's error does not pass for an end of the file. -/
theorem cut_body_rejected {r : Reader UInt8} (hne : r.bytes ≠ []) :
    ((∀ crc32c io (d : DiskWriter), ∃ e, (d.appendDocument crc32c io r).1 = .error e) ∧
      ∀ S cfg enc, documentEncryptor S cfg r = some enc → ∀ crc32c io (d : DiskWriter),
          ∃ e, (d.appendDocumentFrameSource crc32c io enc.frames).1 = .error e) ↔
      r.ending = .failed := by
  have hends : r.ending = .failed ↔ r.ending.isEOF = false := by
    cases r.ending <;> simp [Ending.isEOF]
  rw [hends]
  constructor
  · rintro ⟨-, hencrypted⟩
    by_contra heof
    rw [Bool.not_eq_false] at heof
    have hkey : sampleConfig.key.plaintext.length = aes256KeySize := rfl
    obtain ⟨info, henc⟩ := documentEncryptor_eof hkey hne heof
    obtain ⟨e, he⟩ := hencrypted _ _ _ henc Bytes.castagnoli noFaults ⟨newWriter 1, ⟨[], 0⟩⟩
    rw [DiskWriter.appendDocumentFrameSource_eof sampleSuite_lawful hkey hne] at he
    exact absurd he (by simp)
  · intro hfail
    refine ⟨fun crc32c io d => DiskWriter.appendDocument_failed io hfail, ?_⟩
    intro S cfg enc henc crc32c io d
    rw [DiskWriter.appendDocumentFrameSource, if_pos (documentEncryptor_failed henc hfail)]
    exact DiskWriter.appendFrames_error io _

/-- One byte and then an error of another kind. -/
theorem cut_body_rejected_failed :
    (∀ crc32c io (d : DiskWriter), ∃ e, (d.appendDocument crc32c io ⟨[[1]], .failed⟩).1 = .error e) ∧
      ∀ S cfg enc, documentEncryptor S cfg ⟨[[1]], .failed⟩ = some enc →
        ∀ crc32c io (d : DiskWriter),
          ∃ e, (d.appendDocumentFrameSource crc32c io enc.frames).1 = .error e :=
  (cut_body_rejected (by decide)).mpr rfl

/-- One byte and then an `io.ErrUnexpectedEOF` of the reader itself: `AppendDocument` takes the one
byte as a body, and the encrypted append stores it too. -/
theorem cut_body_stored :
    (diskAt Bytes.castagnoli 2 1 0 []).appendDocument Bytes.castagnoli noFaults
        ⟨[[1]], .unexpectedEOF⟩ =
      (diskAt Bytes.castagnoli 2 1 0 []).appendDocument Bytes.castagnoli noFaults ⟨[[1]], .eof⟩ ∧
      ((diskAt Bytes.castagnoli 2 1 0 []).appendDocument Bytes.castagnoli noFaults
        ⟨[[1]], .unexpectedEOF⟩).1 = .ok () ∧
      ∃ enc, documentEncryptor sampleSuite sampleConfig ⟨[[1]], .unexpectedEOF⟩ = some enc ∧
        ((diskAt Bytes.castagnoli 2 1 0 []).appendDocumentFrameSource Bytes.castagnoli noFaults
          enc.frames).1 = .ok () := by
  have hkey : sampleConfig.key.plaintext.length = aes256KeySize := rfl
  have hne : (⟨[[1]], .unexpectedEOF⟩ : Reader UInt8).bytes ≠ [] := by decide
  have hbody : bodyOf ⟨[[1]], .unexpectedEOF⟩ = bodyOf ⟨[[1]], .eof⟩ := rfl
  have hcount : UInt32.ofNat
      (framePayloads (⟨[[1]], .unexpectedEOF⟩ : Reader UInt8).bytes).length ≠ 0 := by decide
  obtain ⟨info, henc⟩ := documentEncryptor_eof hkey hne rfl
  refine ⟨?_, DiskWriter.appendDocument_eof rfl hcount, _, henc,
    DiskWriter.appendDocumentFrameSource_eof sampleSuite_lawful hkey hne⟩
  simp only [DiskWriter.appendDocument, readDocFrames_eq, hbody]

end Scrap.Block.Disk
