/-
# A writer in step with its file

A writer is in step with its file when it is the one that `openWriter` derives from the Frames: it
stands behind the last whole Frame, and an append goes where its offset says. What keeps the two in
step is an append that succeeds (`openWriter_with`), a truncation to the writer's own offset,
whatever an append that failed has left behind it (`Writer.truncate_back`), and one to where a
Document starts (`Writer.truncate_start`).

A truncation inside a Document does not: the scan behind it fails and leaves the old counters.
-/
import Scrap.Block.Docs

namespace Scrap.Block

/-! ## The scan -/

section Scan

variable {t offset : Nat} {docSeq frameSeq docCount : UInt32}

variable {f : Frame} {ε α : Type}

theorem scanFrames_cons_of_ok (fs : List Frame)
    (h : validateWriterScanFrame f docSeq frameSeq = .ok ()) :
    scanFrames t offset docSeq frameSeq docCount (f :: fs) =
      scanFrames t (offset + f.size) (if isLastFrame f.flags then docSeq + 1 else docSeq)
        (if isLastFrame f.flags then 0 else frameSeq + 1)
        (if isLastFrame f.flags then docCount + 1 else docCount) fs := by
  simp only [scanFrames, h]
  split <;> rfl

theorem scanFrames_cons_ok {fs : List Frame} {x : Nat × UInt32 × UInt32} :
    scanFrames t offset docSeq frameSeq docCount (f :: fs) = .ok x ↔
      validateWriterScanFrame f docSeq frameSeq = .ok () ∧
        scanFrames t (offset + f.size) (if isLastFrame f.flags then docSeq + 1 else docSeq)
          (if isLastFrame f.flags then 0 else frameSeq + 1)
          (if isLastFrame f.flags then docCount + 1 else docCount) fs = .ok x := by
  cases hval : validateWriterScanFrame f docSeq frameSeq with
  | error err => simp [scanFrames, hval]
  | ok u => simp [scanFrames_cons_of_ok fs hval]

/-- What is torn behind the Frames decides only whether the scan accepts the file. -/
theorem scanFrames_torn : ∀ (fs : List Frame) (offset : Nat) (docSeq frameSeq docCount : UInt32)
    {x : Nat × UInt32 × UInt32},
    scanFrames t offset docSeq frameSeq docCount fs = .ok x ↔
      tailIsEOF t = true ∧ scanFrames 0 offset docSeq frameSeq docCount fs = .ok x
  | [], offset, docSeq, frameSeq, docCount, x => by
    have hzero : tailIsEOF 0 = true := rfl
    by_cases ht : tailIsEOF t = true <;> simp [scanFrames, ht, hzero]
  | f :: fs, offset, docSeq, frameSeq, docCount, x => by
    rw [scanFrames_cons_ok, scanFrames_cons_ok, scanFrames_torn fs, and_left_comm]

theorem scanFrames_offset : ∀ (fs : List Frame) (offset : Nat) (docSeq frameSeq docCount : UInt32)
    {x : Nat × UInt32 × UInt32}, scanFrames t offset docSeq frameSeq docCount fs = .ok x →
      x.1 = offset + framesSize fs
  | [], offset, docSeq, frameSeq, docCount, x, h => by
    simp only [scanFrames] at h
    split_ifs at h
    rw [← Except.ok.inj h]
    simp
  | f :: fs, offset, docSeq, frameSeq, docCount, x, h => by
    have hrest := scanFrames_offset fs _ _ _ _ (scanFrames_cons_ok.mp h).2
    rw [framesSize_cons]
    omega

theorem scanFrames_append (gs : List Frame) : ∀ (fs : List Frame) (offset : Nat)
    (docSeq frameSeq docCount : UInt32) {x : Nat × UInt32 × UInt32},
    scanFrames 0 offset docSeq frameSeq docCount fs = .ok x →
      scanFrames t offset docSeq frameSeq docCount (fs ++ gs) = scanFrames t x.1 x.2.1 0 x.2.2 gs
  | [], offset, docSeq, frameSeq, docCount, x, h => by
    simp only [scanFrames] at h
    split_ifs at h with htail hseq
    rw [← Except.ok.inj h, List.nil_append, not_ne_iff.mp hseq]
  | f :: fs, offset, docSeq, frameSeq, docCount, x, h => by
    obtain ⟨hval, h⟩ := scanFrames_cons_ok.mp h
    rw [List.cons_append, scanFrames_cons_of_ok _ hval]
    exact scanFrames_append gs fs _ _ _ _ h

theorem validateWriterScanFrame_frameSeq {docSeq frameSeq : UInt32}
    (h : validateWriterScanFrame f docSeq frameSeq = .ok ()) : f.frameSeq = frameSeq := by
  unfold validateWriterScanFrame at h
  split at h
  · cases h
  · split at h
    · cases h
    · next hseq => exact not_ne_iff.mp hseq

theorem scanFrames_before {g : Frame} (hg : g.frameSeq = 0) (gs : List Frame) :
    ∀ (fs : List Frame) (offset : Nat) (docSeq frameSeq docCount : UInt32)
      {x : Nat × UInt32 × UInt32},
    scanFrames t offset docSeq frameSeq docCount (fs ++ g :: gs) = .ok x →
      ∃ y, scanFrames 0 offset docSeq frameSeq docCount fs = .ok y
  | [], offset, docSeq, frameSeq, docCount, x, h => by
    have hzero : frameSeq = 0 :=
      (validateWriterScanFrame_frameSeq (scanFrames_cons_ok.mp h).1).symm.trans hg
    exact ⟨(offset, docSeq, docCount), by simp [scanFrames, hzero, tailIsEOF]⟩
  | f :: fs, offset, docSeq, frameSeq, docCount, x, h => by
    obtain ⟨hval, h⟩ := scanFrames_cons_ok.mp h
    rw [scanFrames_cons_of_ok _ hval]
    exact scanFrames_before hg gs fs _ _ _ _ h

end Scan

/-! ## The writer of a file -/

def BlkFile.with (f : BlkFile) (docSeq : UInt32) (ps : List (List UInt8)) : BlkFile :=
  ⟨f.frames ++ docFrames docSeq 0 ps, 0⟩

def Writer.behind (w : Writer) (ps : List (List UInt8)) : Writer :=
  { w with offset := w.offset + framesSize (docFrames w.docSeq 0 ps) }.documentDone

section Writer

variable {f : BlkFile} {b : UInt64} {w : Writer}

theorem openWriter_ok : openWriter f b = .ok w ↔ w.blockID = b ∧
    scanFrames f.torn headerSize 0 0 0 f.frames = .ok (w.offset, w.docSeq, w.docCount) := by
  simp only [openWriter, scanWriterState]
  cases scanFrames f.torn headerSize 0 0 0 f.frames with
  | error err => simp
  | ok x => ?_
  obtain ⟨offset, docSeq, docCount⟩ := x
  obtain ⟨blockID, offset', docSeq', docCount'⟩ := w
  simp only [Except.ok.injEq, Writer.mk.injEq, Prod.mk.injEq]
  exact ⟨fun h => ⟨h.1.symm, h.2⟩, fun h => ⟨h.1.symm, h.2⟩⟩

theorem openWriter_torn : openWriter f b = .ok w ↔
    tailIsEOF f.torn = true ∧ openWriter ⟨f.frames, 0⟩ b = .ok w := by
  rw [openWriter_ok, openWriter_ok, scanFrames_torn]
  exact ⟨fun ⟨hb, ht, hs⟩ => ⟨ht, hb, hs⟩, fun ⟨ht, hb, hs⟩ => ⟨hb, ht, hs⟩⟩

theorem openWriter_of_frames {f' : BlkFile} {w' : Writer} (hw : openWriter f b = .ok w)
    (hw' : openWriter f' b = .ok w') (hframes : f'.frames = f.frames) : w' = w := by
  have h := (openWriter_torn.mp hw).2
  have h' := (openWriter_torn.mp hw').2
  rw [hframes, h] at h'
  exact (Except.ok.inj h').symm

theorem openWriter_offset (h : openWriter f b = .ok w) :
    w.offset = headerSize + framesSize f.frames :=
  scanFrames_offset _ _ _ _ _ (openWriter_ok.mp h).2

theorem openWriter_with (h : openWriter f b = .ok w) {ps : List (List UInt8)} (hps : ps ≠ []) :
    openWriter (f.with w.docSeq ps) b = .ok (w.behind ps) := by
  obtain ⟨hb, hscan⟩ := openWriter_ok.mp (openWriter_torn.mp h).2
  refine openWriter_ok.mpr ⟨hb, ?_⟩
  have hdoc := scanFrames_docFrames 0 w.docSeq w.docCount [] ps w.offset 0 hps
  rw [List.append_nil] at hdoc
  rw [BlkFile.with, scanFrames_append _ _ _ _ _ _ hscan, hdoc]
  simp [scanFrames, tailIsEOF, Writer.behind, Writer.documentDone]

theorem Writer.truncate_back (h : openWriter f b = .ok w) {w' : Writer} (hb : w'.blockID = b)
    (hoff : w.offset ≤ w'.offset) (gs : List Frame) (t : Nat) :
    w'.truncate ⟨f.frames ++ gs, t⟩ w.offset = (.ok (), w, ⟨f.frames, 0⟩) := by
  obtain ⟨hid, hscan⟩ := openWriter_ok.mp (openWriter_torn.mp h).2
  have hoffset := openWriter_offset h
  rw [Writer.truncate, if_neg (by omega), if_neg (by omega), hoffset, BlkFile.truncate_append]
  simp only [scanWriterState, hscan]
  obtain ⟨blockID, offset, docSeq, docCount⟩ := w
  simp only at hid
  rw [hb, hid]

theorem Writer.truncate_start {fs gs : List Frame} {g : Frame} {t : Nat} (hg : g.frameSeq = 0)
    (h : openWriter ⟨fs ++ g :: gs, t⟩ b = .ok w) :
    ∃ w', w.truncate ⟨fs ++ g :: gs, t⟩ (headerSize + framesSize fs) = (.ok (), w', ⟨fs, 0⟩) ∧
      openWriter ⟨fs, 0⟩ b = .ok w' := by
  obtain ⟨hid, hscan⟩ := openWriter_ok.mp h
  obtain ⟨⟨offset, docSeq, docCount⟩, hbefore⟩ := scanFrames_before hg gs fs _ _ _ _ hscan
  have hoffset := openWriter_offset h
  rw [framesSize_append] at hoffset
  refine ⟨⟨b, offset, docSeq, docCount⟩, ?_, openWriter_ok.mpr ⟨rfl, hbefore⟩⟩
  rw [Writer.truncate, if_neg (by omega), if_neg (by omega), BlkFile.truncate_append]
  simp only [scanWriterState, hbefore, hid]

end Writer

/-! ## Appends -/

/-- What an append does to a writer and its file: a Document is put behind the Frames, or Frames of
one that failed. -/
def Writer.Appended {ε α : Type} (w : Writer) (f : BlkFile) : Except ε α × Writer × BlkFile → Prop
  | (.ok _, w', f') => ∃ ps, ps ≠ [] ∧ w' = w.behind ps ∧ f' = f.with w.docSeq ps
  | (.error _, w', f') =>
    w'.blockID = w.blockID ∧ w.offset ≤ w'.offset ∧ ∃ gs t, f' = ⟨f.frames ++ gs, t⟩

theorem Writer.Appended.grown {w : Writer} {f : BlkFile}
    {out : Except ε α × Writer × BlkFile} (h : w.Appended f out) :
    out.2.1.blockID = w.blockID ∧ w.offset ≤ out.2.1.offset ∧
      ∃ gs t, out.2.2 = ⟨f.frames ++ gs, t⟩ := by
  obtain ⟨res, w', f'⟩ := out
  cases res with
  | error err => exact h
  | ok a =>
    obtain ⟨ps, -, rfl, rfl⟩ := h
    exact ⟨rfl, Nat.le_add_right _ _, _, 0, rfl⟩

section Appended

variable (w : Writer) (f : BlkFile)

theorem Writer.appended_unchanged (err : ε) :
    w.Appended (α := α) f (.error err, w, f) :=
  ⟨rfl, Nat.le_refl _, [], f.torn, by rw [List.append_nil]⟩

theorem Writer.appended_writeFrames (err : ε) (gs : List Frame) :
    w.Appended (α := α) f (.error err, w.writeFrames f gs) :=
  ⟨rfl, Nat.le_add_right _ _, gs, 0, rfl⟩

theorem Writer.appended_document (a : α) {ps : List (List UInt8)} (hps : ps ≠ []) :
    w.Appended (ε := ε) f (.ok a, (w.writeFrames f (docFrames w.docSeq 0 ps)).1.documentDone,
      (w.writeFrames f (docFrames w.docSeq 0 ps)).2) :=
  ⟨ps, hps, rfl, rfl⟩

theorem Writer.appendDocument_appended (sha256 : List UInt8 → Digest) (body : Body) :
    w.Appended f (w.appendDocument sha256 f body) := by
  unfold Writer.appendDocument
  simp only
  split
  · exact w.appended_writeFrames f _ _
  next hfails =>
    split
    · exact w.appended_unchanged f _
    next hne =>
      have hfs : writeDocFrames w.docSeq body =
          docFrames w.docSeq 0 (framePayloads body.bytes) := by
        simp [writeDocFrames, hfails]
      rw [hfs] at hne ⊢
      exact w.appended_document f _ (mt docFrames_eq_nil.mpr hne)

theorem Writer.appendDocumentFrames_appended (d : DocumentFrames) :
    w.Appended f (w.appendDocumentFrames f d) := by
  unfold Writer.appendDocumentFrames
  split
  · exact w.appended_unchanged f _
  split
  · exact w.appended_unchanged f _
  next hne =>
    simp only
    split
    · exact w.appended_writeFrames f _ _
    next hlim =>
      have hall : (docFrames w.docSeq 0 d.payloads).take
          (d.payloads.takeWhile (fun p => p.length ≤ maxFramePayload)).length =
            docFrames w.docSeq 0 d.payloads :=
        List.take_of_length_le (by rw [length_docFrames]; omega)
      rw [hall]
      exact w.appended_document f _ hne

theorem Writer.appendDocumentFrameSource_appended (src : FrameSource) :
    w.Appended f (w.appendDocumentFrameSource f src) := by
  unfold Writer.appendDocumentFrameSource
  simp only
  split
  · exact w.appended_writeFrames f _ _
  split
  · exact w.appended_writeFrames f _ _
  · split
    · exact w.appended_unchanged f _
    · next hne => exact w.appended_document f _ hne

end Appended

end Scrap.Block
