/-
# Whole Documents in a `.blk` file

Between the writer's calls a `.blk` file holds whole Documents, numbered from zero (`encodeDocs`,
`blkOf`). The writer's operations at that level:

* the scan of such a file returns the state of the writer that has appended the Documents
  (`writerAt`), also behind a bare Frame header;
* truncating where a Document ends leaves the Documents below;
* an append that succeeds puts one Document behind the others, and one that fails leaves Frames that
  truncating to the start removes.
-/
import Scrap.Block.Writer

namespace Scrap.Block

/-- The payloads of one Document; there is at least one. -/
abbrev Payloads := { ps : List (List UInt8) // ps ≠ [] }

def encodeDocs : UInt32 → List Payloads → List Frame
  | _, [] => []
  | seq, d :: ds => docFrames seq 0 d.val ++ encodeDocs (seq + 1) ds

def docsSize (ds : List Payloads) : Nat := framesSize (encodeDocs 0 ds)

def blkOf (ds : List Payloads) : BlkFile := ⟨encodeDocs 0 ds, 0⟩

def endOf (ds : List Payloads) : Nat := headerSize + docsSize ds

def writerAt (blockID : UInt64) (ds : List Payloads) : Writer :=
  ⟨blockID, endOf ds, UInt32.ofNat ds.length, UInt32.ofNat ds.length⟩

theorem docFrames_cons (docSeq frameSeq : UInt32) (p : List UInt8) (ps : List (List UInt8)) :
    docFrames docSeq frameSeq (p :: ps) = ⟨frameFlags frameSeq ps.isEmpty, docSeq, frameSeq, p⟩ ::
        docFrames docSeq (frameSeq + 1) ps := by
  cases ps with
  | nil => rfl
  | cons q ps => rfl

theorem payloads_docFrames (docSeq : UInt32) : ∀ (ps : List (List UInt8)) (frameSeq : UInt32),
    (docFrames docSeq frameSeq ps).map (·.payload) = ps
  | [], _ => rfl
  | p :: ps, frameSeq => by rw [docFrames_cons, List.map_cons, payloads_docFrames docSeq ps]

theorem docFrames_ne_nil (seq fseq : UInt32) {ps : List (List UInt8)} (h : ps ≠ []) :
    docFrames seq fseq ps ≠ [] := by
  match ps with
  | [p] => simp [docFrames]
  | p :: q :: ps => simp [docFrames]

theorem framesSize_docFrames (seq fseq : UInt32) :
    ∀ ps : List (List UInt8),
      framesSize (docFrames seq fseq ps) = (ps.map (frameHeaderSize + ·.length)).sum
  | [] => rfl
  | p :: ps => by
    rw [docFrames_cons, framesSize_cons, framesSize_docFrames seq (fseq + 1) ps]
    simp [Frame.size]

theorem framesSize_encodeDocs (seq : UInt32) (ds : List Payloads) :
    framesSize (encodeDocs seq ds) = docsSize ds := by
  unfold docsSize
  induction ds generalizing seq with
  | nil => rfl
  | cons d ds ih =>
    simp only [encodeDocs, framesSize_append, framesSize_docFrames]
    rw [ih (seq + 1), ← ih (0 + 1)]

@[simp] theorem docsSize_nil : docsSize [] = 0 := rfl

theorem docsSize_append (ds es : List Payloads) :
    docsSize (ds ++ es) = docsSize ds + docsSize es := by
  unfold docsSize
  induction ds with
  | nil => simp [encodeDocs]
  | cons d ds ih =>
    simp only [List.cons_append, encodeDocs, framesSize_append, framesSize_encodeDocs] at ih ⊢
    omega

theorem encodeDocs_append (seq : UInt32) (ds es : List Payloads) :
    encodeDocs seq (ds ++ es) = encodeDocs seq ds ++ encodeDocs (seq + UInt32.ofNat ds.length) es := by
  induction ds generalizing seq with
  | nil => simp [encodeDocs]
  | cons d ds ih =>
    simp only [List.cons_append, encodeDocs, ih (seq + 1), List.length_cons, UInt32.ofNat_add]
    ac_rfl

/-! ## The scan -/

theorem isLastFrame_frameFlags (seq : UInt32) (last : Bool) :
    isLastFrame (frameFlags seq last) = last := by
  unfold frameFlags
  by_cases h : seq = 0
  · cases last <;> simp [h, isLastFrame, flagSingleFrame, flagFirstFrame, flagLastFrame]
  · cases last <;> simp [h, isLastFrame, flagSingleFrame, flagLastFrame]

theorem validateWriterScanFrame_own (seq fseq : UInt32) (last : Bool) (p : List UInt8) :
    validateWriterScanFrame ⟨frameFlags fseq last, seq, fseq, p⟩ seq fseq = .ok () := by
  simp [validateWriterScanFrame, isLastFrame_frameFlags]

theorem scanFrames_docFrames (torn : Nat) (seq count : UInt32) (rest : List Frame) :
    ∀ (ps : List (List UInt8)) (offset : Nat) (fseq : UInt32), ps ≠ [] →
      scanFrames torn offset seq fseq count (docFrames seq fseq ps ++ rest) =
        scanFrames torn (offset + framesSize (docFrames seq fseq ps)) (seq + 1) 0 (count + 1) rest
  | [], _, _, h => absurd rfl h
  | [p], offset, fseq, _ => by
    simp [docFrames, scanFrames, validateWriterScanFrame_own, isLastFrame_frameFlags]
  | p :: q :: ps, offset, fseq, _ => by
    have ih := scanFrames_docFrames torn seq count rest (q :: ps)
      (offset + Frame.size ⟨frameFlags fseq false, seq, fseq, p⟩) (fseq + 1) (by simp)
    simp only [docFrames, List.cons_append, scanFrames, validateWriterScanFrame_own,
      isLastFrame_frameFlags, Bool.false_eq_true, if_false, ih, framesSize_cons,
      Nat.add_assoc]

theorem scanFrames_encodeDocs (torn : Nat) (rest : List Frame) :
    ∀ (ds : List Payloads) (offset : Nat) (seq count : UInt32),
      scanFrames torn offset seq 0 count (encodeDocs seq ds ++ rest) =
        scanFrames torn (offset + docsSize ds) (seq + UInt32.ofNat ds.length) 0
          (count + UInt32.ofNat ds.length) rest
  | [], offset, seq, count => by simp [encodeDocs]
  | d :: ds, offset, seq, count => by
    have hsize : docsSize (d :: ds) = framesSize (docFrames seq 0 d.val) + docsSize ds := by
      rw [← framesSize_encodeDocs seq (d :: ds), encodeDocs, framesSize_append,
        framesSize_encodeDocs]
    rw [encodeDocs, List.append_assoc, scanFrames_docFrames torn seq count _ _ _ _ d.2,
      scanFrames_encodeDocs torn rest ds, hsize, List.length_cons,
      UInt32.ofNat_add]
    congr 1 <;> ac_rfl

/-- A file of whole Documents scans to the writer behind them, also with a bare Frame header behind.
-/
theorem scanWriterState_encodeDocs (ds : List Payloads) (torn : Nat) (h : tailIsEOF torn = true) :
    scanWriterState ⟨encodeDocs 0 ds, torn⟩ =
      .ok (endOf ds, UInt32.ofNat ds.length, UInt32.ofNat ds.length) := by
  have hscan := scanFrames_encodeDocs torn [] ds headerSize 0 0
  rw [List.append_nil] at hscan
  simp [scanWriterState, hscan, scanFrames, h, endOf]

theorem openWriter_blkOf (blockID : UInt64) (ds : List Payloads) :
    openWriter (blkOf ds) blockID = .ok (writerAt blockID ds) := by
  rw [openWriter, blkOf, scanWriterState_encodeDocs ds 0 rfl]
  rfl

/-! ## Truncation -/

theorem endOf_append (ds es : List Payloads) : endOf (ds ++ es) = endOf ds + docsSize es := by
  simp [endOf, docsSize_append, Nat.add_assoc]

theorem endOf_le_append (ds es : List Payloads) : endOf ds ≤ endOf (ds ++ es) := by
  rw [endOf_append]
  exact Nat.le_add_right _ _

theorem BlkFile.truncate_docs (ds : List Payloads) (fs : List Frame) (torn : Nat) :
    BlkFile.truncate ⟨encodeDocs 0 ds ++ fs, torn⟩ (endOf ds) = blkOf ds :=
  BlkFile.truncate_append (encodeDocs 0 ds) fs torn

theorem Writer.truncate_boundary {w : Writer} {ds : List Payloads} {fs : List Frame} {torn : Nat}
    (hend : endOf ds ≤ w.offset) :
    w.truncate ⟨encodeDocs 0 ds ++ fs, torn⟩ (endOf ds) =
      (.ok (), writerAt w.blockID ds, blkOf ds) := by
  have hhead : ¬ endOf ds < headerSize := by simp [endOf]
  rw [Writer.truncate, if_neg hhead, if_neg (by omega), BlkFile.truncate_docs]
  simp only [blkOf, scanWriterState_encodeDocs ds 0 rfl]
  rfl

/-! ## Appends -/

theorem encodeDocs_concat (ds : List Payloads) (d : Payloads) :
    encodeDocs 0 (ds ++ [d]) = encodeDocs 0 ds ++ docFrames (UInt32.ofNat ds.length) 0 d.val := by
  rw [encodeDocs_append]
  simp [encodeDocs]

theorem writeFrames_document (b : UInt64) (ds : List Payloads) (d : Payloads) :
    (writerAt b ds).writeFrames (blkOf ds) (docFrames (writerAt b ds).docSeq 0 d.val) =
      ({ writerAt b ds with offset := endOf (ds ++ [d]) }, blkOf (ds ++ [d])) := by
  have hoff : endOf ds + framesSize (docFrames (UInt32.ofNat ds.length) 0 d.val) =
      endOf (ds ++ [d]) := by
    unfold endOf docsSize
    rw [encodeDocs_concat, framesSize_append, Nat.add_assoc]
  simp only [Writer.writeFrames, writerAt, hoff]
  rw [blkOf, blkOf, encodeDocs_concat]

theorem documentDone_writerAt (b : UInt64) (ds : List Payloads) (d : Payloads) :
    Writer.documentDone { writerAt b ds with offset := endOf (ds ++ [d]) } =
      writerAt b (ds ++ [d]) := by
  simp [Writer.documentDone, writerAt]

theorem length_docFrames (seq fseq : UInt32) (ps : List (List UInt8)) :
    (docFrames seq fseq ps).length = ps.length := by
  rw [← List.length_map (·.payload), payloads_docFrames]

theorem docFrames_eq_nil {seq fseq : UInt32} {ps : List (List UInt8)} :
    docFrames seq fseq ps = [] ↔ ps = [] := by
  rw [← List.length_eq_zero_iff, length_docFrames, List.length_eq_zero_iff]

/-- A failed append has left Frames behind the Documents at most. -/
def AppendFailed {α : Type} (b : UInt64) (ds : List Payloads)
    (out : Except WriterErr α × Writer × BlkFile) : Prop :=
  ∃ err w fs, out = (.error err, w, ⟨encodeDocs 0 ds ++ fs, 0⟩) ∧ w.blockID = b ∧
    endOf ds ≤ w.offset

theorem appendFailed_writeFrames {α : Type} (b : UInt64) (ds : List Payloads) (fs : List Frame)
    (err : WriterErr) :
    AppendFailed (α := α) b ds (.error err, (writerAt b ds).writeFrames (blkOf ds) fs) :=
  ⟨err, _, fs, rfl, rfl, Nat.le_add_right _ _⟩

theorem appendFailed_unchanged {α : Type} (b : UInt64) (ds : List Payloads) (err : WriterErr) :
    AppendFailed (α := α) b ds (.error err, writerAt b ds, blkOf ds) :=
  ⟨err, writerAt b ds, [], by simp [blkOf], rfl, Nat.le_refl _⟩

section Append

variable (sha256 : List UInt8 → Digest) (b : UInt64) (ds : List Payloads)

theorem framePayloads_eq_nil {bytes : List UInt8} : framePayloads bytes = [] ↔ bytes = [] := by
  unfold framePayloads
  rw [List.map_eq_nil_iff, List.range_eq_nil]
  constructor
  · intro h
    by_contra hne
    have hlen := List.length_pos_of_ne_nil hne
    have := Nat.div_pos (a := bytes.length + maxFramePayload - 1) (b := maxFramePayload)
      (by omega) (by decide)
    omega
  · rintro rfl
    rfl

theorem Writer.appendDocument_ok (body : Body) :
    (∃ h : body.bytes ≠ [], body.fails = false ∧
      (writerAt b ds).appendDocument sha256 (blkOf ds) body =
        (.ok ⟨sha256 body.bytes, body.bytes.length,
            UInt32.ofNat (framePayloads body.bytes).length, endOf ds⟩,
          writerAt b (ds ++ [⟨framePayloads body.bytes, mt framePayloads_eq_nil.mp h⟩]),
          blkOf (ds ++ [⟨framePayloads body.bytes, mt framePayloads_eq_nil.mp h⟩]))) ∨
      AppendFailed b ds ((writerAt b ds).appendDocument sha256 (blkOf ds) body) := by
  by_cases hf : body.fails = true
  · refine .inr ?_
    simp only [Writer.appendDocument, hf]
    exact appendFailed_writeFrames b ds _ _
  · by_cases hne : body.bytes = []
    · refine .inr ?_
      have hnil : writeDocFrames (writerAt b ds).docSeq body = [] := by
        simp [writeDocFrames, framePayloads_eq_nil.mpr hne, docFrames]
      simp only [Writer.appendDocument, hf, hnil]
      exact appendFailed_unchanged b ds _
    · refine .inl ⟨hne, by simpa using hf, ?_⟩
      have hp := mt framePayloads_eq_nil.mp hne
      have hfs : writeDocFrames (writerAt b ds).docSeq body =
          docFrames (writerAt b ds).docSeq 0 (framePayloads body.bytes) := by
        simp [writeDocFrames, hf]
      have hw := writeFrames_document b ds ⟨framePayloads body.bytes, hp⟩
      simp only [Writer.appendDocument, hfs, hf, hw, docFrames_eq_nil, hp, length_docFrames,
        documentDone_writerAt]
      simp [writerAt]

end Append

end Scrap.Block
