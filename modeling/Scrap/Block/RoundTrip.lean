/-
# Writing a Block and reading it back

Documents are appended to a new Block, each from its reader, and each result is indexed. The Block
then holds `encodeDocs` of their payloads and the `.idx` a record for each: `ReadDocument` of a
record returns the body, `VerifyBlock` finds nothing, and `OpenWriter` recovers the live writer.

`doc_seq` and the Frame count are `uint32` and wrap. A record whose Frames number `2 ^ 32` counts
none of them, and Document `2 ^ 32` is held against the record of Document `0`.
-/
import Scrap.Block.Append
import Scrap.Block.Integrity
import Scrap.Index.ContentQuarantine

namespace Scrap.Block

open Buffered

def maxContentTypeBytes : Nat := 255

/-- A Document to append: what its record says, within the lengths of `ValidateWriteMetadata`, and
the reader of a body that has a byte and ends. -/
structure Submission where
  transactionID : String
  docName : String
  contentType : String
  createdAtUs : Int
  reader : Reader UInt8
  named : transactionID.utf8ByteSize ≤ maxTransactionIDBytes ∧
    docName.utf8ByteSize ≤ maxDocumentNameBytes ∧ contentType.utf8ByteSize ≤ maxContentTypeBytes
  nonempty : reader.bytes ≠ []
  ends : reader.ending.isEOF = true

structure LiveBlock where
  writer : Writer
  blk : BlkFile
  idx : IdxFile

def LiveBlock.new (blockID : UInt64) : LiveBlock := ⟨newWriter blockID, newBlkFile, newIndexFile⟩

inductive AppendErr where
  | writer (err : WriterErr)
  | idx (err : IdxErr)

def Submission.entry (d : Submission) (result : AppendResult) : IndexEntry :=
  ⟨d.transactionID, d.docName, d.contentType, d.createdAtUs, result.firstFrameOffset,
    result.frameCount, result.size, result.sha256, []⟩

def LiveBlock.append (sha256 : List UInt8 → Digest) (b : LiveBlock) (d : Submission) :
    Except AppendErr LiveBlock :=
  match b.writer.appendReader sha256 b.blk d.reader with
  | (.error err, _, _) => .error (.writer err)
  | (.ok result, writer, blk) =>
    match b.idx.append (d.entry result) with
    | .error err => .error (.idx err)
    | .ok idx => .ok ⟨writer, blk, idx⟩

def LiveBlock.appendAll (sha256 : List UInt8 → Digest) : LiveBlock → List Submission →
    Except AppendErr LiveBlock
  | b, [] => .ok b
  | b, d :: ds =>
    match b.append sha256 d with
    | .error err => .error err
    | .ok b' => b'.appendAll sha256 ds

/-! ## What the appends leave -/

def Submission.payloads (d : Submission) : Payloads :=
  ⟨framePayloads d.reader.bytes, mt framePayloads_eq_nil.mp d.nonempty⟩

def Submission.entryAt (sha256 : List UInt8 → Digest) (d : Submission) (offset : Nat) : IndexEntry :=
  d.entry ⟨sha256 d.reader.bytes, d.reader.bytes.length, UInt32.ofNat d.payloads.val.length, offset⟩

def entriesFrom (sha256 : List UInt8 → Digest) : List Payloads → List Submission → List IndexEntry
  | _, [] => []
  | before, d :: ds =>
    d.entryAt sha256 (endOf before) :: entriesFrom sha256 (before ++ [d.payloads]) ds

theorem Submission.fieldsFit (sha256 : List UInt8 → Digest) (d : Submission) (offset : Nat) :
    FieldsFit (d.entryAt sha256 offset) := by
  obtain ⟨htx, hdoc, htype⟩ := d.named
  unfold maxTransactionIDBytes at htx
  unfold maxDocumentNameBytes at hdoc
  unfold maxContentTypeBytes at htype
  intro field hfield
  simp only [lenPrefixedFields, Submission.entryAt, Submission.entry, List.mem_cons,
    List.not_mem_nil, or_false] at hfield
  unfold maxUint16
  rcases hfield with rfl | rfl | rfl | rfl <;> simp <;> omega

/-- The Block that holds these Documents, with the records so far. -/
def liveBlock (blockID : UInt64) (docs : List Payloads) (entries : List IndexEntry) : LiveBlock :=
  ⟨writerAt blockID docs, blkOf docs, ⟨entries, false⟩⟩

section Append

variable (sha256 : List UInt8 → Digest) (blockID : UInt64)

theorem LiveBlock.append_eq (docs : List Payloads) (entries : List IndexEntry) (d : Submission) :
    (liveBlock blockID docs entries).append sha256 d = .ok (liveBlock blockID (docs ++ [d.payloads])
        (entries ++ [d.entryAt sha256 (endOf docs)])) := by
  have hbody : (bodyOf d.reader).fails = false := by simp [bodyOf, d.ends]
  rcases Writer.appendDocument_ok sha256 blockID docs (bodyOf d.reader) with ⟨_, -, happ⟩ | hfail
  · have hrec : IdxFile.append ⟨entries, false⟩ (d.entry ⟨sha256 (bodyOf d.reader).bytes,
        (bodyOf d.reader).bytes.length,
        UInt32.ofNat (framePayloads (bodyOf d.reader).bytes).length, endOf docs⟩) =
          .ok ⟨entries ++ [d.entryAt sha256 (endOf docs)], false⟩ :=
      IdxFile.append_of_fit (d.fieldsFit sha256 (endOf docs)) rfl
    unfold LiveBlock.append
    simp only [liveBlock, Writer.appendReader_eq, happ, hrec]
    rfl
  · obtain ⟨err, w, fs, herr, -, -⟩ := hfail
    have hne : writeDocFrames (writerAt blockID docs).docSeq (bodyOf d.reader) ≠ [] := by
      simp only [writeDocFrames, hbody]
      exact docFrames_ne_nil _ _ d.payloads.2
    simp only [Writer.appendDocument, hbody, hne] at herr
    cases (Prod.mk.inj herr).1

theorem LiveBlock.appendAll_eq : ∀ (ds : List Submission) (docs : List Payloads)
    (entries : List IndexEntry), (liveBlock blockID docs entries).appendAll sha256 ds =
      .ok (liveBlock blockID (docs ++ ds.map (·.payloads))
        (entries ++ entriesFrom sha256 docs ds)) := by
  intro ds
  induction ds with
  | nil =>
    intro docs entries
    simp [LiveBlock.appendAll, entriesFrom]
  | cons d ds ih =>
    intro docs entries
    simp only [LiveBlock.appendAll, LiveBlock.append_eq, ih, List.map_cons, entriesFrom,
      List.append_assoc, List.singleton_append]

theorem LiveBlock.new_appendAll (ds : List Submission) :
    (LiveBlock.new blockID).appendAll sha256 ds =
      .ok (liveBlock blockID (ds.map (·.payloads)) (entriesFrom sha256 [] ds)) :=
  LiveBlock.appendAll_eq sha256 blockID ds [] []

end Append

theorem getElem?_entriesFrom (sha256 : List UInt8 → Digest) : ∀ (ds : List Submission)
    (before : List Payloads) (i : Nat), (entriesFrom sha256 before ds)[i]? =
      ds[i]?.map fun d => d.entryAt sha256 (endOf (before ++ (ds.take i).map (·.payloads))) := by
  intro ds
  induction ds with
  | nil =>
    intro before i
    simp [entriesFrom]
  | cons d ds ih =>
    intro before i
    cases i with
    | zero => simp [entriesFrom]
    | succ i => simp [entriesFrom, ih]

theorem length_entriesFrom (sha256 : List UInt8 → Digest) : ∀ (ds : List Submission)
    (before : List Payloads), (entriesFrom sha256 before ds).length = ds.length := by
  intro ds
  induction ds with
  | nil => exact fun _ => rfl
  | cons d ds ih => exact fun before => congrArg (· + 1) (ih _)

/-! ## The Frames of one Document among the others -/

theorem readStoredFrames_docFrames (seq : UInt32) : ∀ (fseq : UInt32) (ps : List (List UInt8)),
    readStoredFrames fseq (docFrames seq fseq ps).length (docFrames seq fseq ps) = .ok ps
  | _, [] => rfl
  | fseq, [p] => by simp [docFrames, readStoredFrames]
  | fseq, p :: q :: ps => by
    have ih := readStoredFrames_docFrames seq (fseq + 1) (q :: ps)
    simp only [docFrames, List.length_cons, readStoredFrames] at ih ⊢
    simp [ih]

theorem encodeDocs_docSeq {seq : UInt32} : ∀ {ds : List Payloads} {fr : Frame},
    fr ∈ encodeDocs seq ds → ∃ j < ds.length, fr.docSeq = seq + UInt32.ofNat j := by
  intro ds
  induction ds generalizing seq with
  | nil => exact nofun
  | cons d ds ih =>
    intro fr h
    rcases List.mem_append.mp h with h | h
    · exact ⟨0, by simp, by simpa using docFrames_docSeq h⟩
    obtain ⟨j, hj, hseq⟩ := ih h
    refine ⟨j + 1, by simpa using hj, ?_⟩
    rw [hseq, UInt32.ofNat_add]
    ac_rfl

theorem encodeDocs_split (before after : List Payloads) (d : Payloads) :
    encodeDocs 0 (before ++ d :: after) = encodeDocs 0 before ++
      (docFrames (UInt32.ofNat before.length) 0 d.val ++
        encodeDocs (UInt32.ofNat (before.length + 1)) after) := by
  rw [encodeDocs_append, encodeDocs, UInt32.zero_add, UInt32.ofNat_add, UInt32.ofNat_one]

/-- Below `2 ^ 32` Documents, a `doc_seq` tells one Document's Frames from the others. -/
theorem filter_encodeDocs (before after : List Payloads) (d : Payloads)
    (h : (before ++ d :: after).length ≤ 2 ^ 32) :
    (encodeDocs 0 (before ++ d :: after)).filter
        (fun fr => fr.docSeq = UInt32.ofNat before.length) =
      docFrames (UInt32.ofNat before.length) 0 d.val := by
  simp only [List.length_append, List.length_cons] at h
  have hne : ∀ i j : Nat, i < 2 ^ 32 → j < 2 ^ 32 → i ≠ j → UInt32.ofNat i ≠ UInt32.ofNat j := by
    intro i j hi hj hij heq
    have hnat := congrArg UInt32.toNat heq
    rw [UInt32.toNat_ofNat_of_lt' hi, UInt32.toNat_ofNat_of_lt' hj] at hnat
    exact hij hnat
  have hown : (docFrames (UInt32.ofNat before.length) 0 d.val).filter
      (fun fr => fr.docSeq = UInt32.ofNat before.length) =
        docFrames (UInt32.ofNat before.length) 0 d.val :=
    List.filter_eq_self.mpr fun fr hfr => by simpa using docFrames_docSeq hfr
  have hbefore : (encodeDocs 0 before).filter
      (fun fr => fr.docSeq = UInt32.ofNat before.length) = [] := by
    refine List.filter_eq_nil_iff.mpr fun fr hfr => ?_
    obtain ⟨j, hj, hseq⟩ := encodeDocs_docSeq hfr
    rw [hseq]
    simpa using hne j before.length (by omega) (by omega) (by omega)
  have hafter : (encodeDocs (UInt32.ofNat (before.length + 1)) after).filter
      (fun fr => fr.docSeq = UInt32.ofNat before.length) = [] := by
    refine List.filter_eq_nil_iff.mpr fun fr hfr => ?_
    obtain ⟨j, hj, hseq⟩ := encodeDocs_docSeq hfr
    rw [hseq]
    simpa using hne (before.length + 1 + j) before.length (by omega) (by omega) (by omega)
  rw [encodeDocs_split, List.filter_append, List.filter_append, hbefore, hown, hafter,
    List.nil_append, List.append_nil]

/-! ## Reading and verifying what was written -/

/-- The Document can be told from the others and from none: fewer than `2 ^ 32` Frames, and a digest
that is not that of a missing one. -/
def Submission.Readable (c : Crypto) (d : Submission) : Prop :=
  (framePayloads d.reader.bytes).length < 2 ^ 32 ∧ isZeroSHA256 (c.sha256 d.reader.bytes) = false

section Stored

variable {c : Crypto} {d : Submission} {before after : List Payloads}

theorem flatten_framePayloads (bytes : List UInt8) : (framePayloads bytes).flatten = bytes := by
  rw [framePayloads_eq_pieces, flatten_pieces maxFramePayload_pos]

theorem Submission.frameCount_toNat (h : d.Readable c) (offset : Nat) :
    (d.entryAt c.sha256 offset).frameCount.toNat = d.payloads.val.length :=
  UInt32.toNat_ofNat_of_lt' h.1

theorem framesOf_stored (h : d.Readable c) :
    (blkOf (before ++ d.payloads :: after)).framesOf (d.entryAt c.sha256 (endOf before)) =
      docFrames (UInt32.ofNat before.length) 0 d.payloads.val := by
  have hoff : (d.entryAt c.sha256 (endOf before)).firstFrameOff =
      headerSize + framesSize (encodeDocs 0 before) := rfl
  rw [BlkFile.framesOf, hoff, Submission.frameCount_toNat h, blkOf]
  simp only [encodeDocs_split, framesAt_append]
  rw [← length_docFrames (UInt32.ofNat before.length) 0 d.payloads.val, List.take_left']
  rfl

theorem readDocumentBytes_stored (h : d.Readable c) :
    readDocumentBytes c (some (blkOf (before ++ d.payloads :: after)))
      (d.entryAt c.sha256 (endOf before)) = .ok d.reader.bytes := by
  have hread : readDocumentFrames (some (blkOf (before ++ d.payloads :: after)))
      (d.entryAt c.sha256 (endOf before)) = .ok d.payloads.val := by
    have hlen : (docFrames (UInt32.ofNat before.length) 0 d.payloads.val).length =
        (d.entryAt c.sha256 (endOf before)).frameCount.toNat := by
      rw [length_docFrames, Submission.frameCount_toNat h]
    have happ := (readDocumentFrames_append
      (encodeDocs (UInt32.ofNat (before.length + 1)) after) 0
      (show headerSize + framesSize (encodeDocs 0 before) = _ from rfl) hlen).1
    rw [blkOf, encodeDocs_split, happ]
    exact readStoredFrames_docFrames _ 0 _
  have hflat : d.payloads.val.flatten = d.reader.bytes := flatten_framePayloads _
  have hsha : (d.entryAt c.sha256 (endOf before)).sha256 = c.sha256 d.reader.bytes := rfl
  have henv : (d.entryAt c.sha256 (endOf before)).encryptionEnvelope = [] := rfl
  rw [readDocumentBytes, if_pos henv, verifyAndSpool, hsha]
  simp only [h.2, hread, hflat]
  simp

theorem hasDoc_stored (h : d.Readable c) :
    (blkOf (before ++ d.payloads :: after)).HasDoc c (d.entryAt c.sha256 (endOf before)) := by
  refine ⟨_, d.payloads, framesOf_stored h, (Submission.frameCount_toNat h _).symm, ?_⟩
  have henv : (d.entryAt c.sha256 (endOf before)).encryptionEnvelope = [] := rfl
  have hsha : (d.entryAt c.sha256 (endOf before)).sha256 = c.sha256 d.reader.bytes := rfl
  have hflat : d.payloads.val.flatten = d.reader.bytes := flatten_framePayloads _
  rw [checkDocEntry, if_neg (by simp [henv]), checkDocSHA, hsha, hflat]
  simp [h.2]

end Stored

theorem blkOf_torn_lt (docs : List Payloads) : (blkOf docs).torn < frameHeaderSize :=
  show 0 < frameHeaderSize by decide

theorem payloads_split {ds : List Submission} {i : Nat} {d : Submission} (h : ds[i]? = some d) :
    ds.map (·.payloads) = (ds.take i).map (·.payloads) ++
      d.payloads :: (ds.drop (i + 1)).map (·.payloads) := by
  obtain ⟨hi, rfl⟩ := List.getElem?_eq_some_iff.mp h
  rw [← List.map_cons, ← List.map_append, List.getElem_cons_drop, List.take_append_drop]

/-- However the readers hand out their bodies, at most `2 ^ 32` `Readable` Documents appended to a
new Block are read back as they were, the Block verifies, and a scan recovers the live writer. -/
theorem appended_block_reads_back (c : Crypto) (blockID : UInt64) (ds : List Submission)
    (hcount : ds.length ≤ 2 ^ 32) (hread : ∀ d ∈ ds, d.Readable c) :
    ∃ b : LiveBlock, (LiveBlock.new blockID).appendAll c.sha256 ds = .ok b ∧
      b.idx.entries.length = ds.length ∧
      (∀ (i : Nat) (d : Submission) (e : IndexEntry), ds[i]? = some d → b.idx.entries[i]? = some e →
        readDocumentBytes c (some b.blk) e = .ok d.reader.bytes) ∧
      (∃ n, verifyBlock c (some b.blk) (some b.idx) = .ok ⟨[], n⟩) ∧
      openWriter b.blk blockID = .ok b.writer := by
  have hentry : ∀ (i : Nat) (e : IndexEntry), (entriesFrom c.sha256 [] ds)[i]? = some e →
      ∃ d : Submission, ds[i]? = some d ∧
      e = d.entryAt c.sha256 (endOf ((ds.take i).map (·.payloads))) := by
    intro i e he
    rw [getElem?_entriesFrom] at he
    obtain ⟨d, hd, rfl⟩ := Option.map_eq_some_iff.mp he
    exact ⟨d, hd, rfl⟩
  have hseq : ∀ i, i < ds.length → ((ds.take i).map (·.payloads)).length = i := by
    intro i hi
    rw [List.length_map, List.length_take, Nat.min_eq_left (Nat.le_of_lt hi)]
  have hnumbers : (blkOf (ds.map (·.payloads))).Numbers (entriesFrom c.sha256 [] ds) := by
    intro i e he
    obtain ⟨d, hd, rfl⟩ := hentry i e he
    have hi := (List.getElem?_eq_some_iff.mp hd).1
    have hsplit := payloads_split hd
    have hfilter := filter_encodeDocs ((ds.take i).map (·.payloads))
      ((ds.drop (i + 1)).map (·.payloads)) d.payloads (by rw [← hsplit]; simpa using hcount)
    rw [hsplit, framesOf_stored (hread d (List.mem_of_getElem? hd)), ← hfilter, hseq i hi]
    rfl
  have hdocs : ∀ e ∈ entriesFrom c.sha256 [] ds, (blkOf (ds.map (·.payloads))).HasDoc c e := by
    intro e he
    obtain ⟨i, hi, hget⟩ := List.getElem_of_mem he
    obtain ⟨d, hd, rfl⟩ := hentry i e (hget ▸ List.getElem?_eq_getElem hi)
    rw [payloads_split hd]
    exact hasDoc_stored (hread d (List.mem_of_getElem? hd))
  refine ⟨_, LiveBlock.new_appendAll c.sha256 blockID ds, length_entriesFrom .., ?_, ?_,
    openWriter_blkOf blockID _⟩
  · intro i d e hd he
    obtain ⟨d', hd', rfl⟩ := hentry i e he
    obtain rfl := Option.some.inj (hd'.symm.trans hd)
    simp only [payloads_split hd]
    exact readDocumentBytes_stored (hread d' (List.mem_of_getElem? hd))
  · refine ⟨(verifyFrames c (blkOf (ds.map (·.payloads)))
      (entriesFrom c.sha256 [] ds)).framesVerified, ?_⟩
    have hclean := verifyFrames_clean hnumbers hdocs (blkOf_torn_lt _)
    rw [← hclean]
    rfl

/-! ## A Document number that has wrapped -/

/-- SHA-256 as far as the two bodies of one byte below go. -/
def sha256OfBit (bytes : List UInt8) : Digest :=
  if bytes = [0] then
    ⟨[0x6e, 0x34, 0x0b, 0x9c, 0xff, 0xb3, 0x7a, 0x98, 0x9c, 0xa5, 0x44, 0xe6, 0xbb, 0x78, 0x0a, 0x2c,
      0x78, 0x90, 0x1d, 0x3f, 0xb3, 0x37, 0x38, 0x76, 0x85, 0x11, 0xa3, 0x06, 0x17, 0xaf, 0xa0, 0x1d], rfl⟩
  else
    ⟨[0x4b, 0xf5, 0x12, 0x2f, 0x34, 0x45, 0x54, 0xc5, 0x3b, 0xde, 0x2e, 0xbb, 0x8c, 0xd2, 0xb7, 0xe3,
      0xd1, 0x60, 0x0a, 0xd6, 0x31, 0xc3, 0x85, 0xa5, 0xd7, 0xcc, 0xe2, 0x3c, 0x77, 0x85, 0x45, 0x9a], rfl⟩

def plainCrypto : Crypto :=
  ⟨sha256OfBit, fun _ => none, fun _ => .notJSON, false, fun _ => none, fun _ _ _ _ _ _ => false⟩

def byteDoc (byte : UInt8) : Submission :=
  ⟨"tx", "doc", "text/plain", 1, ⟨[[], [byte]], .eof⟩, by decide, by simp [Reader.bytes], rfl⟩

theorem appended_block_reads_back_twice : ∃ b : LiveBlock,
    (LiveBlock.new 1).appendAll sha256OfBit [byteDoc 0, byteDoc 1] = .ok b ∧
    (∃ n, verifyBlock plainCrypto (some b.blk) (some b.idx) = .ok ⟨[], n⟩) ∧
    openWriter b.blk 1 = .ok b.writer := by
  obtain ⟨b, hb, -, -, hverify, hopen⟩ :=
    appended_block_reads_back plainCrypto 1 [byteDoc 0, byteDoc 1] (by decide)
      (by
        intro d hd
        simp only [List.mem_cons, List.not_mem_nil, or_false] at hd
        rcases hd with rfl | rfl <;> exact ⟨by decide, by decide⟩)
  exact ⟨b, hb, hverify, hopen⟩

theorem verifyFrames_of_loop {c : Crypto} {f : BlkFile} {entries : List IndexEntry}
    (h : (f.frames.foldl (verifyFrame c entries) .start).corruptFrames ≠ []) :
    (verifyFrames c f entries).corruptFrames ≠ [] := by
  unfold verifyFrames
  split <;> simp [h]

theorem foldl_docBySeq_of_last (c : Crypto) (entries : List IndexEntry) (k : UInt32) :
    ∀ (fs : List Frame) (st : VerifyState), (∀ fr ∈ fs, isLastFrame fr.flags = true) →
      st.docBySeq k = [] → (fs.foldl (verifyFrame c entries) st).docBySeq k = [] := by
  intro fs
  induction fs with
  | nil => exact fun _ _ h => h
  | cons f fs ih =>
    intro st hlast hst
    refine ih _ (fun fr hfr => hlast fr (List.mem_cons_of_mem _ hfr)) ?_
    simp only [verifyFrame, hlast f List.mem_cons_self, if_true]
    by_cases hk : k = f.docSeq
    · rw [hk, Function.update_self]
    · rw [Function.update_of_ne hk, hst]

theorem encodeDocs_replicate_last (n : Nat) (p : List UInt8) (seq : UInt32) :
    ∀ fr ∈ encodeDocs seq (List.replicate n ⟨[p], by simp⟩), isLastFrame fr.flags = true := by
  induction n generalizing seq with
  | zero => exact nofun
  | succ n ih =>
    intro fr hfr
    rcases List.mem_append.mp hfr with h | h
    · rw [List.mem_singleton.mp h]
      exact isLastFrame_frameFlags 0 true
    · exact ih _ fr h

/-- Behind `n` Documents of one byte, `n` wrapping to zero, another one is held against the first
record. -/
theorem wrapped_docSeq_corrupt {n : Nat} (hn : 0 < n) (hwrap : UInt32.ofNat n = 0) :
    ∃ b r, (LiveBlock.new 1).appendAll sha256OfBit (List.replicate n (byteDoc 0) ++ [byteDoc 1]) =
        .ok b ∧
      verifyBlock plainCrypto (some b.blk) (some b.idx) = .ok r ∧ r.corruptFrames ≠ [] := by
  have hnew := LiveBlock.new_appendAll sha256OfBit 1 (List.replicate n (byteDoc 0) ++ [byteDoc 1])
  rw [List.map_append, List.map_replicate] at hnew
  generalize hes : entriesFrom sha256OfBit [] (List.replicate n (byteDoc 0) ++ [byteDoc 1]) =
    entries at hnew
  have hfirst : entries[0]? = some ((byteDoc 0).entryAt sha256OfBit (endOf [])) := by
    obtain ⟨m, rfl⟩ := Nat.exists_eq_add_one_of_ne_zero (Nat.pos_iff_ne_zero.mp hn)
    rw [← hes]
    rfl
  refine ⟨_, _, hnew, rfl, ?_⟩
  have hframes : (blkOf (List.replicate n ⟨[[0]], by simp⟩ ++ [⟨[[1]], by simp⟩])).frames =
      encodeDocs 0 (List.replicate n ⟨[[0]], by simp⟩) ++ [⟨flagSingleFrame, 0, 0, [1]⟩] := by
    rw [blkOf, encodeDocs_concat, List.length_replicate, hwrap]
    rfl
  have hcarried := foldl_docBySeq_of_last plainCrypto entries 0 _ .start
    (encodeDocs_replicate_last n [0] 0) rfl
  have hcheck : checkDocIntegrity plainCrypto entries [1] 0 = [.docSHA256] := by
    rw [checkDocIntegrity]
    simp only [UInt32.toNat_zero, hfirst]
    decide
  -- the last Frame of the file is the one with the wrapped number
  have hcorrupt : ((blkOf (List.replicate n ⟨[[0]], by simp⟩ ++ [⟨[[1]], by simp⟩])).frames.foldl
      (verifyFrame plainCrypto entries) .start).corruptFrames ≠ [] := by
    rw [hframes, List.foldl_append, List.foldl_cons]
    have hlast : isLastFrame flagSingleFrame = true := rfl
    simp only [verifyFrame, hcarried, hlast, List.nil_append, hcheck]
    simp
  exact verifyFrames_of_loop hcorrupt

/-- One Document more than `doc_seq` can count: the Block it is appended to does not verify. -/
theorem document_number_wraps : ∃ b r,
    (LiveBlock.new 1).appendAll sha256OfBit (List.replicate (2 ^ 32) (byteDoc 0) ++ [byteDoc 1]) =
      .ok b ∧
    verifyBlock plainCrypto (some b.blk) (some b.idx) = .ok r ∧ r.corruptFrames ≠ [] :=
  wrapped_docSeq_corrupt (by decide) (by decide)

end Scrap.Block
