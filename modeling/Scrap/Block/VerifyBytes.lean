/-
# `VerifyBlock` on the bytes of a Block

The verifier collects the payloads of the file by `doc_seq` and compares each Document with the
entry of its number. A read goes the other way, from the entry's `FirstFrameOff` on. A clean
result says nothing about where an entry points, how its Frames are numbered or how many bytes it
announces.
-/
import Scrap.Block.ReadBytes

namespace Scrap.Block.Disk

open Bytes Buffered Records

/-! ## The verifier -/

/-- The bytes of a text; the verifier does not look at the names. -/
def textOf (bs : List UInt8) : String := (String.fromUTF8? bs.toByteArray).getD ""

def Record.entry (r : Record) : IndexEntry :=
  ⟨textOf r.transactionID, textOf r.docName, textOf r.contentType, r.createdAtUs.toInt,
    r.firstFrameOff.toInt.toNat, r.frameCount, r.totalBytes.toInt, r.sha256, r.encryptionEnvelope⟩

inductive VerifyErr where
  /-- `verify load idx: %w` -/
  | loadIdx (err : IdxFileErr)
  /-- the index cannot be opened -/
  | openIdx
  /-- `verify open: %w` -/
  | openBlk
deriving DecidableEq

section Verify

variable (crc32c : List UInt8 → UInt32) (c : Crypto)

/-- `readHeaderStructure`: the header is corrupt. -/
def verifyHeaderStructure (bs : List UInt8) : Bool :=
  match takeFull headerSize bs with
  | .error _ => true
  | .ok (hdr, _) =>
    if slice hdr 0 4 ≠ blockMagic then true
    else (crc32c (slice hdr 0 36)).toNat ≠ leNat (slice hdr 36 40)

/-- The Frames behind the header, up to one that the verifier cannot read. -/
def blockFrames (bs : List UInt8) : List Frame :=
  ((rawFrameReader crc32c).walk (bs.drop headerSize)).records

/-- `verifyFrames` -/
def verifyBlockFrames (bs : List UInt8) (entries : List IndexEntry) : VerifyResult :=
  let st := (blockFrames crc32c bs).foldl (verifyFrame c entries) .start
  if ((rawFrameReader crc32c).walk (bs.drop headerSize)).stop = .eof then
    ⟨st.corruptFrames ++ recordMissingIndexedFrames st 0 entries, st.framesVerified⟩
  else ⟨st.corruptFrames ++ [⟨st.offset, .frameCRC⟩], st.framesVerified⟩

def verifyBlock (blk idx : Option (List UInt8)) : Except VerifyErr VerifyResult :=
  match idx with
  | none => .error .openIdx
  | some ib =>
    match openIndexReader crc32c ib with
    | .error err => .error (.loadIdx err)
    | .ok entries =>
      match blk with
      | none => .error .openBlk
      | some bs =>
        let result := verifyBlockFrames crc32c c bs (entries.map Record.entry)
        .ok (if verifyHeaderStructure crc32c bs then
            { result with corruptFrames := ⟨0, .header⟩ :: result.corruptFrames }
          else result)

end Verify

/-! ## What a clean result says -/

/-- The contents of the complete Documents with this number, in the order of the file; `acc` is the
one begun. -/
def documents (seq : UInt32) : List UInt8 → List Frame → List (List UInt8)
  | _, [] => []
  | acc, f :: fs =>
    if f.docSeq ≠ seq then documents seq acc fs
    else if isLastFrame f.flags then (acc ++ f.payload) :: documents seq [] fs
    else documents seq (acc ++ f.payload) fs

section Clean

variable (c : Crypto) (entries : List IndexEntry) (seq : UInt32)

/-- One turn of the loop: the Document of this number goes on, or is complete and is checked. -/
theorem verifyFrame_documents (f : Frame) (fs : List Frame) (st : VerifyState) :
    ∃ done, documents seq (st.docBySeq seq) (f :: fs) =
        done ++ documents seq ((verifyFrame c entries st f).docBySeq seq) fs ∧
      ((verifyFrame c entries st f).corruptFrames = [] →
        st.corruptFrames = [] ∧ ∀ p ∈ done, checkDocIntegrity c entries p seq = []) ∧
      ((verifyFrame c entries st f).completedDocSeq seq = true ↔
        st.completedDocSeq seq = true ∨ done ≠ []) := by
  by_cases hseq : f.docSeq = seq
  · subst hseq
    by_cases hlast : isLastFrame f.flags = true
    · refine ⟨[st.docBySeq f.docSeq ++ f.payload], ?_, fun hclean => ?_, ?_⟩
      · simp [documents, verifyFrame, hlast]
      · simp only [verifyFrame, hlast] at hclean
        simpa using hclean
      · simp [verifyFrame, hlast]
    · refine ⟨[], ?_, fun hclean => ?_, ?_⟩
      · simp [documents, verifyFrame, hlast]
      · simpa [verifyFrame, hlast] using hclean
      · simp [verifyFrame, hlast]
  · have hseq' : seq ≠ f.docSeq := fun h => hseq h.symm
    refine ⟨[], ?_, fun hclean => ?_, ?_⟩
    · simp [documents, verifyFrame, hseq, hseq']
    · simp only [verifyFrame, List.append_eq_nil_iff] at hclean
      exact ⟨hclean.1, fun p hp => absurd hp List.not_mem_nil⟩
    · by_cases hlast : isLastFrame f.flags = true <;>
        simp [verifyFrame, hlast, hseq']

/-- The whole loop: every complete Document was checked, and its number is marked. -/
theorem foldl_documents : ∀ (fs : List Frame) (st : VerifyState),
    ((fs.foldl (verifyFrame c entries) st).corruptFrames = [] → st.corruptFrames = [] ∧
        ∀ p ∈ documents seq (st.docBySeq seq) fs, checkDocIntegrity c entries p seq = []) ∧
    ((fs.foldl (verifyFrame c entries) st).completedDocSeq seq = true ↔
      st.completedDocSeq seq = true ∨ documents seq (st.docBySeq seq) fs ≠ [])
  | [], st => by simp [documents]
  | f :: fs, st => by
    obtain ⟨done, hdocs, hclean, hmark⟩ := verifyFrame_documents c entries seq f fs st
    obtain ⟨ihclean, ihmark⟩ := foldl_documents fs (verifyFrame c entries st f)
    rw [List.foldl_cons, hdocs]
    refine ⟨fun h => ?_, ?_⟩
    · obtain ⟨hstep, hrest⟩ := ihclean h
      obtain ⟨hstart, hdone⟩ := hclean hstep
      exact ⟨hstart, List.forall_mem_append.mpr ⟨hdone, hrest⟩⟩
    · rw [ihmark, hmark, or_assoc, ne_eq, ne_eq, ne_eq, List.append_eq_nil_iff, not_and_or]

end Clean

theorem recordMissing_nil {st : VerifyState} : ∀ {entries : List IndexEntry} {k : Nat},
    recordMissingIndexedFrames st k entries = [] →
    ∀ {i : Nat} {e : IndexEntry}, entries[i]? = some e → st.missing (k + i) e = false
  | [], _, _, i, e, he => by simp at he
  | e' :: entries, k, h, i, e, he => by
    rw [recordMissingIndexedFrames, List.append_eq_nil_iff] at h
    cases i with
    | zero =>
      obtain rfl : e' = e := by simpa using he
      simpa using h.1
    | succ i =>
      have hrest := recordMissing_nil h.2 (by simpa using he)
      rwa [show k + 1 + i = k + (i + 1) by omega] at hrest

section Result

variable {crc32c : List UInt8 → UInt32} {c : Crypto} {blk idx : List UInt8} {rs : List Record}
  {res : VerifyResult}

/-- A clean result: each number of an entry has a complete Document, and each of these passed. -/
theorem verifyBlock_clean (hidx : openIndexReader crc32c idx = .ok rs)
    (hverify : verifyBlock crc32c c (some blk) (some idx) = .ok res) (hclean : res.corruptFrames = [])
    {i : Nat} {e : Record} (he : rs[i]? = some e) :
    documents (UInt32.ofNat i) [] (blockFrames crc32c blk) ≠ [] ∧
      ∀ seq, ∀ p ∈ documents seq [] (blockFrames crc32c blk),
        checkDocIntegrity c (rs.map Record.entry) p seq = [] := by
  simp only [verifyBlock, hidx, Except.ok.injEq] at hverify
  have hframes : (verifyBlockFrames crc32c c blk (rs.map Record.entry)).corruptFrames = [] := by
    rw [← hverify] at hclean
    split_ifs at hclean
    exact hclean
  unfold verifyBlockFrames at hframes
  split_ifs at hframes with heof
  · obtain ⟨hloop, hmissing⟩ := List.append_eq_nil_iff.mp hframes
    have hentry : (rs.map Record.entry)[i]? = some e.entry := by rw [List.getElem?_map, he]; rfl
    have hthere := recordMissing_nil hmissing hentry
    refine ⟨?_, fun seq => ((foldl_documents c _ seq _ .start).1 hloop).2⟩
    have hmark : ((blockFrames crc32c blk).foldl (verifyFrame c (rs.map Record.entry))
        .start).completedDocSeq (UInt32.ofNat i) = true := by
      simp only [VerifyState.missing, decide_eq_false_iff_not, not_or] at hthere
      simpa using hthere.2.2
    rcases (foldl_documents c _ (UInt32.ofNat i) _ .start).2.mp hmark with hstart | hdocs
    · simp [VerifyState.start] at hstart
    · exact hdocs
  · simp at hframes

theorem verifyBlock_digest (hidx : openIndexReader crc32c idx = .ok rs)
    (hverify : verifyBlock crc32c c (some blk) (some idx) = .ok res) (hclean : res.corruptFrames = [])
    {i : Nat} {e : Record} (he : rs[i]? = some e) (hplain : e.encryptionEnvelope = [])
    (hi : i < 2 ^ 32) :
    isZeroSHA256 e.sha256 = false ∧ ∃ p ∈ documents (UInt32.ofNat i) [] (blockFrames crc32c blk),
      (∀ q ∈ documents (UInt32.ofNat i) [] (blockFrames crc32c blk), c.sha256 q = e.sha256) ∧
        c.sha256 p = e.sha256 := by
  obtain ⟨hdocs, hchecks⟩ := verifyBlock_clean hidx hverify hclean he
  have hchecked : ∀ q ∈ documents (UInt32.ofNat i) [] (blockFrames crc32c blk),
      isZeroSHA256 e.sha256 = false ∧ c.sha256 q = e.sha256 := by
    intro q hq
    have hcheck := hchecks _ q hq
    have hget : (rs.map Record.entry)[(UInt32.ofNat i).toNat]? = some e.entry := by
      rw [UInt32.toNat_ofNat_of_lt' hi, List.getElem?_map, he]
      rfl
    have hentry : e.entry.encryptionEnvelope = [] := hplain
    simp only [checkDocIntegrity, hget, checkDocEntry, hentry, checkDocSHA] at hcheck
    by_cases hzero : isZeroSHA256 e.entry.sha256 = true
    · simp [hzero] at hcheck
    · by_cases hsha : c.sha256 q = e.entry.sha256
      · exact ⟨Bool.eq_false_iff.mpr hzero, hsha⟩
      · simp [hsha] at hcheck
  obtain ⟨p, hp⟩ := List.exists_mem_of_ne_nil _ hdocs
  exact ⟨(hchecked p hp).1, p, hp, fun q hq => (hchecked q hq).2, (hchecked p hp).2⟩

end Result

/-! ## What it does not say -/

/-- The entry describes Frames of the file: from `FirstFrameOff` on, `FrameCount` many, numbered
from zero, with `TotalBytes` bytes that can be allocated and the digest of the Document with the
entry's number (of the entry itself, where the verifier has none for it). -/
def Describes (crc32c : List UInt8 → UInt32) (sha256 : List UInt8 → Digest) (maxAlloc : Nat)
    (blk : List UInt8) (i : Nat) (e : Record) : Prop :=
  ¬ e.firstFrameOff < 0 ∧ CanAllocate maxAlloc e.totalBytes ∧
    ∃ fs, fs.length = e.frameCount.toNat ∧ FramesAt crc32c fs (seekTo blk e.firstFrameOff) ∧
      Numbered 0 fs ∧ ((fs.map (·.payload)).flatten.length : Int) = e.totalBytes.toInt ∧
      if i < 2 ^ 32 then
        ∃ p ∈ documents (UInt32.ofNat i) [] (blockFrames crc32c blk),
          sha256 (fs.map (·.payload)).flatten = sha256 p
      else isZeroSHA256 e.sha256 = false ∧ sha256 (fs.map (·.payload)).flatten = e.sha256

/-- A Block that verifies clean gives every plaintext Document back, with its digest and size,
exactly when each plaintext entry describes Frames of the file. -/
theorem verified_block_reads (crc32c : List UInt8 → UInt32) (c : Crypto) (maxAlloc : Nat)
    (blk idx : List UInt8) (rs : List Record) (res : VerifyResult)
    (hidx : openIndexReader crc32c idx = .ok rs)
    (hverify : verifyBlock crc32c c (some blk) (some idx) = .ok res)
    (hclean : res.corruptFrames = []) :
    (∀ (i : Nat) (e : Record), rs[i]? = some e → e.encryptionEnvelope = [] →
      ∃ b, readDocument crc32c c.sha256 maxAlloc (some blk) e = .content b ∧
        c.sha256 b = e.sha256 ∧ (b.length : Int) = e.totalBytes.toInt) ↔
      ∀ (i : Nat) (e : Record), rs[i]? = some e → e.encryptionEnvelope = [] →
        Describes crc32c c.sha256 maxAlloc blk i e := by
  refine forall_congr' fun i => forall_congr' fun e => forall_congr' fun he =>
    forall_congr' fun hplain => ?_
  have hdigest := verifyBlock_digest hidx hverify hclean he hplain
  rw [readDocument_plaintext hplain]
  constructor
  · rintro ⟨b, hread, hsha, hlen⟩
    obtain ⟨bs, ps, hblk, hoff, hzero, halloc, hframes, hsha, rfl⟩ := verifyAndSpool_content.mp hread
    cases hblk
    obtain ⟨fs, hcount, hat, hnum, rfl⟩ := storedFrames_ok.mp hframes
    refine ⟨hoff, halloc, fs, hcount, hat, hnum, hlen, ?_⟩
    split_ifs with hi
    · obtain ⟨-, p, hp, -, hpsha⟩ := hdigest hi
      exact ⟨p, hp, hsha.trans hpsha.symm⟩
    · exact ⟨hzero, hsha⟩
  · rintro ⟨hoff, halloc, fs, hcount, hat, hnum, hlen, hcontent⟩
    have hsha : isZeroSHA256 e.sha256 = false ∧
        c.sha256 (fs.map (·.payload)).flatten = e.sha256 := by
      split_ifs at hcontent with hi
      · obtain ⟨hzero, -, -, hall, -⟩ := hdigest hi
        obtain ⟨p, hp, hsame⟩ := hcontent
        exact ⟨hzero, hsame.trans (hall p hp)⟩
      · exact hcontent
    refine ⟨(fs.map (·.payload)).flatten, verifyAndSpool_content.mpr ⟨blk, fs.map (·.payload), rfl,
      hoff, hsha.1, halloc, storedFrames_ok.mpr ⟨fs, hcount, hat, hnum, rfl⟩, hsha.2, rfl⟩, hsha.2, hlen⟩

/-! ## Blocks of Documents of one byte -/

def entryAt (off : Int64) : Record := { oneByteEntry 1 with firstFrameOff := off }

def entryIndex (crc32c : List UInt8 → UInt32) (offs : List Int64) : List UInt8 :=
  newIndexBytes crc32c ++ encodeRecords crc32c (offs.map entryAt)

theorem openIndexReader_entryIndex (crc32c : List UInt8 → UInt32) (offs : List Int64) :
    openIndexReader crc32c (entryIndex crc32c offs) = .ok (offs.map entryAt) := by
  refine (openIndexReader_encodeRecords (validHeader_newIndexBytes crc32c) ?_).mpr ?_
  · refine List.forall_mem_map.mpr fun off _ => Record.fieldsFit_iff.mpr ?_
    simp [entryAt, oneByteEntry, maxUint16]
  · refine List.forall_mem_map.mpr fun off _ => ?_
    rw [Record.Readable, length_encodeIndexEntry]
    simp [entryAt, oneByteEntry, idxMaxEntryLen]

theorem rawWalk_blkBytes (crc32c : List UInt8 → UInt32) {ds : List Payloads}
    (hlimit : WithinLimit (encodeDocs 0 ds)) :
    (rawFrameReader crc32c).walk ((blkBytes crc32c 2 1 0 ds).drop headerSize) =
      ⟨encodeDocs 0 ds, .eof, []⟩ := by
  have hwalk := rawWalk_encodeFrames crc32c hlimit []
  rw [List.append_nil, rawWalk_nil] at hwalk
  rw [blkBytes, ← length_encodeHeader crc32c 2 1 0, List.drop_left, hwalk, List.append_nil]

theorem verifyHeaderStructure_encodeHeader (crc32c : List UInt8 → UInt32)
    (shardID blockID createdAtUs : UInt64) (rest : List UInt8) :
    verifyHeaderStructure crc32c (encodeHeader crc32c shardID blockID createdAtUs ++ rest) = false := by
  have hmagic : slice (encodeHeader crc32c shardID blockID createdAtUs) 0 4 = blockMagic := rfl
  have hcrc : slice (encodeHeader crc32c shardID blockID createdAtUs) 36 40 =
      leBytes 4 (crc32c (blockHead shardID blockID createdAtUs)).toNat := rfl
  have hhead : slice (encodeHeader crc32c shardID blockID createdAtUs) 0 36 =
      blockHead shardID blockID createdAtUs := rfl
  rw [verifyHeaderStructure, takeFull_append (length_encodeHeader crc32c shardID blockID createdAtUs)]
  simp [hmagic, hcrc, hhead]

theorem verifyBlock_blkBytes (crc32c : List UInt8 → UInt32) {ds : List Payloads} {offs : List Int64}
    {st : VerifyState} (hlimit : WithinLimit (encodeDocs 0 ds))
    (hst : (encodeDocs 0 ds).foldl (verifyFrame plainCrypto ((offs.map entryAt).map Record.entry))
      .start = st) :
    verifyBlock crc32c plainCrypto (some (blkBytes crc32c 2 1 0 ds)) (some (entryIndex crc32c offs)) =
      .ok ⟨st.corruptFrames ++ recordMissingIndexedFrames st 0 ((offs.map entryAt).map Record.entry),
        st.framesVerified⟩ := by
  have hheader := verifyHeaderStructure_encodeHeader crc32c 2 1 0
    (encodeFrames crc32c (encodeDocs 0 ds))
  rw [← blkBytes] at hheader
  simp only [verifyBlock, openIndexReader_entryIndex, verifyBlockFrames, blockFrames,
    rawWalk_blkBytes crc32c hlimit, hst, hheader, if_true, Bool.false_eq_true, if_false]

def twoDocs : List Payloads := [oneFrameDoc, oneFrameDoc]

theorem twoDocs_limit : WithinLimit (encodeDocs 0 twoDocs) := by
  unfold WithinLimit
  decide

theorem describes_twoDocs (crc32c : List UInt8 → UInt32) (i : Nat) (e : Record)
    (he : [entryAt 40, entryAt 73][i]? = some e) :
    Describes crc32c sha256OfBit (2 ^ 48) (blkBytes crc32c 2 1 0 twoDocs) i e := by
  have hfirst : seekTo (blkBytes crc32c 2 1 0 twoDocs) (entryAt 40).firstFrameOff =
      encodeFrame crc32c ⟨flagSingleFrame, 0, 0, [1]⟩ ++
        encodeFrame crc32c ⟨flagSingleFrame, 1, 0, [1]⟩ := rfl
  have hsecond : seekTo (blkBytes crc32c 2 1 0 twoDocs) (entryAt 73).firstFrameOff =
      encodeFrame crc32c ⟨flagSingleFrame, 1, 0, [1]⟩ ++ [] := rfl
  match i with
  | 0 =>
    cases he
    refine ⟨by decide, by decide, [⟨flagSingleFrame, 0, 0, [1]⟩], by decide, ?_, ⟨rfl, trivial⟩,
      by decide, ?_⟩
    · rw [hfirst]
      exact ⟨_, _, rfl, encodes_encodeFrame crc32c _ (by decide), trivial⟩
    · rw [blockFrames, rawWalk_blkBytes crc32c twoDocs_limit]
      exact ⟨[1], by decide, rfl⟩
  | 1 =>
    cases he
    refine ⟨by decide, by decide, [⟨flagSingleFrame, 1, 0, [1]⟩], by decide, ?_, ⟨rfl, trivial⟩,
      by decide, ?_⟩
    · rw [hsecond]
      exact ⟨_, _, rfl, encodes_encodeFrame crc32c _ (by decide), trivial⟩
    · rw [blockFrames, rawWalk_blkBytes crc32c twoDocs_limit]
      exact ⟨[1], by decide, rfl⟩

theorem verified_block_reads_two :
    openIndexReader castagnoli (entryIndex castagnoli [40, 73]) = .ok [entryAt 40, entryAt 73] ∧
      verifyBlock castagnoli plainCrypto (some (blkBytes castagnoli 2 1 0 twoDocs))
        (some (entryIndex castagnoli [40, 73])) = .ok ⟨[], 2⟩ ∧
      ∀ off ∈ [(40 : Int64), 73], ∃ b, readDocument castagnoli plainCrypto.sha256 (2 ^ 48)
          (some (blkBytes castagnoli 2 1 0 twoDocs)) (entryAt off) = .content b ∧
        plainCrypto.sha256 b = (entryAt off).sha256 ∧
        (b.length : Int) = (entryAt off).totalBytes.toInt := by
  have hidx := openIndexReader_entryIndex castagnoli [40, 73]
  have hverify : verifyBlock castagnoli plainCrypto (some (blkBytes castagnoli 2 1 0 twoDocs))
      (some (entryIndex castagnoli [40, 73])) = .ok ⟨[], 2⟩ :=
    verifyBlock_blkBytes castagnoli twoDocs_limit rfl
  have hall := (verified_block_reads castagnoli plainCrypto (2 ^ 48) _ _ _ _ hidx hverify rfl).mpr
    fun i e he _ => describes_twoDocs castagnoli i e he
  refine ⟨hidx, hverify, fun off hoff => ?_⟩
  rcases List.mem_pair.mp hoff with rfl | rfl
  · exact hall 0 (entryAt 40) rfl rfl
  · exact hall 1 (entryAt 73) rfl rfl

/-- An entry that points to the end of the file: the Block verifies clean, the Document cannot be
read. -/
theorem misplaced_entry_verifies :
    openIndexReader castagnoli (entryIndex castagnoli [73]) = .ok [entryAt 73] ∧
      verifyBlock castagnoli plainCrypto (some (blkBytes castagnoli 2 1 0 [oneFrameDoc]))
        (some (entryIndex castagnoli [73])) = .ok ⟨[], 1⟩ ∧
      (entryAt 73).encryptionEnvelope = [] ∧
      readDocument castagnoli plainCrypto.sha256 (2 ^ 48)
        (some (blkBytes castagnoli 2 1 0 [oneFrameDoc])) (entryAt 73) =
          .failed (.frame (.frame 0 .eof)) := by
  have hseek : seekTo (blkBytes castagnoli 2 1 0 [oneFrameDoc]) (entryAt 73).firstFrameOff = [] := by
    have hoff : (entryAt 73).firstFrameOff.toInt.toNat = endOf [oneFrameDoc] := by decide
    rw [seekTo, hoff, ← length_blkBytes castagnoli 2 1 0, List.drop_length]
  have hend : readFrame castagnoli [] = .error .eof :=
    readFrameWith_nil castagnoli truncatedOr truncatedOr
  have hcount : (entryAt 73).frameCount.toNat = 1 := rfl
  have hframes : storedFrames castagnoli (entryAt 73).frameCount.toNat 0
      (seekTo (blkBytes castagnoli 2 1 0 [oneFrameDoc]) (entryAt 73).firstFrameOff) =
        ([], some (.frame 0 .eof)) := by
    rw [hseek, hcount, storedFrames, hend]
  refine ⟨openIndexReader_entryIndex castagnoli [73],
    verifyBlock_blkBytes castagnoli (by unfold WithinLimit; decide) rfl, rfl, ?_⟩
  rw [readDocument_plaintext rfl, verifyAndSpool]
  simp only [hframes]
  rw [if_neg (by decide), if_neg (by decide), if_neg (by decide)]

end Scrap.Block.Disk
