/-
# Reading a Document from its Block

A read goes to the offset that the `.idx` entry names, reads as many Frames as it counts, in
sequence, and checks the digest of what it has read. The Block's own `doc_seq` plays no part.
-/
import Scrap.Block.Verify

namespace Scrap.Block

inductive ReadErr where
  /-- `block: open %s` -/
  | openBlk
  /-- `block: verify frame %d` -/
  | readFrame (i : UInt32)
  /-- `ErrFrameSequence: frame_seq %d want %d` -/
  | frameSequence (got want : UInt32)
  /-- `ErrSHA256Mismatch: document integrity check missing SHA-256` -/
  | missingSHA256
  /-- `ErrSHA256Mismatch: document integrity check failed` -/
  | sha256Mismatch
  /-- `key material unavailable` -/
  | cryptoUnavailable
  /-- the Frames do not decrypt -/
  | decrypt
deriving DecidableEq

/-- The Frames from an offset on, `frames` being at `pos`. Inside of a Frame no header can be read.
-/
def framesAt (off : Nat) : Nat → List Frame → List Frame
  | pos, frames =>
    if pos = off then frames
    else
      match frames with
      | [] => []
      | f :: fs => framesAt off (pos + f.size) fs

def readStoredFrames : UInt32 → Nat → List Frame → Except ReadErr (List (List UInt8))
  | _, 0, _ => .ok []
  | i, _ + 1, [] => .error (.readFrame i)
  | i, n + 1, f :: fs =>
    if f.frameSeq ≠ i then .error (.frameSequence f.frameSeq i)
    else
      match readStoredFrames (i + 1) n fs with
      | .error err => .error err
      | .ok payloads => .ok (f.payload :: payloads)

def readDocumentFrames (blk : Option BlkFile) (e : IndexEntry) :
    Except ReadErr (List (List UInt8)) :=
  match blk with
  | none => .error .openBlk
  | some f => readStoredFrames 0 e.frameCount.toNat (framesAt e.firstFrameOff headerSize f.frames)

def verifyAndSpool (c : Crypto) (blk : Option BlkFile) (e : IndexEntry) :
    Except ReadErr (List UInt8) :=
  match blk with
  | none => .error .openBlk
  | some _ =>
    if isZeroSHA256 e.sha256 then .error .missingSHA256
    else
      match readDocumentFrames blk e with
      | .error err => .error err
      | .ok payloads =>
        if c.sha256 payloads.flatten ≠ e.sha256 then .error .sha256Mismatch
        else .ok payloads.flatten

/-- The stored bytes stand for what they decrypt to. -/
def readDocumentBytes (c : Crypto) (blk : Option BlkFile) (e : IndexEntry) :
    Except ReadErr (List UInt8) :=
  if e.encryptionEnvelope = [] then verifyAndSpool c blk e
  else if !c.enabled then .error .cryptoUnavailable
  else
    match readDocumentFrames blk e with
    | .error err => .error err
    | .ok payloads =>
      if c.verifies e.transactionID e.docName e.encryptionEnvelope e.sha256 e.totalBytes
          payloads then .ok payloads.flatten
      else .error .decrypt

/-! ## Reading a truncated file -/

def BlkFile.docEnd (f : BlkFile) (e : IndexEntry) : Nat :=
  e.firstFrameOff +
    framesSize ((framesAt e.firstFrameOff headerSize f.frames).take e.frameCount.toNat)

theorem framesAt_append : ∀ (pos : Nat) (fs gs : List Frame),
    framesAt (pos + framesSize fs) pos (fs ++ gs) = gs
  | pos, [], gs => by
    unfold framesAt
    simp
  | pos, f :: fs, gs => by
    have hpos := f.size_pos
    have ih := framesAt_append (pos + f.size) fs gs
    unfold framesAt
    rw [framesSize_cons, if_neg (by omega)]
    rwa [Nat.add_assoc] at ih

theorem framesAt_spec {off : Nat} : ∀ {pos : Nat} {frames : List Frame},
    framesAt off pos frames ≠ [] →
      ∃ fs, frames = fs ++ framesAt off pos frames ∧ pos + framesSize fs = off
  | pos, [], h => by
    unfold framesAt at h
    simp at h
  | pos, f :: frames, h => by
    unfold framesAt at h ⊢
    by_cases hoff : pos = off
    · rw [if_pos hoff]
      exact ⟨[], rfl, by simpa using hoff⟩
    · rw [if_neg hoff] at h ⊢
      obtain ⟨fs, heq, hsize⟩ := framesAt_spec h
      exact ⟨f :: fs, congrArg (f :: ·) heq, by rw [framesSize_cons]; omega⟩

theorem readStoredFrames_length : ∀ {i : UInt32} {n : Nat} {frames : List Frame}
    {payloads : List (List UInt8)}, readStoredFrames i n frames = .ok payloads → n ≤ frames.length
  | _, 0, _, _, _ => Nat.zero_le _
  | _, n + 1, [], _, h => by simp [readStoredFrames] at h
  | i, n + 1, f :: fs, _, h => by
    rw [readStoredFrames] at h
    split at h
    · cases h
    · cases hrest : readStoredFrames (i + 1) n fs with
      | error err => simp [hrest] at h
      | ok payloads => simpa using readStoredFrames_length hrest

theorem readStoredFrames_append : ∀ (i : UInt32) (fs gs : List Frame),
    readStoredFrames i fs.length (fs ++ gs) = readStoredFrames i fs.length fs
  | _, [], gs => by simp [readStoredFrames]
  | i, f :: fs, gs => by
    simp only [List.length_cons, List.cons_append, readStoredFrames,
      readStoredFrames_append (i + 1) fs gs]

theorem readDocumentFrames_split {f : BlkFile} {e : IndexEntry} {payloads : List (List UInt8)}
    (hcount : 0 < e.frameCount.toNat)
    (hread : readDocumentFrames (some f) e = .ok payloads) :
    ∃ fs doc gs, f.frames = fs ++ (doc ++ gs) ∧ headerSize + framesSize fs = e.firstFrameOff ∧
      doc.length = e.frameCount.toNat ∧
      f.docEnd e = headerSize + framesSize (fs ++ doc) := by
  have hlen := readStoredFrames_length hread
  have hne : framesAt e.firstFrameOff headerSize f.frames ≠ [] :=
    List.ne_nil_of_length_pos (Nat.lt_of_lt_of_le hcount hlen)
  obtain ⟨fs, heq, hsize⟩ := framesAt_spec hne
  refine ⟨fs, (framesAt e.firstFrameOff headerSize f.frames).take e.frameCount.toNat,
    (framesAt e.firstFrameOff headerSize f.frames).drop e.frameCount.toNat, ?_, hsize, ?_, ?_⟩
  · rwa [List.take_append_drop]
  · exact List.length_take_of_le hlen
  · rw [BlkFile.docEnd, framesSize_append]
    omega

theorem docEnd_bounds {f : BlkFile} {e : IndexEntry} {payloads : List (List UInt8)}
    (hcount : 0 < e.frameCount.toNat) (hread : readDocumentFrames (some f) e = .ok payloads) :
    headerSize < f.docEnd e ∧ f.docEnd e ≤ f.size := by
  obtain ⟨fs, doc, gs, hframes, -, hlen, hend⟩ := readDocumentFrames_split hcount hread
  cases doc with
  | nil => simp at hlen; omega
  | cons g doc =>
    have hpos := g.size_pos
    rw [hend, BlkFile.size, hframes]
    simp only [framesSize_append, framesSize_cons]
    omega

theorem readDocumentFrames_append {fs doc : List Frame} (gs : List Frame) (torn : Nat)
    {e : IndexEntry} (hoff : headerSize + framesSize fs = e.firstFrameOff)
    (hlen : doc.length = e.frameCount.toNat) :
    readDocumentFrames (some ⟨fs ++ (doc ++ gs), torn⟩) e = readStoredFrames 0 doc.length doc ∧
      BlkFile.docEnd ⟨fs ++ (doc ++ gs), torn⟩ e = headerSize + framesSize (fs ++ doc) := by
  unfold readDocumentFrames BlkFile.docEnd
  simp only [← hoff, framesAt_append, ← hlen, List.take_left', readStoredFrames_append,
    framesSize_append, true_and]
  omega

theorem cutFrames_of_le : ∀ (fs gs : List Frame) {n : Nat}, framesSize fs ≤ n →
    ∃ gs', (cutFrames (fs ++ gs) n).1 = fs ++ gs'
  | [], gs, n, _ => ⟨_, rfl⟩
  | f :: fs, gs, n, h => by
    rw [framesSize_cons] at h
    obtain ⟨gs', heq⟩ := cutFrames_of_le fs gs (n := n - f.size) (by omega)
    refine ⟨gs', ?_⟩
    rw [List.cons_append, cutFrames, if_pos (by omega)]
    simp [heq]

theorem readDocumentFrames_truncate {f : BlkFile} {e : IndexEntry}
    {payloads : List (List UInt8)} {offset : Nat} (hcount : 0 < e.frameCount.toNat)
    (hread : readDocumentFrames (some f) e = .ok payloads) (hend : f.docEnd e ≤ offset) :
    readDocumentFrames (some (f.truncate offset)) e = .ok payloads ∧
      (f.truncate offset).docEnd e = f.docEnd e := by
  obtain ⟨frames, torn⟩ := f
  obtain ⟨fs, doc, gs, hframes, hoff, hlen, hdoc⟩ := readDocumentFrames_split hcount hread
  subst hframes
  obtain ⟨gs', hcut⟩ := cutFrames_of_le (fs ++ doc) gs (n := offset - headerSize) (by omega)
  have htruncate : BlkFile.truncate ⟨fs ++ (doc ++ gs), torn⟩ offset =
      ⟨fs ++ (doc ++ gs'), (cutFrames (fs ++ (doc ++ gs)) (offset - headerSize)).2⟩ := by
    rw [List.append_assoc, List.append_assoc] at hcut
    rw [BlkFile.truncate, ← hcut]
  obtain ⟨hbefore, -⟩ := readDocumentFrames_append gs torn hoff hlen
  obtain ⟨hafter, hend'⟩ := readDocumentFrames_append gs'
    (cutFrames (fs ++ (doc ++ gs)) (offset - headerSize)).2 hoff hlen
  rw [htruncate, hdoc]
  exact ⟨hafter.trans (hbefore.symm.trans hread), hend'⟩

/-! ## The Document at an offset -/

/-- A complete Document starts at the offset, and these are its Frames. -/
def BlkFile.DocumentAt (f : BlkFile) (off : Nat) (doc : List Frame) : Prop :=
  (∃ seq ps, ps ≠ [] ∧ doc = docFrames seq 0 ps) ∧ doc <+: framesAt off headerSize f.frames

namespace BlkFile.DocumentAt

variable {f f' : BlkFile} {off : Nat} {doc : List Frame}

theorem of_frames (h : f.DocumentAt off doc) (hframes : f'.frames = f.frames) :
    f'.DocumentAt off doc := ⟨h.1, hframes ▸ h.2⟩

theorem split (h : f.DocumentAt off doc) :
    ∃ fs gs, f.frames = fs ++ (doc ++ gs) ∧ headerSize + framesSize fs = off := by
  obtain ⟨⟨seq, ps, hps, rfl⟩, gs, hgs⟩ := h
  have hne : framesAt off headerSize f.frames ≠ [] := by
    rw [← hgs]
    exact List.append_ne_nil_of_left_ne_nil (docFrames_ne_nil seq 0 hps) gs
  obtain ⟨fs, hframes, hoff⟩ := framesAt_spec hne
  exact ⟨fs, gs, by rw [hgs]; exact hframes, hoff⟩

theorem of_split (hdoc : ∃ seq ps, ps ≠ [] ∧ doc = docFrames seq 0 ps) {fs gs : List Frame}
    (hframes : f.frames = fs ++ (doc ++ gs)) (hoff : headerSize + framesSize fs = off) :
    f.DocumentAt off doc := by
  refine ⟨hdoc, ?_⟩
  rw [hframes, ← hoff, framesAt_append]
  exact List.prefix_append doc gs

theorem end_le (h : f.DocumentAt off doc) :
    off + framesSize doc ≤ headerSize + framesSize f.frames := by
  obtain ⟨fs, gs, hframes, rfl⟩ := h.split
  rw [hframes, framesSize_append, framesSize_append]
  omega

theorem append (h : f.DocumentAt off doc) {gs : List Frame} (hframes : f'.frames = f.frames ++ gs) :
    f'.DocumentAt off doc := by
  obtain ⟨fs, rest, hf, hoff⟩ := h.split
  exact of_split h.1 (by rw [hframes, hf, List.append_assoc, List.append_assoc]) hoff

theorem truncate (h : f.DocumentAt off doc) {cut : Nat} (hend : off + framesSize doc ≤ cut) :
    (f.truncate cut).DocumentAt off doc := by
  obtain ⟨fs, gs, hframes, hoff⟩ := h.split
  rw [← List.append_assoc] at hframes
  obtain ⟨gs', hcut⟩ := cutFrames_of_le (fs ++ doc) gs (n := cut - headerSize)
    (by rw [framesSize_append]; omega)
  have hkept : (f.truncate cut).frames = fs ++ (doc ++ gs') := by
    rw [← List.append_assoc, ← hcut, ← hframes]
    rfl
  exact of_split h.1 hkept hoff

end BlkFile.DocumentAt

end Scrap.Block
