/-
# What a client reads of an encrypted Document

    DocumentEncryptor -> Frames of the .blk -> StoredFrameSource -> DocumentDecryptor.Reader

`encrypted_roundtrip` is about the Frames as the encryptor made them, `altered_frames_never_served`
about a `.blk` that may hold anything. What carries that is the AEAD, which opens a Frame only
under its own number, and the length in the envelope.
-/
import Scrap.Block.ReadBytes
import Scrap.Encryption.Reader
import Scrap.Shard.ReplicatedAppend

namespace Scrap.Block.Disk

open Encryption

/-! ## The Frames of a Block file as a source -/

def StoredErr.isEOF : StoredErr → Bool
  | .frame _ .eof => true
  | .frame _ _ => false
  | .sequence _ _ => false

inductive SourceErr where
  /-- `block: open header: %w` -/
  | openBlk
  | header (err : HeaderErr)
  /-- `block: seek for frame read: %w` -/
  | seek
deriving DecidableEq

section Source

variable (crc32c : List UInt8 → UInt32)

def storedFrameSource (bs : List UInt8) (e : Record) : Encryption.FrameSource StoredErr :=
  let (frames, err) := storedFrames crc32c e.frameCount.toNat 0 (seekTo bs e.firstFrameOff)
  ⟨frames, err.filter (!·.isEOF)⟩

/-- `blk` is `none` if the file cannot be opened. -/
def openDocumentFrameSource (blk : Option (List UInt8)) (shardID blockID : UInt64) (e : Record) :
    Except SourceErr (Encryption.FrameSource StoredErr) :=
  match blk with
  | none => .error .openBlk
  | some bs =>
    match verifyHeader crc32c bs shardID blockID with
    | .error err => .error (.header err)
    | .ok () => if e.firstFrameOff < 0 then .error .seek else .ok (storedFrameSource crc32c bs e)

variable {crc32c}

theorem length_storedFrames_le : ∀ (n i : Nat) (bs : List UInt8),
    (storedFrames crc32c n i bs).1.length ≤ n
  | 0, _, _ => Nat.le_refl 0
  | n + 1, i, bs => by
    rw [storedFrames]
    cases readFrame crc32c bs with
    | error err => exact Nat.zero_le _
    | ok x => ?_
    simp only
    split_ifs
    · exact Nat.zero_le _
    · exact Nat.succ_le_succ (length_storedFrames_le n (i + 1) x.2)

theorem openDocumentFrameSource_length {blk : Option (List UInt8)} {shardID blockID : UInt64}
    {e : Record} {source : Encryption.FrameSource StoredErr}
    (h : openDocumentFrameSource crc32c blk shardID blockID e = .ok source) :
    source.frames.length < UInt32.size := by
  unfold openDocumentFrameSource at h
  cases blk with
  | none => simp at h
  | some bs => ?_
  cases hheader : verifyHeader crc32c bs shardID blockID with
  | error err => simp [hheader] at h
  | ok u => ?_
  simp only [hheader] at h
  split_ifs at h
  rw [← Except.ok.inj h]
  exact Nat.lt_of_le_of_lt (length_storedFrames_le _ _ _) e.frameCount.toNat_lt

end Source

end Scrap.Block.Disk

namespace Scrap

open Block Block.Disk Buffered Encryption

/-! ## Sizes -/

section Sizes

variable {S : Suite} (hS : S.Lawful) {cfg : EncryptorConfig}
  (hkey : cfg.key.plaintext.length = aes256KeySize)

include hS hkey

theorem length_flatten_sealFrames : ∀ (ps : List (List UInt8)) (seq : UInt32),
    (sealFrames S cfg seq ps).flatten.length = ps.flatten.length + ps.length * aesGCMTagSize
  | [], _ => by simp [sealFrames]
  | p :: ps, seq => by
    rw [sealFrames, List.flatten_cons, List.length_append, length_sealFrame hS hkey,
      length_flatten_sealFrames ps, List.flatten_cons, List.length_append, List.length_cons,
      Nat.succ_mul]
    omega

theorem length_encrypted (bs : List UInt8) (seq : UInt32) :
    (sealFrames S cfg seq (pieces plainFrameSize bs)).flatten.length =
      maxCiphertextSize bs.length := by
  rw [length_flatten_sealFrames hS hkey, flatten_pieces plainFrameSize_pos,
    length_pieces plainFrameSize_pos, maxCiphertextSize]

end Sizes

/-! ## Frames as they were made -/

def sampleEncryptor (r : Reader UInt8) : DocumentEncryptor :=
  ⟨r, [], none, false, false, none, 0, [], 0, 0⟩

theorem finalize_sample {S : Suite} {r : Reader UInt8} (hne : r.bytes ≠ [])
    (heof : r.ending.isEOF = true) {fs : List (List UInt8)} {e' : DocumentEncryptor}
    (hrun : (sampleEncryptor r).frames S sampleConfig = (fs, none, e')) :
    e'.finalize S sampleConfig =
      some (S.sha256 e'.hashed, (e'.plaintextSize : Int), S.marshal (e'.envelope S sampleConfig)) := by
  have hnew : newDocumentEncryptor sampleConfig r = some (sampleEncryptor r) := rfl
  obtain ⟨-, hat, -⟩ := newDocumentEncryptor_at hnew
  obtain ⟨e₁, hframes, hdone, -⟩ := hat.frames_eq S sampleConfig _ rfl heof hne
  rw [hrun] at hframes
  obtain rfl : e' = e₁ := congrArg (·.2.2) hframes
  exact DocumentEncryptor.finalize_of_done hdone (by decide) (by decide) rfl

/-- The reader over an encryptor's Frames delivers the body in buffers of any sizes, then `io.EOF`;
all Frames but the last are full, the ciphertext is as long as replication budgets for, and there
are no more Frames than a follower takes. -/
theorem encrypted_roundtrip {S : Suite} (hS : S.Lawful) {cfg : EncryptorConfig}
    (hunwrap : S.unwrapDataKey cfg.key.wrappedKey (documentKeyContext cfg.identity) cfg.mount
      cfg.keyName = some cfg.key.plaintext)
    {r : Reader UInt8} (hne : r.bytes ≠ []) (heof : r.ending.isEOF = true) {e : DocumentEncryptor}
    (hnew : newDocumentEncryptor cfg r = some e) :
    ∃ fs e', e.frames S cfg = (fs, none, e') ∧ (∀ f ∈ fs.dropLast, f.length = 65536) ∧
      fs.flatten.length = maxCiphertextSize r.bytes.length ∧
      (r.bytes.length ≤ maxDocumentBytes → fs.length ≤ maxReplicatedFrameCount) ∧
      ∀ sha size envelope, e'.finalize S cfg = some (sha, size, envelope) →
        ∃ d, newDocumentDecryptor S cfg.identity envelope sha size = .ok d ∧
          ∀ (ε : Type) (ns : List Nat) (out : List UInt8) (r' : DocumentDecryptReader ε),
            (DocumentDecryptReader.new (newSliceFrameSource ε fs)).reads S d ns = (out, r') →
            out <+: r.bytes ∧ (r'.err = none ∨ r'.err = some .eof ∧ out = r.bytes) ∧
            (r.bytes.length < ns.countP (0 < ·) → r'.err = some .eof) := by
  obtain ⟨hkey, hat, hseq, -⟩ := newDocumentEncryptor_at hnew
  obtain ⟨e', hrun, -⟩ := hat.frames_eq S cfg _ rfl heof hne
  rw [hseq] at hrun
  refine ⟨_, e', hrun, (length_sealFrames_pieces hS hkey r.bytes 0).2,
    length_encrypted hS hkey r.bytes 0, ?_, ?_⟩
  · intro hmax
    rw [length_sealFrames]
    exact count_le_max hmax
  · intro sha size envelope hfinal
    obtain ⟨-, -, hdec⟩ := newDocumentDecryptor_finalized hS.toReadsEnvelopes hkey hfinal hunwrap
    obtain ⟨-, hsha, -⟩ := DocumentEncryptor.finalize_ok hfinal
    refine ⟨_, hdec, ?_⟩
    have hread := read_encrypted hS hnew hrun
    rw [← hsha] at hread
    intro ε ns out r' hreads
    obtain ⟨hend, hintegrity, hsource, hbody⟩ := DocumentDecryptReader.reads_refines ε
      (sealFrames S cfg 0 (pieces plainFrameSize r.bytes)) ns
    rw [hreads] at hend hintegrity hsource hbody
    obtain ⟨hinitial, hdone⟩ := hbody _ hread
    refine ⟨hinitial, ?_, hdone⟩
    cases herr : r'.err with
    | none => exact .inl rfl
    | some err => ?_
    cases err with
    | eof => exact .inr ⟨rfl, Except.ok.inj ((hend herr).symm.trans hread)⟩
    | integrity err => exact absurd (hread.symm.trans (hintegrity err herr)) (by simp)
    | source err => exact absurd herr (hsource err)

def twoFrameBody : Reader UInt8 := ⟨[List.replicate plainFrameSize 1, [], [2]], .eof⟩

theorem bytes_twoFrameBody : twoFrameBody.bytes = List.replicate plainFrameSize 1 ++ [2] := by
  simp [twoFrameBody, Reader.bytes]

/-- A byte more than fits one Frame, read three bytes at a time. -/
theorem encrypted_roundtrip_sample :
    ∃ e fs e' sha size envelope d, newDocumentEncryptor sampleConfig twoFrameBody = some e ∧
      e.frames sampleSuite sampleConfig = (fs, none, e') ∧ fs.flatten.length = 65553 ∧
      e'.finalize sampleSuite sampleConfig = some (sha, size, envelope) ∧
      newDocumentDecryptor sampleSuite sampleConfig.identity envelope sha size = .ok d ∧
      ((DocumentDecryptReader.new (newSliceFrameSource Empty fs)).reads sampleSuite d
        (List.replicate 65522 3)).1 = List.replicate plainFrameSize 1 ++ [2] := by
  have hunwrap : sampleSuite.unwrapDataKey sampleConfig.key.wrappedKey
      (documentKeyContext sampleConfig.identity) sampleConfig.mount sampleConfig.keyName =
        some sampleConfig.key.plaintext := rfl
  have hnew : newDocumentEncryptor sampleConfig twoFrameBody = some (sampleEncryptor twoFrameBody) :=
    rfl
  have hne : twoFrameBody.bytes ≠ [] := by simp [bytes_twoFrameBody]
  have hlen : twoFrameBody.bytes.length = 65521 := by
    rw [bytes_twoFrameBody, List.length_append, List.length_replicate]
    rfl
  obtain ⟨fs, e', hrun, -, hsize, -, hread⟩ :=
    encrypted_roundtrip sampleSuite_lawful hunwrap hne rfl hnew
  have hfinal := finalize_sample hne rfl hrun
  obtain ⟨d, hdec, hreads⟩ := hread _ _ _ hfinal
  obtain ⟨-, hend, hdone⟩ := hreads Empty (List.replicate 65522 3) _ _ Prod.mk.eta.symm
  rw [hlen] at hsize hdone
  have hcalls : 65521 < (List.replicate 65522 3).countP (0 < ·) := by
    rw [List.countP_replicate]
    norm_num
  refine ⟨_, fs, e', _, _, _, d, rfl, hrun, hsize, hfinal, hdec, ?_⟩
  rcases hend with hnone | ⟨-, hout⟩
  · rw [hdone hcalls] at hnone
    exact absurd hnone (by simp)
  · exact hout.trans bytes_twoFrameBody

/-! ## A file with anything in it -/

/-- Whatever the `.blk` holds and wherever the entry points, the reader delivers the Document's body
from its start, and reports `io.EOF` only behind all of it. -/
theorem altered_frames_never_served {S : Suite} (hjson : S.ReadsEnvelopes) {cfg : EncryptorConfig}
    (hunwrap : S.unwrapDataKey cfg.key.wrappedKey (documentKeyContext cfg.identity) cfg.mount
      cfg.keyName = some cfg.key.plaintext)
    {r : Reader UInt8} {e e' : DocumentEncryptor} {fs : List (List UInt8)} {sha : Digest}
    {size : Int} {envelope : List UInt8} (hnew : newDocumentEncryptor cfg r = some e)
    (hrun : e.frames S cfg = (fs, none, e'))
    (hfinal : e'.finalize S cfg = some (sha, size, envelope))
    (hcount : fs.length ≤ UInt32.size)
    (hforge : DocumentDecryptReader.Unforgeable S cfg (pieces plainFrameSize r.bytes))
    (crc32c : List UInt8 → UInt32) (blk : Option (List UInt8)) (shardID blockID : UInt64)
    (entry : Disk.Record) {source : Encryption.FrameSource StoredErr}
    (hopen : openDocumentFrameSource crc32c blk shardID blockID entry = .ok source) :
    ∃ d, newDocumentDecryptor S cfg.identity envelope sha size = .ok d ∧
      ∀ (ns : List Nat) (out : List UInt8) (r' : DocumentDecryptReader StoredErr),
        (DocumentDecryptReader.new source).reads S d ns = (out, r') →
        out <+: r.bytes ∧ (r'.err = some .eof → out = r.bytes) := by
  have hkey := (newDocumentEncryptor_at hnew).1
  obtain ⟨-, -, hfs, -, hplain, -⟩ := encrypted_frames hnew hrun
  obtain ⟨-, -, hdec⟩ := newDocumentDecryptor_finalized hjson hkey hfinal hunwrap
  refine ⟨_, hdec, fun ns out r' hreads => ?_⟩
  have hauthentic := DocumentDecryptReader.reads_authentic
    (d := ⟨cfg.key.plaintext, cfg.identity, e'.envelope S cfg, sha⟩) hforge
    (by rwa [hfs, length_sealFrames] at hcount) rfl rfl
    (by simp [DocumentEncryptor.envelope, hplain, flatten_pieces plainFrameSize_pos])
    (openDocumentFrameSource_length hopen) ns
  rwa [hreads, flatten_pieces plainFrameSize_pos] at hauthentic

/-- The sample suite with an AEAD that opens the one Frame of the sample body and nothing else. -/
noncomputable def sealedSuite : Suite :=
  { sampleSuite with
    openPayload := fun key nonce ciphertext aad =>
      if key = sampleConfig.key.plaintext ∧ nonce = frameNonce sampleConfig.noncePrefix 0 ∧
          aad = frameAAD sampleConfig.identity 0 ∧
          ciphertext = sealFrame sampleSuite sampleConfig 0 sampleBody.bytes then
        some sampleBody.bytes
      else none }

theorem sealedSuite_unforgeable :
    DocumentDecryptReader.Unforgeable sealedSuite sampleConfig
      (pieces plainFrameSize sampleBody.bytes) := by
  intro nonce ciphertext aad p hopen
  simp only [sealedSuite] at hopen
  split_ifs at hopen with hframe
  obtain ⟨-, hnonce, haad, hciphertext⟩ := hframe
  refine ⟨0, ?_, hnonce, haad, ?_⟩
  · rw [pieces_short (by decide) (by decide)]
    exact hopen
  · rw [← Option.some.inj hopen]
    exact hciphertext

/-- A `.blk` with one Frame whose last byte is cut off. -/
def cutBlk (crc32c : List UInt8 → UInt32) (frame : List UInt8) : List UInt8 :=
  encodeHeader crc32c 1 1 0 ++ (encodeFrame crc32c ⟨flagSingleFrame, 0, 0, frame⟩).dropLast

theorem length_cutDigest : (List.replicate 32 (0 : UInt8)).length = 32 := rfl

def cutEntry : Disk.Record := ⟨[], [], [], 0, 40, 1, 3, ⟨List.replicate 32 0, length_cutDigest⟩, []⟩

/-- The Frame of the sample body with its last byte cut off. -/
theorem altered_frames_never_served_cut :
    ∃ fs e' sha size envelope d source,
      (sampleEncryptor sampleBody).frames sealedSuite sampleConfig = (fs, none, e') ∧
      e'.finalize sealedSuite sampleConfig = some (sha, size, envelope) ∧
      openDocumentFrameSource Bytes.castagnoli (some (cutBlk Bytes.castagnoli fs.flatten)) 1 1
        cutEntry = .ok source ∧
      newDocumentDecryptor sealedSuite sampleConfig.identity envelope sha size = .ok d ∧
      ∀ (ns : List Nat) (out : List UInt8) (r' : DocumentDecryptReader StoredErr),
        (DocumentDecryptReader.new source).reads sealedSuite d ns = (out, r') →
        out <+: [1, 2, 3] ∧ (r'.err = some .eof → out = [1, 2, 3]) := by
  have hnew : newDocumentEncryptor sampleConfig sampleBody = some (sampleEncryptor sampleBody) := rfl
  obtain ⟨-, hat, -⟩ := newDocumentEncryptor_at hnew
  obtain ⟨e', hrun, -⟩ := hat.frames_eq sealedSuite sampleConfig _ rfl rfl (by decide)
  have hfinal := finalize_sample (by decide) rfl hrun
  have hjson : sealedSuite.ReadsEnvelopes :=
    ⟨sampleSuite_lawful.unmarshal_marshal, sampleSuite_lawful.marshal_ne_nil⟩
  have hopen : ∀ frame, openDocumentFrameSource Bytes.castagnoli
      (some (cutBlk Bytes.castagnoli frame)) 1 1 cutEntry =
        .ok (storedFrameSource Bytes.castagnoli (cutBlk Bytes.castagnoli frame) cutEntry) := by
    intro frame
    rw [openDocumentFrameSource, cutBlk, verifyHeader_encodeHeader]
    rfl
  have hcount : (sealFrames sealedSuite sampleConfig (sampleEncryptor sampleBody).frameSeq
      (pieces plainFrameSize sampleBody.bytes)).length ≤ UInt32.size := by
    rw [pieces_short (by decide) (by decide)]
    decide
  obtain ⟨d, hdec, hreads⟩ := altered_frames_never_served hjson rfl hnew hrun hfinal hcount
    sealedSuite_unforgeable _ _ 1 1 cutEntry (hopen _)
  exact ⟨_, e', _, _, _, d, _, hrun, hfinal, hopen _, hdec, hreads⟩

end Scrap
