/-
# A Document on the leader and on a follower

The two sides cut a Document into Frames with different code.

    leader, plaintext     AppendDocument reads 64 KiB at a time from the client's stream
    leader, encrypted     AppendDocumentFrameSource takes the Frames of the encryptor
    on the wire           the stored bytes in chunks of 64 KiB, without any Frame boundary
    follower, plaintext   AppendDocument reads from the chunks
    follower, encrypted   splitReplicatedStoredFrames cuts the bytes by count, then
                          AppendDocumentFrames

They agree for every body of at most 128 MiB and every way it arrives
(`replica_stores_leaders_frames`).
-/
import Scrap.Block.Append
import Scrap.Block.Scan
import Scrap.Encryption.Document
import Scrap.Lib.Json
import Scrap.Shard.Write

namespace Scrap

open Block Buffered Encryption Fallible

/-! ## The leader -/

def maxDocumentBytes : Nat := 128 * 1024 * 1024

def replicationChunkSize : Nat := 64 * 1024

/-- The crypto of a Member that encrypts with the suite `S`; the rest is `c`'s. -/
def Encryption.Suite.crypto (S : Suite) (c : Crypto) : Crypto :=
  { c with
    sha256 := S.sha256
    parseEnvelope := fun data =>
      match parseEnvelope S data with
      | .error _ => none
      | .ok e => some ⟨e.keyVersion, e.ciphertextLength⟩
    verifies := fun txID docName envelope sha256 size frames =>
      match newDocumentDecryptor S ⟨txID, docName⟩ envelope sha256 size with
      | .error _ => false
      | .ok d =>
        match d.verify S frames with
        | .error _ => false
        | .ok () => true }

def documentEncryptor (S : Suite) (cfg : EncryptorConfig) (body : Reader UInt8) :
    Option Encryptor :=
  match newDocumentEncryptor cfg body with
  | none => none
  | some e =>
    let (frames, err, e') := e.frames S cfg
    some ⟨⟨frames, err = some .readDocument⟩, e'.finalize S cfg⟩

/-- The bytes that the leader sends: what it read of a plaintext body, or the ciphertext. -/
def replicationData (c : Crypto) (body : Body) (encryptor : Option Encryptor) : List UInt8 :=
  if !c.enabled then body.bytes
  else
    match encryptor with
    | none => []
    | some e => e.frames.payloads.flatten

def splitReplicationChunks (data : List UInt8) : List (List UInt8) :=
  (List.range ((data.length + replicationChunkSize - 1) / replicationChunkSize)).map fun i =>
    (data.drop (i * replicationChunkSize)).take replicationChunkSize

def WriteAttempt.replicateInit (a : WriteAttempt) (leaderID term : UInt64) :
    ReplicateDocumentInit where
  transactionID := a.prep.transactionID
  documentName := a.prep.documentName
  contentType := a.prep.contentType
  blockID := a.prep.blockID
  startOffset := a.prep.startOffset
  frameCount := a.result.frameCount
  totalBytes := a.result.size
  sha256 := a.result.sha256.val
  encryptionEnvelope := a.envelope
  leaderID := leaderID
  term := term

theorem flatten_splitReplicationChunks (data : List UInt8) :
    (splitReplicationChunks data).flatten = data := by
  have hpos : 0 < replicationChunkSize := by decide
  rw [splitReplicationChunks, ← pieces_eq_range hpos, flatten_pieces hpos]

/-! ## Appending Frames behind any file -/

variable {result : AppendResult} {f' : BlkFile} {body : Body} {envelope : List UInt8} {w' : Writer}

namespace Block

variable {w w' : Writer} {f f' : BlkFile}

theorem Writer.appendDocument_result {sha256 : List UInt8 → Digest}
    (h : w.appendDocument sha256 f body = (.ok result, w', f')) :
    body.bytes ≠ [] ∧ body.fails = false ∧ result = ⟨sha256 body.bytes, body.bytes.length,
        UInt32.ofNat (framePayloads body.bytes).length, w.offset⟩ ∧
      f' = f.with w.docSeq (framePayloads body.bytes) := by
  simp only [Writer.appendDocument] at h
  split_ifs at h with hfails hnil
  · simp at h
  · simp at h
  have hfs : writeDocFrames w.docSeq body = docFrames w.docSeq 0 (framePayloads body.bytes) := by
    simp [writeDocFrames, hfails]
  rw [hfs] at h hnil
  simp only [Prod.mk.injEq, Except.ok.injEq, length_docFrames] at h
  refine ⟨?_, by simpa using hfails, h.1.symm, h.2.2.symm⟩
  rw [docFrames_eq_nil, framePayloads_eq_nil] at hnil
  exact hnil

theorem Writer.appendDocument_of_body {sha256 : List UInt8 → Digest} (hne : body.bytes ≠ [])
    (hfails : body.fails = false) :
    w.appendDocument sha256 f body = (.ok ⟨sha256 body.bytes, body.bytes.length,
        UInt32.ofNat (framePayloads body.bytes).length, w.offset⟩,
        w.behind (framePayloads body.bytes), f.with w.docSeq (framePayloads body.bytes)) := by
  have hfs : writeDocFrames w.docSeq body = docFrames w.docSeq 0 (framePayloads body.bytes) := by
    simp [writeDocFrames, hfails]
  have hnil : ¬ docFrames w.docSeq 0 (framePayloads body.bytes) = [] := by
    rw [docFrames_eq_nil, framePayloads_eq_nil]
    exact hne
  simp only [Writer.appendDocument, hfs, hfails, hnil, length_docFrames]
  rfl

theorem Writer.appendDocumentFrameSource_result {src : FrameSource} {offset : Nat}
    {count : UInt32} (h : w.appendDocumentFrameSource f src = (.ok (offset, count), w', f')) :
    src.fails = false ∧ src.payloads ≠ [] ∧ offset = w.offset ∧
      count = UInt32.ofNat src.payloads.length ∧ f' = f.with w.docSeq src.payloads := by
  simp only [Writer.appendDocumentFrameSource] at h
  split_ifs at h with hlim hfails hnil
  · simp at h
  · simp at h
  · simp at h
  · simp only [Prod.mk.injEq, Except.ok.injEq] at h
    exact ⟨by simpa using hfails, hnil, h.1.1.symm, h.1.2.symm, h.2.2.symm⟩

theorem Writer.appendDocumentFrames_of_payloads {d : DocumentFrames} (hsize : 0 ≤ d.size)
    (hne : d.payloads ≠ []) (hlim : ∀ p ∈ d.payloads, p.length ≤ maxFramePayload) :
    w.appendDocumentFrames f d = (.ok ⟨d.sha256, d.size, UInt32.ofNat d.payloads.length, w.offset⟩,
        w.behind d.payloads, f.with w.docSeq d.payloads) := by
  have hall : d.payloads.takeWhile (fun p => p.length ≤ maxFramePayload) = d.payloads :=
    List.takeWhile_eq_self_iff.mpr fun p hp => by simpa using hlim p hp
  simp only [Writer.appendDocumentFrames, if_neg (Int.not_lt.mpr hsize), hne, hall,
    Nat.lt_irrefl, List.take_of_length_le (length_docFrames w.docSeq 0 _).le]
  rfl

end Block

/-! ## Cutting the ciphertext -/

theorem splitReplicatedStoredFrames_flatten : ∀ {ps : List (List UInt8)}, ps ≠ [] →
    (∀ p ∈ ps.dropLast, p.length = maxFramePayload) → (∀ p ∈ ps, p.length ≤ maxFramePayload) →
    splitReplicatedStoredFrames ps.flatten ps.length = some ps
  | [], hne, _, _ => absurd rfl hne
  | [p], _, _, hle => by
    have hp := hle p (List.mem_singleton_self p)
    simp only [List.flatten_cons, List.flatten_nil, List.append_nil, List.length_cons,
      List.length_nil, Nat.zero_add, splitReplicatedStoredFrames]
    rw [if_neg (by omega)]
  | p :: q :: ps, _, hfull, hle => by
    have hp : p.length = maxFramePayload := hfull p (by simp)
    have ih := splitReplicatedStoredFrames_flatten (List.cons_ne_nil q ps)
      (fun x hx => hfull x (by
        rw [List.dropLast_cons_of_ne_nil (List.cons_ne_nil q ps)]
        exact List.mem_cons_of_mem _ hx))
      (fun x hx => hle x (List.mem_cons_of_mem _ hx))
    rw [List.flatten_cons, List.length_cons, List.length_cons, splitReplicatedStoredFrames,
      if_neg (by rw [List.length_append]; omega), ← hp, List.drop_left, List.take_left]
    rw [List.length_cons] at ih
    rw [ih, Option.map_some]

section Sealed

variable {S : Suite} (hS : S.Lawful) {cfg : EncryptorConfig}
  (hkey : cfg.key.plaintext.length = aes256KeySize)

include hS hkey

theorem length_sealFrames_pieces : ∀ (bs : List UInt8) (seq : UInt32),
    (∀ p ∈ sealFrames S cfg seq (pieces plainFrameSize bs), p.length ≤ maxFramePayload) ∧
      ∀ p ∈ (sealFrames S cfg seq (pieces plainFrameSize bs)).dropLast,
        p.length = maxFramePayload := by
  have hsize : plainFrameSize + aesGCMTagSize = maxFramePayload := by decide
  intro bs
  induction bs using pieces_induction plainFrameSize_pos with
  | nil => simp [pieces_nil, sealFrames]
  | cons bs hbs ih =>
    intro seq
    obtain ⟨hle, hfull⟩ := ih (seq + 1)
    have hhead := length_sealFrame hS hkey seq (bs.take plainFrameSize)
    rw [List.length_take] at hhead
    rw [pieces_of_pos plainFrameSize_pos hbs, sealFrames]
    refine ⟨?_, ?_⟩
    · intro p hp
      rcases List.mem_cons.mp hp with rfl | hp
      · omega
      · exact hle p hp
    · by_cases hlast : bs.drop plainFrameSize = []
      · rw [hlast, pieces_nil]
        simp [sealFrames]
      have hne : sealFrames S cfg (seq + 1)
          (pieces plainFrameSize (bs.drop plainFrameSize)) ≠ [] := by
        intro hnil
        have hlen := congrArg List.length hnil
        rw [length_sealFrames, List.length_nil, List.length_eq_zero_iff,
          pieces_eq_nil plainFrameSize_pos] at hlen
        exact hlast hlen
      have hlong : plainFrameSize ≤ bs.length := by
        by_contra hshort
        exact hlast (List.drop_of_length_le (by omega))
      rw [List.dropLast_cons_of_ne_nil hne]
      intro p hp
      rcases List.mem_cons.mp hp with rfl | hp
      · omega
      · exact hfull p hp

end Sealed

/-! ## The follower -/

section Follower

variable {c : Crypto} {s : Shard} {w : Writer} {f : BlkFile}

/-- The Member's open Block is `w`'s, with the file `f`. -/
structure Shard.Appends (s : Shard) (w : Writer) (f : BlkFile) : Prop where
  writer : s.blockWriter = some w
  blk : (s.blocks w.blockID).blk = some f
  scanned : openWriter f w.blockID = .ok w

theorem advanceReplicaBlock_same (h : s.blockWriter = some w) :
    (advanceReplicaBlock w.blockID).run s = .ok () s := by
  rw [advanceReplicaBlock, get_bind, h]
  simp only
  rw [if_neg (UInt64.lt_irrefl _), if_neg (UInt64.lt_irrefl _)]
  rfl

theorem ensureReplicaAppendOffset_same (h : s.blockWriter = some w) (now : Int)
    (peers : List (Option StagedBlock)) :
    (ensureReplicaAppendOffset c w.blockID w.offset now peers w).run s = .ok () s := by
  have htrim : (trimReplicaOverhang w.blockID w.offset).run s = .ok () s := by
    rw [trimReplicaOverhang, get_bind, h]
    simp only
    rw [if_neg (Nat.lt_irrefl _), get_bind, h]
    simp
  rw [ensureReplicaAppendOffset, if_neg (Nat.lt_irrefl _)]
  exact htrim

theorem appendReplicatedDocument_at (h : s.Appends w f) {raft : RaftStatus}
    {init : ReplicateDocumentInit} (writeID : String) (now : Int)
    (peers : List (Option StagedBlock)) (hfence : validateReplicationFence raft init = .ok ())
    (hblock : init.blockID = w.blockID) (hoffset : safeUint64ToInt64 init.startOffset = w.offset)
    (hpay : appendReplicatedPayload c init body w f = (.ok result, w', f'))
    (hvalid : validateReplicatedAppend init result w.offset = .ok ()) :
    ∃ s', (appendReplicatedDocument c raft init body writeID now peers).run s =
        .ok result s' ∧ (s'.blocks w.blockID).blk = some f' := by
  rw [appendReplicatedDocument, hfence]
  rw [hblock, bind_of_ok (advanceReplicaBlock_same h.writer), get_bind, h.writer]
  simp only
  rw [if_neg (not_not_intro rfl), hoffset,
    bind_of_ok (ensureReplicaAppendOffset_same h.writer now peers), get_bind, h.writer]
  simp only
  rw [appendAtOffset, modify_bind, get_bind]
  have hblk : ∀ prep : OpenlogEntry,
      ((s.beginWriteAttempt prep).blocks w.blockID).blk = some f := fun _ => h.blk
  simp only [hblk, hpay, hoffset, hvalid]
  exact ⟨_, rfl, by simp [Shard.setBlk, Shard.setBlock]⟩

end Follower

/-! ## Both sides -/

section Both

variable {c : Crypto} {s s' : Shard} {w : Writer} {f : BlkFile}

theorem appendWrite_result (hw : s.blockWriter = some w) (hf : (s.blocks w.blockID).blk = some f)
    {req : WriteRequest} {enc : Option Encryptor} {writeID : String} {now : Int} {a : WriteAttempt}
    (hrun : (appendWrite c req enc writeID now).run s = .ok a s') :
    ∃ result envelope w' f',
      appendDocumentPayload c req.body enc w f = (.ok (result, envelope), w', f') ∧
      a = ⟨⟨writeID, req.txID, req.docName, w.blockID, UInt64.ofNat w.offset,
        req.contentType⟩, w.offset, result, now, envelope⟩ ∧
      (s'.blocks w.blockID).blk = some f' := by
  rw [appendWrite, get_bind, hw] at hrun
  simp only [hf] at hrun
  cases hpay : appendDocumentPayload c req.body enc w f with
  | mk outcome rest =>
    obtain ⟨w', f'⟩ := rest
    rw [hpay] at hrun
    obtain ⟨_, t, hset, hrest⟩ := bind_ok.mp hrun
    have ht : t = { ((s.beginWriteAttempt ⟨writeID, req.txID, req.docName, w.blockID,
        UInt64.ofNat w.offset, req.contentType⟩).setBlk w.blockID (some f')) with
        blockWriter := some w' } := (EStateM.Result.ok.inj hset).2.symm
    have hthrow : ∀ err : ShardErr, ¬ (do
        abortWriteAttempt writeID w.offset
        throw err : ShardM WriteAttempt).run t = .ok a s' := by
      intro err herr
      obtain ⟨-, t', -, hfail⟩ := bind_ok.mp herr
      exact absurd hfail (by simp)
    cases outcome with
    | error err => exact absurd hrest (hthrow err)
    | ok r => ?_
    simp only at hrest
    split_ifs at hrest with hoff
    · exact absurd hrest (hthrow _)
    obtain ⟨ha, hs'⟩ := EStateM.Result.ok.inj hrest
    refine ⟨r.1, r.2, w', f', rfl, ha.symm, ?_⟩
    rw [← hs', ht]
    simp [Shard.setBlk, Shard.setBlock]

theorem toNat_ofNat_count {n : Nat} (h : n ≤ maxReplicatedFrameCount) :
    (UInt32.ofNat n).toNat = n := by
  have hmax : maxReplicatedFrameCount < UInt32.size := by decide
  rw [UInt32.toNat_ofNat_of_lt' (Nat.lt_of_le_of_lt h hmax)]

theorem count_le_max {bs : List UInt8} (h : bs.length ≤ maxDocumentBytes) :
    (pieces plainFrameSize bs).length ≤ maxReplicatedFrameCount := by
  rw [length_pieces plainFrameSize_pos]
  simp only [maxDocumentBytes, maxReplicatedFrameCount, maxFramePayload, plainFrameSize,
    defaultCiphertextFramePayload, aesGCMTagSize] at h ⊢
  omega

theorem replicatedFrames_encrypted {S : Suite} (hS : S.Lawful) {cf : Crypto}
    (henabled : cf.enabled = true) {cfg : EncryptorConfig} {r : Reader UInt8}
    {e e' : DocumentEncryptor} {fs : List (List UInt8)} {sha : Digest} {size : Int}
    (hnew : newDocumentEncryptor cfg r = some e) (hrunE : e.frames S cfg = (fs, none, e'))
    (hfinal : e'.finalize S cfg = some (sha, size, envelope))
    (hunwrap : S.unwrapDataKey cfg.key.wrappedKey (documentKeyContext cfg.identity) cfg.mount
      cfg.keyName = some cfg.key.plaintext) (hsize : r.bytes.length ≤ maxDocumentBytes)
    {init : ReplicateDocumentInit} (htx : init.transactionID = cfg.identity.transactionID)
    (hdoc : init.documentName = cfg.identity.documentName)
    (hcount : init.frameCount = UInt32.ofNat fs.length) (htotal : init.totalBytes = size)
    (hsha : init.sha256 = sha.val) (henv : init.encryptionEnvelope = envelope) :
    replicatedFrames (S.crypto cf) init ⟨fs.flatten, false⟩ = .ok ⟨fs, sha, size⟩ := by
  obtain ⟨hne, heof, hfs, -, -, hcipher⟩ := encrypted_frames hnew hrunE
  obtain ⟨-, hparse, d, hdec, hverify⟩ := verify_encrypted hS hnew hrunE hfinal hunwrap
  have hkey := (newDocumentEncryptor_at hnew).1
  have hlen : fs.length ≤ maxReplicatedFrameCount := by
    rw [hfs, length_sealFrames]
    exact count_le_max hsize
  obtain ⟨hle, hfull⟩ := length_sealFrames_pieces hS hkey r.bytes 0
  rw [← hfs] at hle hfull
  have hfsne : fs ≠ [] := by
    intro hnil
    have hzero := congrArg List.length hfs
    rw [hnil, length_sealFrames] at hzero
    exact hne ((pieces_eq_nil plainFrameSize_pos).mp (List.length_eq_zero_iff.mp hzero.symm))
  have hsplit := splitReplicatedStoredFrames_flatten hfsne hfull hle
  have hidentity : (⟨init.transactionID, init.documentName⟩ : DocumentIdentity) =
      cfg.identity := by rw [htx, hdoc]
  have hsha32 : init.sha256.length = 32 := by rw [hsha, sha.property]
  have hdigest : (⟨init.sha256, hsha32⟩ : Digest) = sha := Subtype.ext hsha
  simp only [replicatedFrames, Suite.crypto, henv, hparse, Bool.false_eq_true, if_false]
  rw [if_neg (by simp [DocumentEncryptor.envelope, hcipher]), dif_pos hsha32, hcount,
    toNat_ofNat_count hlen, if_neg (by omega), hsplit]
  simp only [henabled, hidentity, hdigest, htotal, hdec, hverify, Bool.not_true,
    Bool.false_eq_true, if_false]

theorem safeUint64ToInt64_ofNat {n : Nat} (h : n ≤ maxInt64) :
    safeUint64ToInt64 (UInt64.ofNat n) = n := by
  have hmax : maxInt64 < UInt64.size := by decide
  rw [safeUint64ToInt64, UInt64.toNat_ofNat_of_lt' (Nat.lt_of_le_of_lt h hmax),
    if_neg (Nat.not_lt.mpr h)]

theorem appendDocumentPayload_encrypted {enc : Encryptor} (hon : c.enabled = true)
    (h : appendDocumentPayload c body (some enc) w f = (.ok (result, envelope), w', f')) :
    enc.frames.fails = false ∧ enc.frames.payloads ≠ [] ∧ result.firstFrameOffset = w.offset ∧
      result.frameCount = UInt32.ofNat enc.frames.payloads.length ∧
      f' = f.with w.docSeq enc.frames.payloads ∧
      enc.info = some (result.sha256, result.size, envelope) := by
  simp only [appendDocumentPayload, hon] at h
  cases hsrc : w.appendDocumentFrameSource f enc.frames with
  | mk outcome rest =>
    rw [hsrc] at h
    cases outcome with
    | error err => simp at h
    | ok oc => ?_
    obtain ⟨hfails, hne, hoffset, hcount, hf'⟩ := Writer.appendDocumentFrameSource_result hsrc
    cases hinfo : enc.info with
    | none => simp [hinfo] at h
    | some info => ?_
    simp only [hinfo] at h
    obtain ⟨⟨rfl, rfl⟩, -, rfl⟩ := h
    exact ⟨hfails, hne, hoffset, hcount, hf', rfl⟩

theorem appendReplicatedPayload_agrees {S : Suite} (hS : S.Lawful) {cl cf : Crypto}
    (hkeys : cl.enabled = true → cf.enabled = true) {ff : BlkFile} (hframes : ff.frames = f.frames)
    {r : Reader UInt8} (hsize : r.bytes.length ≤ maxDocumentBytes) {cfg : EncryptorConfig}
    (hunwrap : cl.enabled = true → S.unwrapDataKey cfg.key.wrappedKey
      (documentKeyContext cfg.identity) cfg.mount cfg.keyName = some cfg.key.plaintext)
    (hpay : appendDocumentPayload (S.crypto cl) (bodyOf r) (documentEncryptor S cfg r) w f =
      (.ok (result, envelope), w', f')) (init : ReplicateDocumentInit)
    (htx : init.transactionID = cfg.identity.transactionID)
    (hdoc : init.documentName = cfg.identity.documentName)
    (hcount : init.frameCount = result.frameCount) (htotal : init.totalBytes = result.size)
    (hsha : init.sha256 = result.sha256.val) (henv : init.encryptionEnvelope = envelope) :
    result.firstFrameOffset = w.offset ∧ f'.torn = 0 ∧
      ∃ w'', appendReplicatedPayload (S.crypto cf) init
        ⟨replicationData (S.crypto cl) (bodyOf r) (documentEncryptor S cfg r), false⟩ w ff =
          (.ok result, w'', f') := by
  by_cases henabled : cl.enabled = true
  · -- encrypted: the Frames of the encryptor, cut out of their bytes again
    have hon : (S.crypto cl).enabled = true := henabled
    cases hnew : newDocumentEncryptor cfg r with
    | none => simp [appendDocumentPayload, documentEncryptor, hon, hnew] at hpay
    | some e => ?_
    cases hrun : e.frames S cfg with
    | mk fs rest =>
      obtain ⟨err, e'⟩ := rest
      have henc : documentEncryptor S cfg r =
          some ⟨⟨fs, err = some .readDocument⟩, e'.finalize S cfg⟩ := by
        rw [documentEncryptor, hnew]
        simp only [hrun]
      rw [henc] at hpay ⊢
      obtain ⟨hfails, hne, hoffset, hfcount, hf', hinfo⟩ := appendDocumentPayload_encrypted hon hpay
      simp only at hne hfcount hf' hinfo
      obtain rfl : err = none := frames_err_eq_none hnew hrun (by simpa using hfails) hne
      have hlim := (length_sealFrames_pieces hS (newDocumentEncryptor_at hnew).1 r.bytes 0).1
      rw [← (encrypted_frames hnew hrun).2.2.1] at hlim
      have hparse := (verify_encrypted hS hnew hrun hinfo (hunwrap henabled)).1
      have hcut := replicatedFrames_encrypted hS (hkeys henabled) hnew hrun hinfo
        (hunwrap henabled) hsize htx hdoc (hcount.trans hfcount) htotal hsha henv
      have hpos : 0 ≤ result.size := by
        rw [(DocumentEncryptor.finalize_ok hinfo).2.2]
        exact Int.natCast_nonneg _
      refine ⟨hoffset, by rw [hf']; rfl, w.behind fs, ?_⟩
      simp only [appendReplicatedPayload, henv, hparse, if_false, replicationData, hon,
        Bool.not_true, Bool.false_eq_true]
      rw [hcut]
      simp only [Writer.appendDocumentFrames_of_payloads
        (d := ⟨fs, result.sha256, result.size⟩) hpos hne hlim]
      rw [hf', BlkFile.with, BlkFile.with, hframes, ← hfcount, ← hoffset]
  · -- plaintext: the bytes that the leader read
    have hoff : (S.crypto cl).enabled = false := by simpa [Suite.crypto] using henabled
    simp only [appendDocumentPayload, hoff] at hpay
    cases happend : w.appendDocument (S.crypto cl).sha256 f (bodyOf r) with
    | mk outcome rest =>
      rw [happend] at hpay
      cases outcome with
      | error err => simp at hpay
      | ok res => ?_
      obtain ⟨⟨rfl, rfl⟩, rfl, rfl⟩ := hpay
      obtain ⟨hne, -, hresult, hf'⟩ := Writer.appendDocument_result happend
      refine ⟨by rw [hresult], by rw [hf']; rfl, w.behind (framePayloads r.bytes), ?_⟩
      have hbody : (Body.mk r.bytes false).bytes ≠ [] := hne
      simp only [appendReplicatedPayload, henv, replicationData, hoff, Bool.not_false, if_true]
      rw [show (bodyOf r).bytes = r.bytes from rfl, Writer.appendDocument_of_body hbody rfl]
      simp only [hresult, hf', BlkFile.with, hframes]
      rfl

/-- A leader appends a Document, in plaintext or encrypted; a follower with the same Frames in the
open Block accepts the init message and the chunks, and behind the Block headers the two files are
equal byte for byte. -/
theorem replica_stores_leaders_frames {S : Suite} (hS : S.Lawful) (cl cf : Crypto)
    (hkeys : cl.enabled = true → cf.enabled = true) {leader leader' follower : Shard}
    {wf : Writer} {ff : BlkFile} (hleader : leader.Appends w f)
    (hfollower : follower.Appends wf ff) (hblock : wf.blockID = w.blockID)
    (hframes : ff.frames = f.frames) (hoffset : w.offset ≤ maxInt64) {r : Reader UInt8}
    (hsize : r.bytes.length ≤ maxDocumentBytes) {txID docName contentType : String}
    {cfg : EncryptorConfig} (hidentity : cfg.identity = ⟨txID, docName⟩)
    (hunwrap : cl.enabled = true → S.unwrapDataKey cfg.key.wrappedKey
      (documentKeyContext cfg.identity) cfg.mount cfg.keyName = some cfg.key.plaintext)
    {writeID : String} {now : Int} {a : WriteAttempt}
    (happend : (appendWrite (S.crypto cl) ⟨txID, docName, contentType, bodyOf r⟩
      (documentEncryptor S cfg r) writeID now).run leader = .ok a leader')
    (leaderID term : UInt64) (raft : RaftStatus)
    (hfence : validateReplicationFence raft (a.replicateInit leaderID term) = .ok ())
    (writeID' : String) (now' : Int) (peers : List (Option StagedBlock)) :
    ∃ result follower' f' f'',
      (appendReplicatedDocument (S.crypto cf) raft (a.replicateInit leaderID term)
          (bodyOf ⟨splitReplicationChunks (replicationData (S.crypto cl) (bodyOf r)
            (documentEncryptor S cfg r)), .eof⟩) writeID' now' peers).run follower =
        .ok result follower' ∧
      (leader'.blocks w.blockID).blk = some f' ∧ (follower'.blocks w.blockID).blk = some f'' ∧
      f'.torn = 0 ∧ f''.torn = 0 ∧ ∀ crc32c, f''.stored crc32c = f'.stored crc32c := by
  obtain ⟨result, envelope, w', f', hpay, rfl, hblk⟩ := appendWrite_result hleader.writer hleader.blk happend
  have hw : wf = w := openWriter_of_frames hleader.scanned (hblock ▸ hfollower.scanned) hframes
  subst hw
  generalize ha : WriteAttempt.mk _ _ _ _ _ = a at hfence
  have hinit : (a.replicateInit leaderID term).startOffset = UInt64.ofNat wf.offset := by
    rw [← ha]
    rfl
  obtain ⟨hfirst, htorn, w'', hreplica⟩ := appendReplicatedPayload_agrees hS hkeys hframes hsize
    hunwrap hpay (a.replicateInit leaderID term) (by rw [← ha, hidentity]; rfl)
    (by rw [← ha, hidentity]; rfl) (by rw [← ha]; rfl) (by rw [← ha]; rfl) (by rw [← ha]; rfl)
    (by rw [← ha]; rfl)
  have hvalid : validateReplicatedAppend (a.replicateInit leaderID term) result wf.offset =
      .ok () := by
    rw [← ha]
    simp [validateReplicatedAppend, WriteAttempt.replicateInit, hfirst]
  have hchunks : bodyOf ⟨splitReplicationChunks (replicationData (S.crypto cl) (bodyOf r)
      (documentEncryptor S cfg r)), .eof⟩ =
        ⟨replicationData (S.crypto cl) (bodyOf r) (documentEncryptor S cfg r), false⟩ := by
    simp [bodyOf, Reader.bytes, flatten_splitReplicationChunks, Ending.isEOF]
  obtain ⟨follower', hrun, hfblk⟩ := appendReplicatedDocument_at hfollower writeID' now' peers
    hfence (by rw [← ha]; rfl) (by rw [hinit, safeUint64ToInt64_ofNat hoffset]) hreplica hvalid
  exact ⟨result, follower', f', f', by rw [hchunks]; exact hrun, hblk, hfblk, htorn, htorn,
    fun _ => rfl⟩

end Both

/-! ## A suite with all its laws

The tag of its AEAD is sixteen zeros, and its JSON writes bytes as the characters of their
values. -/

section Sample

open Json

/-- A string with one character for each byte. -/
def latin1 (bs : List UInt8) : String := String.ofList (bs.map Char.ofUInt8)

theorem latin1_injective : Function.Injective latin1 := by
  intro bs cs h
  have hchars := congrArg String.toList h
  rw [latin1, latin1, String.toList_ofList, String.toList_ofList] at hchars
  refine List.map_injective_iff.mpr (fun b c hbc => ?_) hchars
  have hval : b.toUInt32 = c.toUInt32 := congrArg Char.val hbc
  exact UInt8.toNat.inj (congrArg UInt32.toNat hval)

def sampleMembers (e : Encryption.Envelope) : List (String × List UInt8) :=
  [("version", jsonInt e.version), ("transit_mount", jsonString e.transitMount),
    ("transit_key", jsonString e.transitKey), ("key_version", jsonInt e.keyVersion),
    ("wrapped_data_key", jsonString e.wrappedDataKey),
    ("payload_algorithm", jsonString e.payloadAlgorithm),
    ("nonce_prefix", jsonString (latin1 e.noncePrefix)),
    ("plaintext_sha256", jsonString (latin1 e.plaintextSHA256)),
    ("plaintext_length", jsonInt e.plaintextLength),
    ("ciphertext_length", jsonInt e.ciphertextLength)]

theorem sampleMembers_json (e : Encryption.Envelope) :
    ∀ x ∈ sampleMembers e, JsonValue x.2 := by
  simp only [sampleMembers, List.forall_mem_cons, List.not_mem_nil, false_implies,
    implies_true, and_true]
  exact ⟨.int _, .string _, .string _, .int _, .string _, .string _, .string _, .string _,
    .int _, .int _⟩

theorem sampleJSON_injective : Function.Injective (jsonObject ∘ sampleMembers) := by
  intro e e' h
  have hms := (jsonObject_unique (sampleMembers_json e) (sampleMembers_json e')
    (congrArg (· ++ []) h)).1
  simp only [sampleMembers, List.cons.injEq, Prod.mk.injEq, true_and, and_true] at hms
  obtain ⟨hversion, hmount, hkey, hkv, hwrapped, halg, hnonce, hsha, hplain, hcipher⟩ := hms
  have hstr : ∀ s t : String, jsonString s = jsonString t → s = t :=
    fun s t hst => (jsonString_inj (congrArg (· ++ []) hst)).1
  cases e
  cases e'
  simp only [Encryption.Envelope.mk.injEq]
  exact ⟨jsonInt_injective hversion, hstr _ _ hmount, hstr _ _ hkey, jsonInt_injective hkv,
    hstr _ _ hwrapped, hstr _ _ halg, latin1_injective (hstr _ _ hnonce),
    latin1_injective (hstr _ _ hsha), jsonInt_injective hplain, jsonInt_injective hcipher⟩

noncomputable def sampleSuite : Suite where
  sha256 := fun bs => ⟨UInt8.ofNat bs.length :: List.replicate 31 0, by simp⟩
  sealPayload := fun _ _ plaintext _ => plaintext ++ List.replicate aesGCMTagSize 0
  openPayload := fun _ _ ciphertext _ => some (ciphertext.take (ciphertext.length - aesGCMTagSize))
  unwrapDataKey := fun _ _ _ _ => some (List.replicate aes256KeySize 7)
  marshal := jsonObject ∘ sampleMembers
  unmarshal := Function.partialInv (jsonObject ∘ sampleMembers)

theorem sampleSuite_lawful : sampleSuite.Lawful where
  open_seal := fun _ _ plaintext _ _ => by simp [sampleSuite]
  length_seal := fun _ _ plaintext _ _ => by simp [sampleSuite]
  unmarshal_marshal := Function.partialInv_left sampleJSON_injective
  marshal_ne_nil := fun e => by simp [sampleSuite, jsonObject]

def keyedCrypto : Crypto where
  sha256 := fun _ => ⟨List.replicate 32 0, by simp⟩
  envelopeCiphertextLength := fun _ => none
  envelopePlaintextSHA256 := fun _ => .notJSON
  enabled := true
  parseEnvelope := fun _ => none
  verifies := fun _ _ _ _ _ _ => false

def sampleConfig : EncryptorConfig :=
  ⟨⟨List.replicate aes256KeySize 7, "vault:v1", 1⟩, ⟨"invoice", "scan.pdf"⟩,
    List.replicate noncePrefixSize 0, "", ""⟩

def sampleBody : Reader UInt8 := ⟨[[1, 2], [], [3]], .eof⟩

theorem fresh_appends (shardID : UInt64) (uploadEnabled : Bool) :
    (Shard.fresh shardID uploadEnabled).Appends (newWriter 1) newBlkFile :=
  ⟨rfl, rfl, rfl⟩

noncomputable def sampleAppend : ShardM WriteAttempt :=
  appendWrite (sampleSuite.crypto keyedCrypto)
    ⟨"invoice", "scan.pdf", "application/pdf", bodyOf sampleBody⟩
    (documentEncryptor sampleSuite sampleConfig sampleBody) "01J" 5

theorem sampleAppend_ok :
    ∃ a leader', sampleAppend.run (Shard.fresh 1 true) = .ok a leader' := by
  have hok : (outcome sampleAppend (Shard.fresh 1 true)).isOk = true := by decide +kernel
  cases hout : outcome sampleAppend (Shard.fresh 1 true) with
  | error err => simp [hout, Except.toBool] at hok
  | ok a => exact ⟨a, _, outcome_ok_iff.mp hout⟩

/-- Three bytes in three reads, encrypted, into the first Block of two new Members. -/
theorem replica_stores_leaders_frames_sample :
    ∃ a leader' result follower' f' f'', sampleAppend.run (Shard.fresh 1 true) = .ok a leader' ∧
      (appendReplicatedDocument (sampleSuite.crypto keyedCrypto) ⟨1, 1⟩ (a.replicateInit 1 1)
          (bodyOf ⟨splitReplicationChunks (replicationData (sampleSuite.crypto keyedCrypto)
            (bodyOf sampleBody) (documentEncryptor sampleSuite sampleConfig sampleBody)), .eof⟩)
          "01K" 6 []).run (Shard.fresh 1 true) = .ok result follower' ∧
      (leader'.blocks 1).blk = some f' ∧ (follower'.blocks 1).blk = some f'' ∧
      f'.torn = 0 ∧ f''.torn = 0 ∧ ∀ crc32c, f''.stored crc32c = f'.stored crc32c := by
  obtain ⟨a, leader', hrun⟩ := sampleAppend_ok
  have hsize : sampleBody.bytes.length ≤ maxDocumentBytes := by decide
  have hidentity : sampleConfig.identity = ⟨"invoice", "scan.pdf"⟩ := rfl
  have hunwrap : keyedCrypto.enabled = true → sampleSuite.unwrapDataKey
      sampleConfig.key.wrappedKey (documentKeyContext sampleConfig.identity) sampleConfig.mount
      sampleConfig.keyName = some sampleConfig.key.plaintext := fun _ => rfl
  obtain ⟨result, follower', f', f'', hresult⟩ := replica_stores_leaders_frames
    sampleSuite_lawful keyedCrypto keyedCrypto (fun h => h) (fresh_appends 1 true)
    (fresh_appends 1 true) rfl rfl (by decide) hsize hidentity hunwrap hrun 1 1 ⟨1, 1⟩
    (by simp [validateReplicationFence, WriteAttempt.replicateInit]) "01K" 6 []
  exact ⟨a, leader', result, follower', f', f'', hrun, hresult⟩

end Sample

end Scrap
