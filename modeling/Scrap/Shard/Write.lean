/-
# WriteDocument

A call holds the write order of its Shard from start to end, but the Shard lock only while it looks
for a duplicate and while it appends. Replication, the proposal and the wait for the apply run
without it, and an abort takes it again. The call is therefore modelled as the parts that run under
the lock:

    admitWrite      the duplicate check and, when the open Block is full, a new Block
                    (its SealBlock is proposed with the lock released)
    appendWrite     the prep file and the Frames
    abortWriteAttempt, resolveCommitApplyFailure, complete
                    the ends of a call whose Frames were written
-/
import Scrap.Shard.Apply
import Scrap.Shard.Replication

namespace Scrap

open Block

/-- The arguments of a call that passed the metadata checks. -/
structure WriteRequest where
  txID : String
  docName : String
  contentType : String
  body : Body
deriving DecidableEq

structure WriteResult where
  sha256 : Digest
  size : Int
  createdAtUs : Int
deriving DecidableEq

/-- What an encryptor makes of the body: the ciphertext Frames and, from `Finalize`, the plaintext
digest and size and the envelope. -/
structure Encryptor where
  frames : FrameSource
  info : Option (Digest × Int × List UInt8)
deriving DecidableEq

/-! ## The duplicate check -/

def duplicateDocumentMatches (contentType : String) (sum : Digest) (size : Int)
    (existing : IndexEntry) : Bool :=
  existing.contentType = contentType ∧ existing.totalBytes = size ∧ existing.sha256 = sum

def classifyDuplicateDocumentWrite (c : Crypto) (req : WriteRequest) (existing : IndexEntry) :
    Except ShardErr WriteResult :=
  if req.body.fails then .error (.writer .readBody)
  else if duplicateDocumentMatches req.contentType (c.sha256 req.body.bytes)
      req.body.bytes.length existing then
    .ok ⟨existing.sha256, existing.totalBytes, existing.createdAtUs⟩
  else .error .duplicateDocumentConflict

/-- The call up to the append: the result of an earlier write of the Document, or nothing and, if
the open Block has reached the seal size, a new Block. `allowed` is the outcome of
`ensureMetadataReadAllowed`, `pressure` that of the admission check after a seal. -/
def admitWrite (c : Crypto) (blockSealSize : Nat) (req : WriteRequest)
    (allowed pressure : Except ShardErr Unit) : ShardM (Option WriteResult) := do
  let s ← get
  match s.duplicateDocumentEntry req.txID req.docName with
  | .error err => throw err
  | .ok (some d) =>
    match allowed with
    | .error err => throw err
    | .ok () =>
      match classifyDuplicateDocumentWrite c req d.2 with
      | .error err => throw err
      | .ok result => pure (some result)
  | .ok none =>
    match s.blockWriter with
    | none => throw .noBlockWriter
    | some w =>
      if headerSize < w.offset ∧ blockSealSize ≤ w.offset then do
        set s.openNewBlock
        match pressure with
        | .error err => throw err
        | .ok () => pure none
      else pure none

/-! ## The append -/

/-- An `openlogWriteAttempt` and what the call keeps with it. -/
structure WriteAttempt where
  prep : OpenlogEntry
  startOffset : Nat
  result : AppendResult
  createdAtUs : Int
  envelope : List UInt8
deriving DecidableEq

def WriteAttempt.blockID (a : WriteAttempt) : UInt64 := a.prep.blockID

def WriteAttempt.commitCommand (a : WriteAttempt) : CommitDocument where
  transactionID := a.prep.transactionID
  documentName := a.prep.documentName
  contentType := a.prep.contentType
  blockID := a.prep.blockID
  firstFrameOff := UInt64.ofNat a.result.firstFrameOffset
  frameCount := a.result.frameCount
  totalBytes := a.result.size
  sha256 := a.result.sha256.val
  createdAtUs := a.createdAtUs
  encryptionEnvelope := a.envelope
  proposalID := a.prep.writeID

/-- `appendDocumentPayload`, on the open Block's writer and file: the result and the envelope. No
encryptor: the key material was not to be had. -/
def appendDocumentPayload (c : Crypto) (body : Body) (encryptor : Option Encryptor) (w : Writer)
    (f : BlkFile) : Except ShardErr (AppendResult × List UInt8) × Writer × BlkFile :=
  if !c.enabled then
    match w.appendDocument c.sha256 f body with
    | (.error err, w', f') => (.error (.writer err), w', f')
    | (.ok result, w', f') => (.ok (result, []), w', f')
  else
    match encryptor with
    | none => (.error .cryptoUnavailable, w, f)
    | some e =>
      match w.appendDocumentFrameSource f e.frames with
      | (.error err, w', f') => (.error (.writer err), w', f')
      | (.ok (firstOffset, frameCount), w', f') =>
        match e.info with
        | none => (.error .cryptoUnavailable, w', f')
        | some (sha256, size, envelope) =>
          (.ok (⟨sha256, size, frameCount, firstOffset⟩, envelope), w', f')

/-- `abortWriteAttemptLocked`: whichever Block is open is cut to the offset of the write, then the
prep goes. A Shard without writers is not left by a call. -/
def abortWriteAttempt (writeID : String) (startOffset : Nat) : ShardM Unit := do
  match (← get).blockWriter with
  | none => pure ()
  | some _ =>
    match ← truncateOpenBlock startOffset with
    | .error _ => pure ()
    | .ok () => modify (·.removePrep writeID)

/-- The call from the append to the release of the lock; `now` is the wall clock. -/
def appendWrite (c : Crypto) (req : WriteRequest) (encryptor : Option Encryptor)
    (writeID : String) (now : Int) : ShardM WriteAttempt := do
  let s ← get
  match s.blockWriter with
  | none => throw .noBlockWriter
  | some w =>
    match (s.blocks w.blockID).blk with
    | none => throw .noBlockWriter
    | some f => do
        let prep : OpenlogEntry := ⟨writeID, req.txID, req.docName, w.blockID,
          UInt64.ofNat w.offset, req.contentType⟩
        let s := s.beginWriteAttempt prep
        let (outcome, w', f') := appendDocumentPayload c req.body encryptor w f
        set { (s.setBlk w.blockID (some f')) with blockWriter := some w' }
        match outcome with
        | .error err => do
            abortWriteAttempt writeID w.offset
            throw err
        | .ok (result, envelope) =>
          if result.firstFrameOffset ≠ w.offset then do
            abortWriteAttempt writeID w.offset
            throw (.appendOffset result.firstFrameOffset w.offset)
          else pure ⟨prep, w.offset, result, now, envelope⟩

/-! ## The ends of a call -/

def Shard.installWaiter (s : Shard) (key : String) (ch : Nat) : Shard :=
  { s with proposals := Function.update s.proposals key (some ch) }

def Shard.dropWaiter (s : Shard) (key : String) : Shard :=
  { s with proposals := Function.update s.proposals key none }

/-- `ErrAlreadyExists` -/
def ShardErr.isAlreadyExists : ShardErr → Bool
  | .duplicateDocumentConflict => true
  | _ => false

/-- The Frames of a write that lost a conflict are reclaimed, any others kept. -/
def resolveCommitApplyFailure (a : WriteAttempt) (applyErr : ShardErr) : ShardM Unit :=
  if applyErr.isAlreadyExists then abortWriteAttempt a.prep.writeID a.startOffset
  else modify (·.removePrep a.prep.writeID)

def Shard.complete (s : Shard) (a : WriteAttempt) : Shard := s.removePrep a.prep.writeID

end Scrap
