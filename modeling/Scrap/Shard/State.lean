/-
# The state of one Shard on one Member

A Shard is the Projection, the Block files in its directory, the open Block with its writer, the
prep files of the Openlog and the table of proposals that wait for their command to be applied. The
files of one Block ID are one record, `BlockFiles`:

    Hot          .blk and .idx
    evicted      .idx and the eviction marker, no .blk
    quarantined  .blk.quarantine and .idx.quarantine

Methods that can fail run in `ShardM`: an error keeps every effect the method had before it.
-/
import Scrap.Lib.Fallible
import Scrap.Block.Verify
import Scrap.Index.Resolution

namespace Scrap

open Block

structure CommitDocument where
  transactionID : String
  documentName : String
  contentType : String
  blockID : UInt64
  firstFrameOff : UInt64
  frameCount : UInt32
  totalBytes : Int
  sha256 : List UInt8
  createdAtUs : Int
  encryptionEnvelope : List UInt8
  proposalID : String
deriving DecidableEq

structure OpenlogEntry where
  writeID : String
  transactionID : String
  documentName : String
  blockID : UInt64
  startOffset : UInt64
  contentType : String
deriving DecidableEq

/-- The record that an eviction leaves in place of the `.blk`. -/
structure EvictionMarker where
  version : Nat
  blockID : UInt64
  backendKey : String
  sizeBytes : Int
  validationToken : String
  evictedAtUs : Int
  trigger : String
  reason : String
deriving DecidableEq

structure BlockFiles where
  blk : Option BlkFile
  idx : Option IdxFile
  blkQuarantine : Option BlkFile
  idxQuarantine : Option IdxFile
  /-- `.blk.eviction.json` -/
  evictionMarker : Option EvictionMarker
  /-- `.confirmed-upload.json` -/
  confirmedUploadAuthority : Option ConfirmedUpload
deriving DecidableEq

def BlockFiles.absent : BlockFiles := ⟨none, none, none, none, none, none⟩

/-- What a Shard method can return; one constructor for each place that builds an error. -/
inductive ShardErr where
  /-- `ErrDataLoss: projection transaction %s` -/
  | projectionTransaction (txID : String) (err : IndexErr)
  /-- `ErrDataLoss: projection transaction %s has no block IDs` -/
  | noBlockIDs (txID : String)
  /-- `ErrAlreadyExists: immutable document conflict` -/
  | duplicateDocumentConflict
  /-- `ErrDataLoss: corrupt duplicate document metadata` -/
  | corruptDuplicateMetadata
  /-- `ErrDataLoss: commit document SHA-256 length %d` -/
  | sha256Length (n : Nat)
  /-- `get index` -/
  | getIndex (err : IndexErr)
  /-- `add block id` -/
  | addBlockID (err : IndexErr)
  /-- `increment doc count` -/
  | incrementDocCount (err : IndexErr)
  /-- `open historical read idx` -/
  | openHistoricalReadIdx (err : IdxErr)
  /-- `repair historical read idx` and `repair historical write idx` -/
  | repairHistoricalIdx (err : IdxErr)
  /-- `apply write idx` -/
  | applyWriteIdx (err : IdxErr)
  /-- `open historical write idx` -/
  | openHistoricalWriteIdx (err : IdxErr)
  /-- `append historical write idx` -/
  | appendHistoricalWriteIdx (err : IdxErr)
  /-- `stat historical block for upload` -/
  | statHistoricalBlock
  /-- `get pending upload size for requeue` -/
  | pendingUploadSize (err : UploadErr)
  /-- `get confirmed upload size for requeue` -/
  | confirmedUploadSize (err : UploadErr)
  /-- `requeue historical block upload` -/
  | requeueBlockUpload (err : UploadErr)
  /-- any other error of the upload tables -/
  | upload (err : UploadErr)
  /-- `ErrMarkerInvalid: committed ConfirmUpload %s` -/
  | confirmAuthority (field : String)
  /-- an error of the Block writer -/
  | writer (err : WriterErr)
  /-- `mapProjectionResolutionError` -/
  | projectionResolution (err : ResolveErr)
  /-- `prep %s: start offset %d overflows int64` -/
  | prepStartOffset (writeID : String) (startOffset : UInt64)
  /-- `open block index` -/
  | openBlockIndex (err : IdxErr)
  /-- `stale replication term %d, current %d` -/
  | staleReplicationTerm (term current : UInt64)
  /-- `replication leader %d, current leader %d` -/
  | replicationLeader (leaderID current : UInt64)
  /-- `replica block transition %d -> %d is not protocol-valid` -/
  | replicaBlockTransition (current target : UInt64)
  /-- `replica block %d is ahead of target block %d` -/
  | replicaBlockAhead (current target : UInt64)
  /-- `replica block %d is ahead of target block %d and is not empty` -/
  | replicaBlockNotEmpty (current target : UInt64)
  /-- `reopen replica block %d`; `none` when there is no `.blk` -/
  | reopenReplicaBlock (blockID : UInt64) (err : Option WriterErr)
  /-- `reopen replica index %d` -/
  | reopenReplicaIndex (blockID : UInt64)
  /-- `replica block %d is not open` -/
  | replicaBlockNotOpen (blockID : UInt64)
  /-- `replica offset %d, want %d: repair failed` -/
  | replicaRepairFailed (offset want : Nat)
  /-- `replica overhang past offset %d holds indexed documents` -/
  | replicaOverhangIndexed (want : Nat)
  /-- `replica rollback offset %d is not a document boundary`, or the scan fails -/
  | replicaRollbackNotBoundary (want : Nat)
  /-- `replica offset %d, want %d` -/
  | replicaOffset (offset want : Nat)
  /-- an encrypted payload that does not fit its envelope -/
  | replicatedPayload
  /-- `key material unavailable` -/
  | cryptoUnavailable
  /-- `replicated first frame offset`, `frame count`, `size` or `SHA-256` differs -/
  | replicatedMismatch (field : String)
  /-- `ErrDataLoss: invalid rewrap command` -/
  | rewrapCommand
  /-- an envelope that does not parse -/
  | rewrapEnvelope
  /-- an error of the `.idx` that a rewrap reads or rewrites -/
  | rewrapIndex (err : IdxErr)
  /-- `ErrStaleEnvelope` -/
  | staleEnvelope
  /-- `quarantine blk`: there is no `.blk` to rename -/
  | quarantineBlk
  /-- `not quarantined` -/
  | notQuarantined
  /-- `unquarantine: %s already exists` -/
  | unquarantineExists (ext : String)
  /-- the Shard has no open Block -/
  | noBlockWriter
  /-- `append first frame offset %d, want %d` -/
  | appendOffset (got want : Nat)
deriving DecidableEq

structure Shard where
  shardID : UInt64
  uploadEnabled : Bool
  idx : Index
  blocks : UInt64 → BlockFiles
  /-- the writer of the open Block; its `.idx` is open with it -/
  blockWriter : Option Writer
  nextBlockID : UInt64
  openlog : List OpenlogEntry
  /-- the channel that waits under each proposal key -/
  proposals : String → Option Nat
  /-- what was sent on each channel: `some none` is a nil error -/
  channels : Nat → Option (Option ShardErr)

abbrev ShardM := EStateM ShardErr Shard

def Shard.setBlock (s : Shard) (blockID : UInt64) (files : BlockFiles) : Shard :=
  { s with blocks := Function.update s.blocks blockID files }

def Shard.setIdx (s : Shard) (blockID : UInt64) (f : IdxFile) : Shard :=
  s.setBlock blockID { s.blocks blockID with idx := some f }

def Shard.isOpen (s : Shard) (blockID : UInt64) : Bool :=
  match s.blockWriter with
  | none => false
  | some w => w.blockID = blockID

def maxInt64 : Nat := 2 ^ 63 - 1

/-- Clamp at the largest `int64`. -/
def safeUint64ToInt64 (v : UInt64) : Nat := if maxInt64 < v.toNat then maxInt64 else v.toNat

/-! ## Opening Blocks -/

/-- Both files are created empty under the next Block ID. -/
def Shard.openNewBlock (s : Shard) : Shard :=
  let id := s.nextBlockID
  { s with
    nextBlockID := id + 1
    blocks := Function.update s.blocks id
      { s.blocks id with blk := some newBlkFile, idx := some newIndexFile }
    blockWriter := some (newWriter id) }

/-- An empty directory; the scan of it gives `1` as the next Block ID. -/
def Shard.emptyDir (shardID : UInt64) (uploadEnabled : Bool) : Shard where
  shardID := shardID
  uploadEnabled := uploadEnabled
  idx := .empty
  blocks := fun _ => .absent
  blockWriter := none
  nextBlockID := 1
  openlog := []
  proposals := fun _ => none
  channels := fun _ => none

def Shard.fresh (shardID : UInt64) (uploadEnabled : Bool) : Shard :=
  (Shard.emptyDir shardID uploadEnabled).openNewBlock

/-! ## Frame lemmas of the updates -/

section Frame

variable (s : Shard) (b : UInt64)

@[simp] theorem Shard.setIdx_idx (f : IdxFile) : (s.setIdx b f).idx = s.idx := rfl

@[simp] theorem Shard.setIdx_blocks_self (f : IdxFile) :
    (s.setIdx b f).blocks b = { s.blocks b with idx := some f } := by
  simp [Shard.setIdx, Shard.setBlock]

theorem Shard.setIdx_blocks_of_ne {c : UInt64} (f : IdxFile) (h : c ≠ b) :
    (s.setIdx b f).blocks c = s.blocks c := by
  simp [Shard.setIdx, Shard.setBlock, h]

end Frame

end Scrap
