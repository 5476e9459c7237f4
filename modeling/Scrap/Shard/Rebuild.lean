/-
# The rebuild of the Projection

A rebuild makes a new Projection from the files of the blocks directory and swaps it for the live
one:

    bulk      without the apply lock: every `.idx`, one Block after the other in ascending
              order, each of its records counted for its Transaction (`Bulk.readBlock`)
    finalize  under the apply lock: the records the `.idx` files have gained since they were
              read (`applyBlockIndexDelta`), then the upload tables of the closed Blocks
              (`rebuildUploadOutbox`)

A Block in quarantine has no `.idx` by that name and is not read. A failed phase leaves the live
Projection alone, so the phases are functions of the live Shard to a new `Index`.

Left out: the content-safety records, which are copied, and the restore markers, which no phase
reads. The confirmed uploads that the Shard remembers in memory are those of the authority files.
-/
import Mathlib.Data.List.Sort
import Scrap.Shard.Projection

namespace Scrap

open Block

/-- Why a rebuild fails; one constructor for each place that builds the error. -/
inductive RebuildErr where
  /-- `rebuild refuses Block %d index without companion .blk` -/
  | withoutBlk (blockID : UInt64)
  /-- `open block index %d` -/
  | openBlockIndex (blockID : UInt64) (err : IdxErr)
  /-- `rebuild projection %s/%s` -/
  | projection (txID docName : String) (err : ShardErr)
  /-- `rebuild pending upload %d current outbox` -/
  | currentOutbox (blockID : UInt64) (err : UploadErr)
  /-- `rebuild pending upload %d committed ConfirmUpload` -/
  | committedConfirmUpload (blockID : UInt64) (err : ConfirmErr)
  /-- `rebuild pending upload %d` -/
  | pendingUpload (blockID : UInt64) (err : UploadErr)
  /-- `rebuild confirmed upload %d` -/
  | confirmedUpload (blockID : UInt64) (err : UploadErr)
  /-- `rebuild pending upload %d missing sealed Block metadata` -/
  | missingSealedBlock (blockID : UInt64)
  /-- `rebuild pending upload %d classify local lifecycle` -/
  | classifyLifecycle (blockID : UInt64) (field : String)
  /-- `evicted Block missing committed ConfirmUpload` -/
  | evictedWithoutConfirm (blockID : UInt64)
  /-- `Block %d restore authority mismatch` -/
  | restoreAuthority (blockID : UInt64) (field : String)
deriving DecidableEq

/-! ## The local lifecycle of a Block -/

def markerVersion : Nat := 1

/-- The error is the first field that does not pass. -/
def validateEvictionMarker (marker : EvictionMarker) (blockID : UInt64) : Except String Unit :=
  if marker.version ≠ markerVersion then .error "version"
  else if marker.blockID ≠ blockID ∨ marker.blockID = 0 then .error "block_id"
  else if marker.backendKey = "" then .error "backend_key"
  else if marker.sizeBytes < 0 then .error "size_bytes"
  else if marker.validationToken = "" then .error "validation_token"
  else if marker.evictedAtUs ≤ 0 then .error "evicted_at_us"
  else if marker.trigger = "" then .error "trigger"
  else if marker.reason = "" then .error "reason"
  else .ok ()

inductive LifecycleState where
  | hot
  | evicted
  | hotCleanupNeeded
  | metadataLoss
  | unexpectedLoss
deriving DecidableEq

structure Lifecycle where
  state : LifecycleState
  evictionMarker : Option EvictionMarker
deriving DecidableEq

def classifyState (blkExists : Bool) (marker : Option EvictionMarker) : Lifecycle :=
  match blkExists, marker.isSome with
  | true, true => ⟨.hotCleanupNeeded, marker⟩
  | true, false => ⟨.hot, marker⟩
  | false, true => ⟨.evicted, marker⟩
  | false, false => ⟨.unexpectedLoss, marker⟩

/-- The error is the field of an invalid marker. -/
def BlockFiles.classify (files : BlockFiles) (blockID : UInt64) : Except String Lifecycle :=
  if files.idx.isNone then .ok ⟨.metadataLoss, none⟩
  else
    match files.evictionMarker with
    | none => .ok (classifyState files.blk.isSome none)
    | some marker =>
      match validateEvictionMarker marker blockID with
      | .error field => .error field
      | .ok () => .ok (classifyState files.blk.isSome (some marker))

/-- The marker names the confirmed object. -/
def validateRestoreAuthority (confirmed : ConfirmedUpload) (lifecycle : Lifecycle) :
    Except String Unit :=
  match lifecycle.evictionMarker with
  | none => .error "marker"
  | some marker =>
    if marker.backendKey ≠ confirmed.blockObject.key then .error "backend key"
    else if marker.sizeBytes ≠ confirmed.blockObject.sizeBytes then .error "size"
    else if marker.validationToken ≠ confirmed.blockObject.validationToken then
      .error "validation token"
    else .ok ()

/-! ## The Transaction records -/

/-- The Block IDs of the `.idx` files in the directory `dir`, ascending. -/
def listBlockIndexIDs (dir : List UInt64) : List UInt64 := dir.insertionSort (· ≤ ·)

def Shard.IndexDir (s : Shard) (dir : List UInt64) : Prop :=
  dir.Nodup ∧ ∀ b, b ∈ dir ↔ (s.blocks b).idx.isSome

/-- The header of a `.blk` is intact. -/
def Shard.requireRebuildBlockAuthority (s : Shard) (blockID : UInt64) : Except RebuildErr Unit :=
  if (s.blocks blockID).blk.isNone then .error (.withoutBlk blockID) else .ok ()

def Shard.readBlockIndexEntries (s : Shard) (blockID : UInt64) :
    Except RebuildErr (List IndexEntry) :=
  match openIndexReader (s.blocks blockID).idx with
  | .error err => .error (.openBlockIndex blockID err)
  | .ok entries => .ok entries

/-- Count the records of one Block, in file order. -/
def Index.addProjectionDocuments (projection : Index) (blockID : UInt64) :
    List IndexEntry → Except RebuildErr Index
  | [] => .ok projection
  | e :: entries =>
    match projection.addProjectionDocument e.transactionID blockID with
    | (.error err, _) => .error (.projection e.transactionID e.docName err)
    | (.ok (), projection) => projection.addProjectionDocuments blockID entries

/-- The bulk phase so far: the new Projection and, for each Block read, the number of its records.
-/
structure Bulk where
  projection : Index
  seenEntries : UInt64 → Option Nat

def Bulk.start : Bulk := ⟨.empty, fun _ => none⟩

/-- The body of the loop of `rebuildProjectionInto`. -/
def Bulk.readBlock (bulk : Bulk) (s : Shard) (blockID : UInt64) : Except RebuildErr Bulk :=
  match s.requireRebuildBlockAuthority blockID with
  | .error err => .error err
  | .ok () =>
    match s.readBlockIndexEntries blockID with
    | .error err => .error err
    | .ok entries =>
      match bulk.projection.addProjectionDocuments blockID entries with
      | .error err => .error err
      | .ok projection => .ok ⟨projection,
          Function.update bulk.seenEntries blockID (some entries.length)⟩

/-- The loop of `rebuildProjectionInto`, on a Shard that applies nothing meanwhile. -/
def Shard.rebuildProjectionInto (s : Shard) : Bulk → List UInt64 → Except RebuildErr Bulk
  | bulk, [] => .ok bulk
  | bulk, b :: blockIDs =>
    match bulk.readBlock s b with
    | .error err => .error err
    | .ok bulk => s.rebuildProjectionInto bulk blockIDs

/-- The records behind those the bulk phase has counted. -/
def Shard.applyBlockIndexDelta (s : Shard) (seenEntries : UInt64 → Option Nat) :
    Index → List UInt64 → Except RebuildErr Index
  | projection, [] => .ok projection
  | projection, b :: blockIDs =>
    match if (seenEntries b).isNone then s.requireRebuildBlockAuthority b else .ok () with
    | .error err => .error err
    | .ok () =>
      match s.readBlockIndexEntries b with
      | .error err => .error err
      | .ok entries =>
        match projection.addProjectionDocuments b
            (entries.drop ((seenEntries b).getD 0)) with
        | .error err => .error err
        | .ok projection => s.applyBlockIndexDelta seenEntries projection blockIDs

/-! ## The upload tables -/

structure FileInfo where
  size : Int
  modTimeUs : Int
deriving DecidableEq

/-- The evidence of one Block's files; no `statInfo` means there is no `.blk`. -/
structure RebuildBlockFS where
  statInfo : Option FileInfo
  lifecycle : Except String Lifecycle

/-- `snapshotBlockFS`, when the `.blk` of each Block was last written at `modTimeUs`. -/
def Shard.snapshotBlockFS (s : Shard) (modTimeUs : UInt64 → Int) (blockID : UInt64) :
    RebuildBlockFS :=
  ⟨(s.blocks blockID).blk.map (fun f => ⟨f.size, modTimeUs blockID⟩),
    (s.blocks blockID).classify blockID⟩

def Shard.currentOpenBlockID (s : Shard) : UInt64 :=
  match s.blockWriter with
  | none => 0
  | some w => w.blockID

def Shard.pendingUploadForRebuild (s : Shard) (blockID : UInt64) :
    Except RebuildErr (Option PendingUpload) :=
  match s.idx.getPendingUpload blockID with
  | .ok pending => .ok (some pending)
  | .error .pendingNotFound => .ok none
  | .error err => .error (.currentOutbox blockID err)

/-- The authority file, which is checked again. -/
def Shard.committedUploadAuthorityForRebuild (s : Shard) (blockID : UInt64) :
    Except RebuildErr (Option ConfirmedUpload) :=
  match (s.blocks blockID).confirmedUploadAuthority with
  | none => .ok none
  | some u =>
    if u.blockID ≠ blockID then
      .error (.committedConfirmUpload blockID (.authorityInvalid "block_id"))
    else
      match validateConfirmedUploadAuthorityRecord u with
      | .error err => .error (.committedConfirmUpload blockID err)
      | .ok () => .ok (some u)

def shouldPreservePendingUploadForRebuild :
    Option PendingUpload → Option ConfirmedUpload → Bool
  | none, _ => false
  | some _, none => true
  | some pending, some confirmed => confirmed.uploadGeneration < pending.uploadGeneration

def shouldRebuildConfirmedUploadAuthority (blockID : UInt64) (lifecycle : Lifecycle) :
    Option ConfirmedUpload → Except RebuildErr Bool
  | none =>
    if lifecycle.state = .evicted then .error (.evictedWithoutConfirm blockID) else .ok false
  | some confirmed =>
    match lifecycle.state with
    | .evicted =>
      match validateRestoreAuthority confirmed lifecycle with
      | .error field => .error (.restoreAuthority blockID field)
      | .ok () => .ok true
    | .hot | .hotCleanupNeeded => .ok true
    | .metadataLoss | .unexpectedLoss => .ok false

def putPendingUploadForRebuild (projection : Index) (upload : PendingUpload) :
    Except RebuildErr Index :=
  match projection.putPendingUpload upload with
  | .error err => .error (.pendingUpload upload.blockID err)
  | .ok projection => .ok projection

def putConfirmedUploadForRebuild (projection : Index) (blockID : UInt64)
    (confirmed : ConfirmedUpload) : Except RebuildErr Index :=
  match projection.putConfirmedUpload confirmed with
  | .error err => .error (.confirmedUpload blockID err)
  | .ok projection => .ok projection

/-- `none` stands for `false`. -/
def Shard.rebuildLocalConfirmedUploadAuthority (s : Shard) (projection : Index)
    (blockID : UInt64) (fs : RebuildBlockFS) : Except RebuildErr (Option Index) :=
  match fs.lifecycle with
  | .error field => .error (.classifyLifecycle blockID field)
  | .ok lifecycle =>
    match s.committedUploadAuthorityForRebuild blockID with
    | .error err => .error err
    | .ok confirmed =>
      match shouldRebuildConfirmedUploadAuthority blockID lifecycle confirmed, confirmed with
      | .error err, _ => .error err
      | .ok true, some confirmed =>
        match putConfirmedUploadForRebuild projection blockID confirmed with
        | .error err => .error err
        | .ok projection => .ok (some projection)
      | .ok _, _ => .ok none

def Shard.rebuildPendingUpload (s : Shard) (projection : Index) (blockID : UInt64)
    (fs : RebuildBlockFS) : Except RebuildErr Index :=
  match fs.statInfo with
  | some info =>
    match s.pendingUploadForRebuild blockID with
    | .error err => .error err
    | .ok pending =>
      match s.committedUploadAuthorityForRebuild blockID with
      | .error err => .error err
      | .ok confirmed =>
        match shouldPreservePendingUploadForRebuild pending confirmed, pending, confirmed with
        | true, some pending, _ => putPendingUploadForRebuild projection pending
        | _, _, some confirmed => putConfirmedUploadForRebuild projection blockID confirmed
        | _, _, none => putPendingUploadForRebuild projection
            ⟨blockID, s.shardID, info.size, info.modTimeUs, 0⟩
  | none =>
    match s.rebuildLocalConfirmedUploadAuthority projection blockID fs with
    | .error err => .error err
    | .ok (some projection) => .ok projection
    | .ok none => .error (.missingSealedBlock blockID)

/-- One round: with uploads `rebuildPendingUpload`, without them only the confirmed upload
(`rebuildCommittedUploadAuthorities`). -/
def Shard.rebuildUploadsOf (s : Shard) (projection : Index) (blockID : UInt64)
    (fs : RebuildBlockFS) : Except RebuildErr Index :=
  if s.uploadEnabled then s.rebuildPendingUpload projection blockID fs
  else
    match s.rebuildLocalConfirmedUploadAuthority projection blockID fs with
    | .error err => .error err
    | .ok projection' => .ok (projection'.getD projection)

/-- Every Block but the open one. -/
def Shard.rebuildUploadOutbox (s : Shard) (fsState : UInt64 → RebuildBlockFS) :
    Index → List UInt64 → Except RebuildErr Index
  | projection, [] => .ok projection
  | projection, b :: blockIDs =>
    if b = s.currentOpenBlockID then s.rebuildUploadOutbox fsState projection blockIDs
    else
      match s.rebuildUploadsOf projection b (fsState b) with
      | .error err => .error err
      | .ok projection => s.rebuildUploadOutbox fsState projection blockIDs

/-! ## The rebuild -/

/-- `finalizeRebuildLocked`, with the evidence of the files, of the bulk phase or collected now. -/
def Shard.finalizeRebuild (s : Shard) (fsState : UInt64 → RebuildBlockFS) (bulk : Bulk)
    (dir : List UInt64) : Except RebuildErr Index :=
  match s.applyBlockIndexDelta bulk.seenEntries bulk.projection (listBlockIndexIDs dir) with
  | .error err => .error err
  | .ok projection => s.rebuildUploadOutbox fsState projection (listBlockIndexIDs dir)

/-- `doRebuild` up to the swap, on a Shard that applies nothing meanwhile. -/
def Shard.rebuildProjection (s : Shard) (modTimeUs : UInt64 → Int) (dir : List UInt64) :
    Except RebuildErr Index :=
  match s.rebuildProjectionInto .start (listBlockIndexIDs dir) with
  | .error err => .error err
  | .ok bulk => s.finalizeRebuild (s.snapshotBlockFS modTimeUs) bulk dir

end Scrap
