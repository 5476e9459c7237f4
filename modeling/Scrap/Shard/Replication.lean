/-
# Byte replication on a follower

`appendReplicatedDocument` takes a leader's Document at the Block and offset the leader
chose. Before it appends, the follower moves to that Block and to that offset:

* one Block ahead with nothing in it: the previous Block is reopened and the empty one
  is removed;
* one Block behind: a new Block is opened;
* behind the offset: the Block is replaced by a peer's copy of it, cut at the offset;
* ahead of the offset: the Frames past it are rolled back, unless the `.idx` has an entry
  there or the offset splits a Document.
-/
import Scrap.Shard.Openlog

namespace Scrap

open Block

structure ReplicateDocumentInit where
  transactionID : String
  documentName : String
  contentType : String
  blockID : UInt64
  startOffset : UInt64
  frameCount : UInt32
  totalBytes : Int
  sha256 : List UInt8
  encryptionEnvelope : List UInt8
  leaderID : UInt64
  term : UInt64
deriving DecidableEq

structure RaftStatus where
  term : UInt64
  /-- `0` when unknown -/
  leaderID : UInt64
deriving DecidableEq

def validateReplicationFence (raft : RaftStatus) (init : ReplicateDocumentInit) :
    Except ShardErr Unit :=
  if init.leaderID = 0 ∧ init.term = 0 then .ok ()
  else if init.term < raft.term then .error (.staleReplicationTerm init.term raft.term)
  else if init.term = raft.term ∧ raft.leaderID ≠ 0 ∧ init.leaderID ≠ raft.leaderID then
    .error (.replicationLeader init.leaderID raft.leaderID)
  else .ok ()

/-! ## Moving to the leader's Block -/

/-- The Block with ID `current` is removed, and `bw` writes to the one before it. -/
def Shard.reopened (s : Shard) (current : UInt64) (bw : Writer) : Shard :=
  { (s.setBlock current { s.blocks current with blk := none, idx := none }) with
    blockWriter := some bw
    nextBlockID := current }

/-- `reopenPreviousReplicaBlockLocked` behind the open Block of `w`. The open Block's files are
removed; whether its `.idx` has records is not looked at. -/
def reopenPreviousReplicaBlock (w : Writer) (target : UInt64) : ShardM Unit := do
  let s ← get
  if w.blockID ≠ target + 1 then throw (.replicaBlockAhead w.blockID target)
  else if w.offset ≠ headerSize then throw (.replicaBlockNotEmpty w.blockID target)
  else
    match (s.blocks target).blk with
    | none => throw (.reopenReplicaBlock target none)
    | some f =>
      match openWriter f target with
      | .error err => throw (.reopenReplicaBlock target (some err))
      | .ok bw =>
        if (s.blocks target).idx.isNone then throw (.reopenReplicaIndex target)
        else set (s.reopened w.blockID bw)

theorem reopenPreviousReplicaBlock_ok {s s' : Shard} {w : Writer} {target : UInt64}
    (h : (reopenPreviousReplicaBlock w target).run s = .ok () s') :
    w.blockID = target + 1 ∧ w.offset = headerSize ∧ (s.blocks target).idx.isSome ∧
      ∃ f bw, (s.blocks target).blk = some f ∧ openWriter f target = .ok bw ∧
        s' = s.reopened w.blockID bw := by
  rw [reopenPreviousReplicaBlock, Fallible.get_bind] at h
  by_cases hnext : w.blockID = target + 1
  · rw [if_neg (not_not_intro hnext)] at h
    by_cases hoff : w.offset = headerSize
    · rw [if_neg (not_not_intro hoff)] at h
      cases hblk : (s.blocks target).blk with
      | none => simp [hblk] at h
      | some f => ?_
      cases hw : openWriter f target with
      | error err => simp [hblk, hw] at h
      | ok bw => ?_
      simp only [hblk, hw] at h
      split at h
      · cases h
      rename_i hidx
      refine ⟨hnext, hoff, ?_, f, bw, rfl, hw, ?_⟩
      · simpa [Option.isSome_iff_ne_none] using hidx
      · exact (EStateM.Result.ok.inj h).2.symm
    · simp [hoff] at h
  · simp [hnext] at h

theorem reopenPreviousReplicaBlock_error {s s' : Shard} {w : Writer} {target : UInt64}
    {err : ShardErr} (h : (reopenPreviousReplicaBlock w target).run s = .error err s') : s' = s := by
  rw [reopenPreviousReplicaBlock, Fallible.get_bind] at h
  split at h
  · exact (EStateM.Result.error.inj h).2.symm
  split at h
  · exact (EStateM.Result.error.inj h).2.symm
  cases hblk : (s.blocks target).blk with
  | none =>
    simp only [hblk] at h
    exact (EStateM.Result.error.inj h).2.symm
  | some f =>
    cases hw : openWriter f target with
    | error err =>
      simp only [hblk, hw] at h
      exact (EStateM.Result.error.inj h).2.symm
    | ok bw =>
      simp only [hblk, hw] at h
      split at h
      · exact (EStateM.Result.error.inj h).2.symm
      · cases h

/-- `advanceReplicaBlockLocked`. The next Block ID follows the open Block's, so the loop runs once.
-/
def advanceReplicaBlock (target : UInt64) : ShardM Unit := do
  let s ← get
  match s.blockWriter with
  | none => pure ()
  | some w =>
    if target < w.blockID then reopenPreviousReplicaBlock w target
    else if w.blockID < target then
      if target ≠ w.blockID + 1 then throw (.replicaBlockTransition w.blockID target)
      else set s.openNewBlock
    else pure ()

/-! ## Moving to the leader's offset -/

/-- A peer's `.blk` and `.idx`, as `TransferBlockToFiles` stages them. -/
structure StagedBlock where
  blk : BlkFile
  idx : IdxFile
deriving DecidableEq

/-- The peer has the offset, its `.idx` no entry at or past it, and the cut Block verifies. -/
def prepareReplicaRepairStaging (c : Crypto) (staged : StagedBlock) (want : Nat) :
    Option StagedBlock :=
  if staged.blk.size < want then none
  else
    match openIndexReader (some staged.idx) with
    | .error _ => none
    | .ok entries =>
      if entries.any (fun e => want ≤ e.firstFrameOff) then none
      else
        let blk := if want < staged.blk.size then staged.blk.truncate want else staged.blk
        match verifyBlock c (some blk) (some staged.idx) with
        | .error _ => none
        | .ok result => if result.corruptFrames = [] then some ⟨blk, staged.idx⟩ else none

/-- Install files under the open writers. A Block that does not scan leaves the Shard without
writers. -/
def Shard.reopenReplicaWritersBestEffort (s : Shard) (blockID : UInt64) : Shard :=
  match (s.blocks blockID).blk with
  | none => { s with blockWriter := none }
  | some f =>
    match openWriter f blockID with
    | .error _ => { s with blockWriter := none }
    | .ok bw =>
      if (s.blocks blockID).idx.isNone then { s with blockWriter := none }
      else { s with blockWriter := some bw }

/-- `promoteReplicaRepairLocked` of staged files at `now`; `true` when the repair succeeded. -/
def promoteReplicaRepair (blockID : UInt64) (want : Nat) (staged : StagedBlock) (now : Int) :
    ShardM Bool := do
  let s ← get
  let s' := s.setBlock blockID
    { s.blocks blockID with blk := some staged.blk, idx := some staged.idx }
  match openWriter staged.blk blockID with
  | .error _ => do
      set (s'.reopenReplicaWritersBestEffort blockID)
      pure false
  | .ok bw =>
    if bw.offset ≠ want then do
      set (s'.reopenReplicaWritersBestEffort blockID)
      pure false
    else do
      set { s' with blockWriter := some bw }
      try
        requeueBlockUploadAfterIndexAppend blockID now
        pure true
      catch _ =>
        modify (·.reopenReplicaWritersBestEffort blockID)
        pure false

/-- The loop of `repairReplicaOffsetLocked` over the peers' copies; `none` is a failed
transfer. -/
def repairFromPeers (c : Crypto) (blockID : UInt64) (want : Nat) (now : Int) :
    List (Option StagedBlock) → ShardM Bool
  | [] => pure false
  | none :: rest => repairFromPeers c blockID want now rest
  | some staged :: rest =>
    match prepareReplicaRepairStaging c staged want with
    | none => repairFromPeers c blockID want now rest
    | some ready => do
        if ← promoteReplicaRepair blockID want ready now then pure true
        else repairFromPeers c blockID want now rest

def repairReplicaOffset (c : Crypto) (blockID : UInt64) (want : Nat) (now : Int)
    (peers : List (Option StagedBlock)) : ShardM Bool :=
  if want < headerSize then pure false else repairFromPeers c blockID want now peers

/-- The scan of `replicaRollbackTargetIsDocumentBoundary`: the Frame at `want` starts a Document.
`false` also for a scan that fails. -/
def startsDocumentAt : Nat → Nat → List Frame → Bool
  | _, _, [] => false
  | offset, want, f :: fs =>
    if offset < want then startsDocumentAt (offset + f.size) want fs
    else offset = want ∧ f.frameSeq = 0

theorem startsDocumentAt_iff {want : Nat} : ∀ {frames : List Frame} {pos : Nat},
    startsDocumentAt pos want frames = true ↔
      ∃ fs g gs, frames = fs ++ g :: gs ∧ pos + framesSize fs = want ∧ g.frameSeq = 0
  | [], pos => by simp [startsDocumentAt]
  | f :: frames, pos => by
    have hsize := f.size_pos
    rw [startsDocumentAt]
    split
    · next hpos =>
        rw [startsDocumentAt_iff]
        constructor
        · rintro ⟨fs, g, gs, rfl, hsize, hg⟩
          exact ⟨f :: fs, g, gs, rfl, by rw [framesSize_cons]; omega, hg⟩
        rintro ⟨_ | ⟨f', fs⟩, g, gs, hframes, hsize, hg⟩
        · exact absurd hsize (Nat.ne_of_lt hpos)
        · cases hframes
          exact ⟨fs, g, gs, rfl, by rw [framesSize_cons] at hsize; omega, hg⟩
    · next hpos =>
        rw [decide_eq_true_iff]
        constructor
        · rintro ⟨hat, hseq⟩
          exact ⟨[], f, frames, rfl, hat, hseq⟩
        rintro ⟨_ | ⟨f', fs⟩, g, gs, hframes, hsize, hg⟩
        · obtain ⟨rfl, -⟩ := List.cons.inj hframes
          exact ⟨hsize, hg⟩
        · obtain ⟨rfl, -⟩ := List.cons.inj hframes
          rw [framesSize_cons] at hsize
          omega

def rollbackReplicaOverhang (blockID : UInt64) (want : Nat) (w : Writer) : ShardM Unit := do
  let s ← get
  match s.blockIndexHasEntryAtOrPast blockID want with
  | .error err => throw err
  | .ok true => throw (.replicaOverhangIndexed want)
  | .ok false =>
    match (s.blocks blockID).blk with
    | none => throw (.replicaRollbackNotBoundary want)
    | some f =>
      if !startsDocumentAt headerSize want f.frames then
        throw (.replicaRollbackNotBoundary want)
      else
        match w.truncate f want with
        | (.error err, w', f') => do
            set { (s.setBlk blockID (some f')) with blockWriter := some w' }
            throw (.writer err)
        | (.ok (), w', f') =>
          set ({ (s.setBlk blockID (some f')) with
            blockWriter := some w' }.removeOverhangPreps blockID want)

/-- The second half of `ensureReplicaAppendOffsetLocked`: an overhang is rolled back. -/
def trimReplicaOverhang (blockID : UInt64) (want : Nat) : ShardM Unit := do
  match (← get).blockWriter with
  | none => throw (.replicaBlockNotOpen blockID)
  | some w' =>
    if want < w'.offset then rollbackReplicaOverhang blockID want w'
    match (← get).blockWriter with
    | none => throw (.replicaBlockNotOpen blockID)
    | some w'' => if w''.offset ≠ want then throw (.replicaOffset w''.offset want)

/-- `ensureReplicaAppendOffsetLocked`: a Block that is short of the offset is repaired. -/
def ensureReplicaAppendOffset (c : Crypto) (blockID : UInt64) (want : Nat) (now : Int)
    (peers : List (Option StagedBlock)) (w : Writer) : ShardM Unit := do
  if w.offset < want then
    if !(← repairReplicaOffset c blockID want now peers) then
      throw (.replicaRepairFailed w.offset want)
  trimReplicaOverhang blockID want

/-! ## Appending -/

/-- `beginOpenlogWriteAttempt`: the prep file, under a new ULID. -/
def Shard.beginWriteAttempt (s : Shard) (prep : OpenlogEntry) : Shard :=
  { s with openlog := s.openlog ++ [prep] }

/-- `splitReplicatedStoredFrames`, with the payloads of `frameCount` Frames. -/
def splitReplicatedStoredFrames (data : List UInt8) : Nat → Option (List (List UInt8))
  | 0 => if data = [] then some [] else none
  | 1 => if maxFramePayload < data.length then none else some [data]
  | n + 2 =>
    if data.length < maxFramePayload then none
    else
      (splitReplicatedStoredFrames (data.drop maxFramePayload) (n + 1)).map
        (data.take maxFramePayload :: ·)

/-- A Document has at most 128 MiB. -/
def maxReplicatedFrameCount : Nat := 128 * 1024 * 1024 / maxFramePayload + 1

/-- The checks of `appendReplicatedPayload` on an encrypted Document, before it appends. -/
def replicatedFrames (c : Crypto) (init : ReplicateDocumentInit) (body : Body) :
    Except ShardErr DocumentFrames :=
  match c.parseEnvelope init.encryptionEnvelope with
  | none => .error .replicatedPayload
  | some envelope =>
    if body.fails then .error (.writer .readBody)
    else if (body.bytes.length : Int) ≠ envelope.ciphertextLength then .error .replicatedPayload
    else if h : init.sha256.length = 32 then
      if maxReplicatedFrameCount < init.frameCount.toNat then .error .replicatedPayload
      else
        match splitReplicatedStoredFrames body.bytes init.frameCount.toNat with
        | none => .error .replicatedPayload
        | some frames =>
          if !c.enabled then .error .cryptoUnavailable
          else if !c.verifies init.transactionID init.documentName init.encryptionEnvelope
              ⟨init.sha256, h⟩ init.totalBytes frames then .error .replicatedPayload
          else .ok ⟨frames, ⟨init.sha256, h⟩, init.totalBytes⟩
    else .error (.sha256Length init.sha256.length)

/-- `appendReplicatedPayload`, on the open Block's writer and file. -/
def appendReplicatedPayload (c : Crypto) (init : ReplicateDocumentInit) (body : Body)
    (w : Writer) (f : BlkFile) : Except ShardErr AppendResult × Writer × BlkFile :=
  if init.encryptionEnvelope = [] then
    match w.appendDocument c.sha256 f body with
    | (.error err, w', f') => (.error (.writer err), w', f')
    | (.ok result, w', f') => (.ok result, w', f')
  else
    match replicatedFrames c init body with
    | .error err => (.error err, w, f)
    | .ok d =>
      match w.appendDocumentFrames f d with
      | (.error err, w', f') => (.error (.writer err), w', f')
      | (.ok result, w', f') => (.ok result, w', f')

def validateReplicatedAppend (init : ReplicateDocumentInit) (result : AppendResult)
    (want : Nat) : Except ShardErr Unit :=
  if result.firstFrameOffset ≠ want then .error (.replicatedMismatch "first frame offset")
  else if result.frameCount ≠ init.frameCount then .error (.replicatedMismatch "frame count")
  else if result.size ≠ init.totalBytes then .error (.replicatedMismatch "size")
  else if result.sha256.val ≠ init.sha256 then .error (.replicatedMismatch "SHA-256")
  else .ok ()

/-- Truncate the open Block; the outcome of the truncation is returned, not thrown. -/
def truncateOpenBlock (offset : Nat) : ShardM (Except WriterErr Unit) := do
  let s ← get
  match s.blockWriter with
  | none => pure (.ok ())
  | some w =>
    match (s.blocks w.blockID).blk with
    | none => pure (.ok ())
    | some f =>
      let (result, w', f') := w.truncate f offset
      set { (s.setBlk w.blockID (some f')) with blockWriter := some w' }
      pure result

/-- The prep goes whether or not the truncation worked. -/
def abortReplicatedWriteAttempt (writeID : String) (startOffset : Nat) : ShardM Unit := do
  let _ ← truncateOpenBlock startOffset
  modify (·.removePrep writeID)

/-- `AppendReplicatedDocument` behind the offset check: prep, append and the check against what the
leader declared. -/
def appendAtOffset (c : Crypto) (init : ReplicateDocumentInit) (body : Body) (writeID : String)
    (w : Writer) : ShardM AppendResult := do
  let want := safeUint64ToInt64 init.startOffset
  modify (·.beginWriteAttempt ⟨writeID, init.transactionID, init.documentName, init.blockID,
    UInt64.ofNat want, init.contentType⟩)
  let s ← get
  match (s.blocks w.blockID).blk with
  | none => throw (.replicaBlockNotOpen init.blockID)
  | some f =>
    let (result, w', f') := appendReplicatedPayload c init body w f
    set { (s.setBlk w.blockID (some f')) with blockWriter := some w' }
    match result with
    | .error err => do
        abortReplicatedWriteAttempt writeID want
        throw err
    | .ok result =>
      match validateReplicatedAppend init result want with
      | .error err => do
          abortReplicatedWriteAttempt writeID want
          throw err
      | .ok () => pure result

/-- `peers` are the copies of the Block a repair is offered. -/
def appendReplicatedDocument (c : Crypto) (raft : RaftStatus) (init : ReplicateDocumentInit)
    (body : Body) (writeID : String) (now : Int) (peers : List (Option StagedBlock)) :
    ShardM AppendResult := do
  match validateReplicationFence raft init with
  | .error err => throw err
  | .ok () => do
      advanceReplicaBlock init.blockID
      match (← get).blockWriter with
      | none => throw (.replicaBlockNotOpen init.blockID)
      | some w =>
        if w.blockID ≠ init.blockID then throw (.replicaBlockNotOpen init.blockID)
        else do
          ensureReplicaAppendOffset c init.blockID (safeUint64ToInt64 init.startOffset) now
            peers w
          match (← get).blockWriter with
          | none => throw (.replicaBlockNotOpen init.blockID)
          | some w => appendAtOffset c init body writeID w

end Scrap
