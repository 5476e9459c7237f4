/-
# The Openlog and the start of a Shard

A write leaves a prep file in the Openlog before it appends. The prep of a write that never commits
marks Frames that must go: they have no `.idx` entry, and shift the positions of all later ones.

Phase A runs before Raft: a prep whose Document is projected at its Block and offset is done, every
other one becomes a truncation candidate. Phase B runs when Raft has replayed up to the commit
index the WAL recorded at boot, and truncates the Block of each candidate that is still not
projected, unless the Block's `.idx` has an entry at or past the prep's offset.
-/
import Scrap.Shard.Projection

namespace Scrap

open Block

structure TruncationCandidate where
  prepName : String
  txID : String
  docName : String
  blockID : UInt64
  startOffset : Nat
deriving DecidableEq

def OpenlogEntry.candidate (p : OpenlogEntry) : TruncationCandidate :=
  ⟨p.writeID, p.transactionID, p.documentName, p.blockID, safeUint64ToInt64 p.startOffset⟩

def Shard.removePrep (s : Shard) (writeID : String) : Shard :=
  { s with openlog := s.openlog.filter (fun p => p.writeID ≠ writeID) }

/-- The projected Document is at the prep's Block and offset. -/
def Shard.prepIsCommittedInstance (s : Shard) (c : TruncationCandidate) : Except ShardErr Bool :=
  match s.documentVisibleInProjectionLenient c.txID c.docName with
  | .error err => .error err
  | .ok false => .ok false
  | .ok true =>
    match s.duplicateDocumentEntry c.txID c.docName with
    | .error err => .error err
    | .ok none => .ok false
    | .ok (some (blockID, existing)) =>
      .ok (blockID = c.blockID ∧ existing.firstFrameOff = c.startOffset)

/-! ## Phase A -/

def recoverPrepFile (p : OpenlogEntry) : ShardM (Option TruncationCandidate) := do
  let s ← get
  if maxInt64 < p.startOffset.toNat then throw (.prepStartOffset p.writeID p.startOffset)
  else
    match s.prepIsCommittedInstance p.candidate with
    | .error err => throw err
    | .ok true => do
        set (s.removePrep p.writeID)
        pure none
    | .ok false => pure (some p.candidate)

def recoverPrepFiles : List OpenlogEntry → ShardM (List TruncationCandidate)
  | [] => pure []
  | p :: ps => do
      let candidate ← recoverPrepFile p
      let candidates ← recoverPrepFiles ps
      pure (candidate.toList ++ candidates)

/-- The prep files in the order of their names. -/
def recoverOpenlog : ShardM (List TruncationCandidate) := do
  let s ← get
  recoverPrepFiles (s.openlog.mergeSort (fun p q => p.writeID ≤ q.writeID))

theorem recoverPrepFiles_keeps {I : Shard → Prop} (hI : ∀ s preps, I s → I { s with openlog := preps }) :
    ∀ ps : List OpenlogEntry, Fallible.Keeps I (recoverPrepFiles ps)
  | [] => .pure _
  | p :: ps => by
    refine .bind (.get fun s hs => ?_) fun _ => (recoverPrepFiles_keeps hI ps).bind fun _ => .pure _
    split
    · exact hs
    cases s.prepIsCommittedInstance p.candidate with
    | error err => exact hs
    | ok done =>
      cases done with
      | true => exact hI s _ hs
      | false => exact hs

theorem recoverOpenlog_keeps {I : Shard → Prop} (hI : ∀ s preps, I s → I { s with openlog := preps }) :
    Fallible.Keeps I recoverOpenlog :=
  .get fun s hs => recoverPrepFiles_keeps hI _ s hs

/-! ## Phase B -/

/-- A missing index has no entries. -/
def Shard.blockIndexHasEntryAtOrPast (s : Shard) (blockID : UInt64) (wantOffset : Nat) :
    Except ShardErr Bool :=
  match openIndexReader (s.blocks blockID).idx with
  | .error .notExist => .ok false
  | .error err => .error (.openBlockIndex err)
  | .ok entries => .ok (entries.any (fun e => wantOffset ≤ e.firstFrameOff))

/-- It never extends the file, and a missing file is left alone. -/
def truncateFile (f : Option BlkFile) (size : Nat) : Option BlkFile :=
  match f with
  | none => none
  | some f => some (if f.size ≤ size then f else f.truncate size)

def Shard.setBlk (s : Shard) (blockID : UInt64) (f : Option BlkFile) : Shard :=
  s.setBlock blockID { s.blocks blockID with blk := f }

def resolveOpenlogTruncation (c : TruncationCandidate) : ShardM Unit := do
  let s ← get
  -- the replay has cleaned the prep up
  if s.openlog.all (fun p => p.writeID ≠ c.prepName) then pure ()
  else
    match s.prepIsCommittedInstance c with
    | .error err => throw err
    | .ok true => set (s.removePrep c.prepName)
    | .ok false =>
      match s.blockIndexHasEntryAtOrPast c.blockID c.startOffset with
      | .error err => throw err
      | .ok true => pure ()
      | .ok false =>
        let s' := s.setBlk c.blockID (truncateFile (s.blocks c.blockID).blk c.startOffset)
        set (s'.removePrep c.prepName)

def resolveOpenlogTruncations : List TruncationCandidate → ShardM Unit :=
  Fallible.runAll resolveOpenlogTruncation

theorem resolveOpenlogTruncations_keeps {I : Shard → Prop}
    (hI : ∀ s preps, I s → I { s with openlog := preps }) : ∀ {cands : List TruncationCandidate},
    (∀ c ∈ cands, ∀ s, I s →
      I (s.setBlk c.blockID (truncateFile (s.blocks c.blockID).blk c.startOffset))) →
    Fallible.Keeps I (resolveOpenlogTruncations cands)
  | [], _ => .pure _
  | c :: cands, hcut => by
    refine .bind (.get fun s hs => ?_) fun _ =>
      resolveOpenlogTruncations_keeps hI fun c' hc' => hcut c' (List.mem_cons_of_mem _ hc')
    split
    · exact hs
    cases s.prepIsCommittedInstance c with
    | error err => exact hs
    | ok done =>
      cases done with
      | true => exact hI s _ hs
      | false => ?_
      simp only
      cases s.blockIndexHasEntryAtOrPast c.blockID c.startOffset with
      | error err => exact hs
      | ok past => ?_
      cases past with
      | true => exact hs
      | false => exact hI _ _ (hcut c List.mem_cons_self s hs)

/-- The preps of the Block at or past the offset. -/
def Shard.removeOverhangPreps (s : Shard) (blockID : UInt64) (wantOffset : Nat) : Shard :=
  { s with
    openlog := s.openlog.filter (fun p =>
      p.blockID ≠ blockID ∨ safeUint64ToInt64 p.startOffset < wantOffset) }

/-! ## Starting -/

/-- `scanMaxBlockID` of the Block IDs that have a file: the next Block ID. -/
def scanMaxBlockID (ids : List UInt64) : UInt64 := ids.foldl max 0 + 1

/-- The Block IDs under which the directory has a file. -/
def Shard.Listing (s : Shard) (ids : List UInt64) : Prop :=
  ∀ b, s.blocks b ≠ .absent ↔ b ∈ ids

/-- The Shard that `Open` builds on what a crash has left, with the Block IDs `ids` in the
directory. -/
def Shard.reloaded (s : Shard) (ids : List UInt64) : Shard :=
  { s with
    blockWriter := none
    nextBlockID := scanMaxBlockID ids
    proposals := fun _ => none
    channels := fun _ => none }

/-- `Open` up to the start of Raft: phase A and a new open Block. -/
def openShard (ids : List UInt64) : ShardM (List TruncationCandidate) := do
  modify (·.reloaded ids)
  let candidates ← recoverOpenlog
  modify Shard.openNewBlock
  pure candidates

end Scrap
