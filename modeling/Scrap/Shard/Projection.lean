/-
# Applying a CommitDocument command

`applyCommitDocument` decides from the Projection and the `.idx` files it can see whether the
Document is new, and then writes the `.idx` record and the Transaction record. A crash can fall
between these writes, so the decision goes by counting: `resolved` numbers the Transaction's visible
`.idx` records in the order of its Block list, and a record is COUNTED when its number is at most
the stored count.

    found, counted          committed before: a no-op, or a conflict
    found, not counted      a crash fell between the .idx record and the count
    not found, counted      the count is ahead of the visible records and the Block is
                            already listed: taken as counted before
    not found, not counted  new
-/
import Scrap.Shard.Upload

namespace Scrap

open Block

structure CommitProjectionState where
  /-- the record of the Document found, and its Block -/
  existing : Option (UInt64 × IndexEntry)
  targetCounted : Bool
deriving DecidableEq

def CommitProjectionState.zero : CommitProjectionState := ⟨none, false⟩

def CommitProjectionState.targetExists (state : CommitProjectionState) : Bool :=
  state.existing.isSome

/-! ## Reading the projected state -/

/-- The Transaction record, `none` when there is none. -/
def Shard.commitProjectionEntry (s : Shard) (txID : String) :
    Except ShardErr (Option Entry) :=
  match s.idx.get txID with
  | .error .notFound => .ok none
  | .error err => .error (.projectionTransaction txID err)
  | .ok entry => if entry.blockIDs = [] then .error (.noBlockIDs txID) else .ok (some entry)

/-- Only a genuinely absent index means "no entries"; a torn tail is repaired first. -/
def blockIndexEntriesForApply (blockID : UInt64) (txID : String) :
    ShardM (List IndexEntry) := do
  let s ← get
  match openIndexReader (s.blocks blockID).idx with
  | .ok entries => pure (findByTransaction entries txID)
  | .error .notExist => pure []
  | .error .corruptTail =>
    match repairIndexTail (s.blocks blockID).idx with
    | .error err => throw (.repairHistoricalIdx err)
    | .ok f => do
        set (s.setIdx blockID f)
        pure (findByTransaction f.entries txID)
  | .error err => throw (.openHistoricalReadIdx err)

def inspectCommitProjectionBlock (doc : CommitDocument) (docCount : UInt16)
    (blockID : UInt64) :
    Nat → CommitProjectionState → List IndexEntry → Except ShardErr (CommitProjectionState × Nat)
  | resolved, state, [] => .ok (state, resolved)
  | resolved, state, blockDoc :: entries =>
    if blockDoc.docName ≠ doc.documentName then
      inspectCommitProjectionBlock doc docCount blockID (resolved + 1) state entries
    else if state.targetExists then .error .corruptDuplicateMetadata
    else
      inspectCommitProjectionBlock doc docCount blockID (resolved + 1)
        ⟨some (blockID, blockDoc), decide (resolved + 1 ≤ docCount.toNat)⟩ entries

/-- The loop of `inspectCommitProjectionEntry` over the Blocks left to visit. -/
def inspectCommitProjectionBlocks (doc : CommitDocument) (docCount : UInt16) :
    Nat → CommitProjectionState → List UInt64 → ShardM (CommitProjectionState × Nat)
  | resolved, state, [] => pure (state, resolved)
  | resolved, state, blockID :: blockIDs => do
      let entries ← blockIndexEntriesForApply blockID doc.transactionID
      match inspectCommitProjectionBlock doc docCount blockID resolved state entries with
      | .error err => throw err
      | .ok (state', resolved') =>
        inspectCommitProjectionBlocks doc docCount resolved' state' blockIDs

/-- Without a record, the Document counts as committed before if its Block is listed and the count
is ahead of what is visible. -/
def finishInspection (doc : CommitDocument) (entry : Entry) (state : CommitProjectionState)
    (resolved : Nat) : CommitProjectionState :=
  if state.targetExists then state
  else ⟨none, doc.blockID ∈ entry.blockIDs ∧ resolved < entry.docCount.toNat⟩

def inspectCommitProjectionEntry (doc : CommitDocument) (entry : Entry) :
    ShardM CommitProjectionState := do
  let (state, resolved) ←
    inspectCommitProjectionBlocks doc entry.docCount 0 .zero entry.blockIDs
  pure (finishInspection doc entry state resolved)

def inspectCommitProjectionState (doc : CommitDocument) : ShardM CommitProjectionState := do
  let s ← get
  match s.commitProjectionEntry doc.transactionID with
  | .error err => throw err
  | .ok none => pure .zero
  | .ok (some entry) => inspectCommitProjectionEntry doc entry

/-! ## An existing record -/

/-- Content type, size and digest. -/
def commitDocumentMatchesExisting (doc : CommitDocument) (existing : IndexEntry) : Bool :=
  doc.sha256 = existing.sha256.val ∧ existing.contentType = doc.contentType ∧
    existing.totalBytes = doc.totalBytes

def openlogPrepMatchesCommit (p : OpenlogEntry) (doc : CommitDocument) : Bool :=
  p.transactionID = doc.transactionID ∧ p.documentName = doc.documentName ∧
    p.blockID = doc.blockID ∧ p.startOffset = doc.firstFrameOff

/-- Remove the prep files of the write the command commits. -/
def Shard.cleanupCommittedOpenlogPreps (s : Shard) (doc : CommitDocument) : Shard :=
  { s with openlog := s.openlog.filter (fun p => !openlogPrepMatchesCommit p doc) }

/-- `true`: the command is done. -/
def handleExistingCommitProjection (doc : CommitDocument) (state : CommitProjectionState) :
    ShardM Bool := do
  match state.existing with
  | none => pure false
  | some (existingBlockID, existing) =>
    if state.targetCounted then
      modify (·.cleanupCommittedOpenlogPreps doc)
      if commitDocumentMatchesExisting doc existing then pure true
      else throw .duplicateDocumentConflict
    else if existingBlockID ≠ doc.blockID ∨ !commitDocumentMatchesExisting doc existing then
      throw .corruptDuplicateMetadata
    else pure false

/-! ## Writing the index record -/

/-- The record a command writes; `none` when its digest does not have 32 bytes. -/
def CommitDocument.indexEntry? (doc : CommitDocument) : Option IndexEntry :=
  if h : doc.sha256.length = 32 then
    some ⟨doc.transactionID, doc.documentName, doc.contentType, doc.createdAtUs,
      safeUint64ToInt64 doc.firstFrameOff, doc.frameCount, doc.totalBytes, ⟨doc.sha256, h⟩,
      doc.encryptionEnvelope⟩
  else none

/-- Here an absent `.idx` is an error. -/
def blockIndexContainsDocumentRepairingTail (blockID : UInt64) (txID docName : String) :
    ShardM Bool := do
  let s ← get
  match openIndexReader (s.blocks blockID).idx with
  | .ok entries => pure (find entries txID docName).isOk
  | .error .corruptTail =>
    match repairIndexTail (s.blocks blockID).idx with
    | .error err => throw (.repairHistoricalIdx err)
    | .ok f => do
        set (s.setIdx blockID f)
        pure (find f.entries txID docName).isOk
  | .error err => throw (.openHistoricalReadIdx err)

/-- The open Block's writer trusts `alreadyIndexed`; a closed Block's `.idx` is searched. -/
def appendDocumentIndexEntry (doc : CommitDocument) (entry : IndexEntry) (entryIndex : UInt64)
    (alreadyIndexed : Bool) : ShardM Unit := do
  let s ← get
  if s.isOpen doc.blockID then
    if alreadyIndexed then pure ()
    else
      match (s.blocks doc.blockID).idx with
      | none => pure () -- the record goes to a file without a name
      | some f =>
        match f.append entry with
        | .error err => throw (.applyWriteIdx err)
        | .ok f' => set (s.setIdx doc.blockID f')
  else
    let uploadGeneration := uploadGenerationFromApplyIndex entryIndex doc.createdAtUs
    let contains ← blockIndexContainsDocumentRepairingTail doc.blockID doc.transactionID
      doc.documentName
    if contains then requeueBlockUploadAfterIndexAppend doc.blockID uploadGeneration
    else
      let s ← get
      match (s.blocks doc.blockID).idx with
      | none => throw (.openHistoricalWriteIdx .notExist)
      | some f =>
        match f.append entry with
        | .error err => throw (.appendHistoricalWriteIdx err)
        | .ok f' => do
            set (s.setIdx doc.blockID f')
            requeueBlockUploadAfterIndexAppend doc.blockID uploadGeneration

/-! ## Writing the Transaction record -/

def Index.preflightProjectionDocCount (idx : Index) (txID : String) : Except ShardErr Unit :=
  match idx.get txID with
  | .error .notFound => .ok ()
  | .error err => .error (.getIndex err)
  | .ok existing =>
    if existing.docCount = maxDocCount then .error (.incrementDocCount .docCountAtMaximum)
    else .ok ()

/-- `addProjectionDocument`, with the Projection it leaves. A Block is listed again unless it is the
LAST one. -/
def Index.addProjectionDocument (idx : Index) (txID : String) (blockID : UInt64) :
    Except ShardErr Unit × Index :=
  match idx.get txID with
  | .error .notFound => (.ok (), idx.put txID blockID 1 false)
  | .error err => (.error (.getIndex err), idx)
  | .ok existing =>
    let increment (idx : Index) : Except ShardErr Unit × Index :=
      match idx.incrementDocCount txID with
      | .error err => (.error (.incrementDocCount err), idx)
      | .ok idx' => (.ok (), idx')
    if existing.blockIDs.getLast? ≠ some blockID then
      match idx.addBlockID txID blockID with
      | .error err => (.error (.addBlockID err), idx)
      | .ok idx' => increment idx'
    else increment idx

def addProjectionDocument (txID : String) (blockID : UInt64) : ShardM Unit := do
  let s ← get
  match s.idx.addProjectionDocument txID blockID with
  | (.ok (), idx) => set { s with idx := idx }
  | (.error err, idx) => do
      set { s with idx := idx }
      throw err

def preflightProjectionDocCount (txID : String) : ShardM Unit := do
  match (← get).idx.preflightProjectionDocCount txID with
  | .error err => throw err
  | .ok () => pure ()

/-! ## The apply -/

/-- The writes of a Document that is not yet fully committed here. -/
def commitNewDocument (doc : CommitDocument) (entryIndex : UInt64)
    (targetExists targetCounted : Bool) : ShardM Unit := do
  match doc.indexEntry? with
  | none => throw (.sha256Length doc.sha256.length)
  | some entry => do
      if !targetCounted then preflightProjectionDocCount doc.transactionID
      appendDocumentIndexEntry doc entry entryIndex targetExists
      if !targetCounted then addProjectionDocument doc.transactionID doc.blockID
      modify (·.cleanupCommittedOpenlogPreps doc)

def applyCommitDocument (doc : CommitDocument) (entryIndex : UInt64) : ShardM Unit := do
  let state ← inspectCommitProjectionState doc
  let handled ← handleExistingCommitProjection doc state
  if handled then pure ()
  else commitNewDocument doc entryIndex state.targetExists state.targetCounted

/-! ## Reading the projected Documents -/

def Shard.projectionResolver (s : Shard) : Resolver := ⟨s.idx, fun b => (s.blocks b).idx⟩

def Shard.documentVisibleInProjectionLenient (s : Shard) (txID docName : String) :
    Except ShardErr Bool :=
  match s.projectionResolver.containsDocumentLenient txID docName with
  | .error err => .error (.projectionResolution err)
  | .ok exists_ => .ok exists_

/-- The loop of `duplicateDocumentEntry` over the Documents left to visit. -/
def duplicateEntryOf (docName : String) :
    Option ResolvedDocument → List ResolvedDocument → Except ShardErr (Option ResolvedDocument)
  | existing, [] => .ok existing
  | existing, d :: docs =>
    if d.2.docName = docName then
      if existing.isSome then .error .corruptDuplicateMetadata
      else duplicateEntryOf docName (some d) docs
    else duplicateEntryOf docName existing docs

def Shard.duplicateDocumentEntry (s : Shard) (txID docName : String) :
    Except ShardErr (Option ResolvedDocument) :=
  match s.projectionResolver.listDocuments txID with
  | .error err => .error (.projectionResolution err)
  | .ok docs => duplicateEntryOf docName none docs

def Shard.findDocEntry (s : Shard) (txID docName : String) : Except ShardErr ResolvedDocument :=
  match s.projectionResolver.resolveDocument txID docName with
  | .error err => .error (.projectionResolution err)
  | .ok d => .ok d

end Scrap
