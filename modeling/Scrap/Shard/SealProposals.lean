/-
# The SealBlock commands a leader proposes

A Block that is sealed owes the Upload Outbox a SealBlock command with its size. The debt is kept
in three places: the seal intent, a file that survives a restart; the obligation, its copy in
memory; and the seals that a `proposeSeals` call has collected and still has to propose, without the
Shard lock. A failed proposal is collected again by the next retry, and `reconcileClosedBlocks`
makes obligations of the intents and of the closed Blocks that have none.

Each carries the size the Block had when the debt was recorded. Nothing takes them back when the
Block is opened again (`reopenPreviousReplicaBlock`) or cut by the Openlog recovery, and no proposal
looks at the Block (`reopened_block_proposed`). `SealEvent.Spares` excludes the two
(`seal_proposals_match`).

`pressure` is the outcome of the upload-pressure check that follows a seal.
-/
import Scrap.Shard.ClosedBlock
import Scrap.Shard.Generations

namespace Scrap

open Block Fallible Function

/-! ## Seal intents -/

/-- A `.seal-intent.json` file. -/
structure SealIntent where
  version : Int
  blockID : UInt64
  shardID : UInt64
  sealedSizeBytes : Int
  sealedAtUs : Int
deriving DecidableEq

def sealIntentVersion : Int := 1

inductive SealIntentErr where
  | notExist
  /-- `seal intent version %d` -/
  | version (v : Int)
  /-- `seal intent block_id mismatch: key %d value %d` -/
  | blockID (key value : UInt64)
deriving DecidableEq

/-- `readSealIntent` of what is under the Block's name. -/
def readSealIntent (file : Option SealIntent) (blockID : UInt64) : Except SealIntentErr SealIntent :=
  match file with
  | none => .error .notExist
  | some intent =>
    if intent.version ≠ sealIntentVersion then .error (.version intent.version)
    else if intent.blockID ≠ blockID then .error (.blockID blockID intent.blockID)
    else .ok intent

def sealIntentPendingUpload (intent : SealIntent) : PendingUpload :=
  ⟨intent.blockID, intent.shardID, intent.sealedSizeBytes, intent.sealedAtUs, 0⟩

variable {n intentAtUs sealedAtUs : Int} {now retryAfter : Nat} {s : Shard} {b : UInt64}
  {w : Writer}

theorem readSealIntent_ok {file : Option SealIntent} {intent : SealIntent}
    (h : readSealIntent file b = .ok intent) : file = some intent ∧ intent.blockID = b := by
  cases file with
  | none => cases h
  | some i => ?_
  simp only [readSealIntent] at h
  split at h
  · cases h
  split at h
  · cases h
  · next hid =>
      cases h
      exact ⟨rfl, not_not.mp hid⟩

/-! ## Obligations -/

/-- The zero time is `0`. -/
structure UploadObligation where
  upload : PendingUpload
  inFlight : Bool
  retryAfter : Nat
deriving DecidableEq

def recordLocal (l : List UploadObligation) (upload : PendingUpload) : List UploadObligation :=
  if l.any (fun o => o.upload.blockID = upload.blockID) then
    l.map fun o => if o.upload.blockID = upload.blockID then { o with upload := upload } else o
  else l ++ [⟨upload, false, 0⟩]

def forgetObligation (l : List UploadObligation) (blockID : UInt64) : List UploadObligation :=
  l.filter fun o => o.upload.blockID ≠ blockID

/-- The seals that are due, and the obligations with those in flight. -/
def beginRetry (l : List UploadObligation) (now retryAfter : Nat) :
    List PendingUpload × List UploadObligation :=
  ((l.filter fun o => ¬ now < o.retryAfter).map (·.upload),
    l.map fun o => if now < o.retryAfter then o else ⟨o.upload, true, retryAfter⟩)

def markRetryFailed (l : List UploadObligation) (blockID : UInt64) (retryAfter : Nat) :
    List UploadObligation :=
  l.map fun o =>
    if o.upload.blockID = blockID ∧ o.inFlight then ⟨o.upload, false, retryAfter⟩ else o

section Obligations

variable {l : List UploadObligation} {o : UploadObligation}

theorem recordLocal_upload {u : PendingUpload} (h : o ∈ recordLocal l u) :
    o.upload = u ∨ ∃ o' ∈ l, o'.upload = o.upload := by
  unfold recordLocal at h
  split at h
  · obtain ⟨o', ho', rfl⟩ := List.mem_map.mp h
    split
    · exact .inl rfl
    · exact .inr ⟨o', ho', rfl⟩
  · rcases List.mem_append.mp h with h | h
    · exact .inr ⟨o, h, rfl⟩
    · exact .inl (by rw [List.mem_singleton.mp h])

theorem beginRetry_due {u : PendingUpload} (h : u ∈ (beginRetry l now retryAfter).1) :
    ∃ o ∈ l, o.upload = u := by
  obtain ⟨o, ho, rfl⟩ := List.mem_map.mp h
  exact ⟨o, List.mem_of_mem_filter ho, rfl⟩

theorem beginRetry_upload (h : o ∈ (beginRetry l now retryAfter).2) :
    ∃ o' ∈ l, o'.upload = o.upload := by
  obtain ⟨o', ho', rfl⟩ := List.mem_map.mp h
  refine ⟨o', ho', ?_⟩
  split <;> rfl

theorem markRetryFailed_upload (h : o ∈ markRetryFailed l b retryAfter) :
    ∃ o' ∈ l, o'.upload = o.upload := by
  obtain ⟨o', ho', rfl⟩ := List.mem_map.mp h
  refine ⟨o', ho', ?_⟩
  split <;> rfl

end Obligations

/-! ## The Member -/

/-- A SealBlock command that was proposed, and the proposer's Block at that time. -/
structure SealProposal where
  cmd : SealBlock
  blk : Option BlkFile
  isOpen : Bool
deriving DecidableEq

structure Sealer where
  shard : Shard
  /-- the seal intents in the blocks directory -/
  intents : UInt64 → Option SealIntent
  obligations : List UploadObligation
  /-- what phase A of the last start left to phase B -/
  candidates : List TruncationCandidate
  /-- what the running calls of `proposeSeals` still have to propose -/
  collected : List PendingUpload
  /-- every SealBlock this Member has proposed -/
  proposed : List SealProposal

def Sealer.start (s : Shard) : Sealer := ⟨s, fun _ => none, [], [], [], []⟩

namespace Sealer

def call {α : Type} (x : Sealer) (m : ShardM α) : Sealer := { x with shard := after m x.shard }

/-- The Block of `w` is sealed: the intent and the obligation. -/
def noteSealed (x : Sealer) (w : Writer) (intentAtUs sealedAtUs : Int) : Sealer :=
  if x.shard.uploadEnabled then
    { x with
      intents := update x.intents w.blockID
        (some ⟨sealIntentVersion, w.blockID, x.shard.shardID, w.offset, intentAtUs⟩)
      obligations := recordLocal x.obligations ⟨w.blockID, x.shard.shardID, w.offset, sealedAtUs, 0⟩ }
  else x

def collect (x : Sealer) (now retryAfter : Nat) : Sealer :=
  { x with
    obligations := (beginRetry x.obligations now retryAfter).2
    collected := x.collected ++ (beginRetry x.obligations now retryAfter).1 }

/-- `reconcileClosedBlockLocked`; `modTimeUs` is of the `.blk`, and nothing is an error. -/
def reconcileClosedBlock (x : Sealer) (blockID : UInt64) (modTimeUs : Int) : Option Sealer :=
  match x.shard.idx.getConfirmedUpload blockID with
  | .ok _ => some { x with intents := update x.intents blockID none }
  | .error .confirmedNotFound =>
    match x.shard.idx.getPendingUpload blockID with
    | .ok _ => some x
    | .error .pendingNotFound =>
      match readSealIntent (x.intents blockID) blockID with
      | .ok intent =>
        some { x with
          obligations := recordLocal x.obligations (sealIntentPendingUpload intent) }
      | .error .notExist =>
        match (x.shard.blocks blockID).blk with
        | none => some x
        | some f =>
          if (x.shard.blocks blockID).idx.isNone then some x
          else
            some { x with
              obligations := recordLocal x.obligations
                ⟨blockID, x.shard.shardID, f.size, modTimeUs, 0⟩ }
      | .error _ => none
    | .error _ => none
  | .error _ => none

def skips (x : Sealer) (blockID : UInt64) : Bool :=
  match x.shard.blockWriter with
  | none => false
  | some w => w.blockID ≠ 0 ∧ w.blockID ≤ blockID

/-- The loop of `reconcileClosedBlocksIntoUploadOutboxLocked` over the directory's Block IDs. -/
def reconcileBlocks (modTimeUs : UInt64 → Int) : Sealer → List UInt64 → Sealer
  | x, [] => x
  | x, b :: ids =>
    if x.skips b then reconcileBlocks modTimeUs x ids
    else
      match x.reconcileClosedBlock b (modTimeUs b) with
      | none => x
      | some y => reconcileBlocks modTimeUs y ids

def reconcileClosedBlocks (x : Sealer) (ids : List UInt64) (modTimeUs : UInt64 → Int) : Sealer :=
  if x.shard.uploadEnabled then x.reconcileBlocks modTimeUs ids else x

/-- One round of `proposeSeals`: the seal at `i` is proposed, and retried if Raft did not take it.
-/
def propose (x : Sealer) (i : Nat) (accepted : Bool) (retryAfter : Nat) : Sealer :=
  match x.collected[i]? with
  | none => x
  | some u =>
    let y := { x with collected := x.collected.eraseIdx i }
    if x.shard.uploadEnabled then
      { y with
        proposed := x.proposed ++ [⟨⟨u.blockID, u.shardID, u.sealedSizeBytes, u.sealedAtUs⟩,
          (x.shard.blocks u.blockID).blk, x.shard.isOpen u.blockID⟩]
        obligations :=
          if accepted then x.obligations else markRetryFailed x.obligations u.blockID retryAfter }
    else y

end Sealer

def Shard.sealedBy (s : Shard) (blockSealSize : Nat) (req : WriteRequest) : Option Writer :=
  match s.duplicateDocumentEntry req.txID req.docName, s.blockWriter with
  | .ok none, some w => if headerSize < w.offset ∧ blockSealSize ≤ w.offset then some w else none
  | _, _ => none

/-- The Block that a shutdown seals: the open one, unless it is empty. -/
def Shard.tail (s : Shard) : Option Writer := s.blockWriter.filter fun w => headerSize < w.offset

def Shard.confirmForgets (s : Shard) (cmd : ConfirmUpload) : Bool :=
  match (s.applyCommittedConfirm cmd).1 with
  | .ok () =>
    match s.idx.getPendingUpload cmd.blockID with
    | .ok _ => true
    | .error _ => false
  | .error .unsafeCatalog => true
  | .error _ => false

def Sealer.noteEntry (x : Sealer) : RaftCommand → Sealer
  | .sealBlock cmd =>
    { x with
      intents := update x.intents cmd.blockID none
      obligations := forgetObligation x.obligations cmd.blockID }
  | .confirmUpload cmd =>
    if x.shard.confirmForgets cmd then
      { x with obligations := forgetObligation x.obligations cmd.blockID }
    else x
  | _ => x

inductive SealEvent where
  | stream (raft : RaftStatus) (init : ReplicateDocumentInit) (body : Body) (writeID : String)
      (now : Int) (peers : List (Option StagedBlock))
  /-- a write up to its append, with `sealAndOpenNew` if the open Block is full -/
  | write (sealSize : Nat) (req : WriteRequest) (allowed pressure : Except ShardErr Unit)
      (intentAtUs sealedAtUs : Int) (now retryAfter : Nat)
  | append (req : WriteRequest) (encryptor : Option Encryptor) (writeID : String) (now : Int)
  | abort (writeID : String) (startOffset : Nat)
  | entry (e : LogEntry)
  /-- `Close`, with `sealTailOnShutdownLocked` -/
  | shutdown (intentAtUs sealedAtUs : Int)
  /-- `Open` up to Raft, behind a shutdown or a crash -/
  | restart (ids : List UInt64)
  /-- phase B of the Openlog recovery -/
  | recover
  /-- the reconciliation at startup -/
  | reconcile (ids : List UInt64) (modTimeUs : UInt64 → Int)
  /-- `retryUploadObligations` of a leader, up to its proposals -/
  | retry (ids : List UInt64) (modTimeUs : UInt64 → Int) (now retryAfter : Nat)
  | propose (i : Nat) (accepted : Bool) (retryAfter : Nat)

namespace SealEvent

def seals (x : Sealer) : SealEvent → Option Writer
  | .write sealSize req _ _ _ _ _ _ => x.shard.sealedBy sealSize req
  | .shutdown _ _ => x.shard.tail
  | _ => none

/-- A restart forgets what is in memory; the intents are files. -/
def restarted (x : Sealer) (ids : List UInt64) : Sealer :=
  let y := { (x.call (openShard ids)) with obligations := [], collected := [], candidates := [] }
  match (openShard ids).run x.shard with
  | .ok candidates _ => { y with candidates := candidates }
  | .error _ _ => y

def run (c : Crypto) : SealEvent → EStateM ShardErr Sealer Unit
  | .stream raft init body writeID now peers =>
    modify (·.call (appendReplicatedDocument c raft init body writeID now peers))
  | .write sealSize req allowed pressure intentAtUs sealedAtUs now retryAfter => modify fun x =>
    let y := x.call (admitWrite c sealSize req allowed pressure)
    match x.shard.sealedBy sealSize req with
    | none => y
    | some w => (y.noteSealed w intentAtUs sealedAtUs).collect now retryAfter
  | .append req encryptor writeID now => modify (·.call (appendWrite c req encryptor writeID now))
  | .abort writeID startOffset => modify (·.call (abortWriteAttempt writeID startOffset))
  | .entry e => fun x =>
    match (e.apply c).run x.shard with
    | .ok () s => .ok () { x.noteEntry e.cmd with shard := s }
    | .error err s => .error err { x with shard := s }
  | .shutdown intentAtUs sealedAtUs => modify fun x =>
    let y := { x with shard := { x.shard with blockWriter := none } }
    match x.shard.tail with
    | none => y
    | some w => y.noteSealed w intentAtUs sealedAtUs
  | .restart ids => modify (restarted · ids)
  | .recover => modify fun x =>
    { (x.call (resolveOpenlogTruncations x.candidates)) with candidates := [] }
  | .reconcile ids modTimeUs => modify (·.reconcileClosedBlocks ids modTimeUs)
  | .retry ids modTimeUs now retryAfter => modify fun x =>
    (x.reconcileClosedBlocks ids modTimeUs).collect now retryAfter
  | .propose i accepted retryAfter => modify (·.propose i accepted retryAfter)

end SealEvent

/-! ## The condition -/

/-- A SealBlock is owed for the Block, with this size. -/
inductive Sealer.Owes (x : Sealer) : UInt64 → Int → Prop
  | intent {b : UInt64} {i : SealIntent} : x.intents b = some i → x.Owes b i.sealedSizeBytes
  | obligation {o : UploadObligation} :
      o ∈ x.obligations → x.Owes o.upload.blockID o.upload.sealedSizeBytes
  | collected {u : PendingUpload} : u ∈ x.collected → x.Owes u.blockID u.sealedSizeBytes

namespace SealEvent

/-- The Blocks that the event may open: a new one, or the one a stream is for. -/
def opens (x : Sealer) : SealEvent → List UInt64
  | .stream _ init _ _ _ _ => [x.shard.nextBlockID, init.blockID]
  | .write _ _ _ _ _ _ _ _ => [x.shard.nextBlockID]
  | .entry _ => [x.shard.nextBlockID]
  | .restart ids => [scanMaxBlockID ids]
  | _ => []

def cuts (x : Sealer) : SealEvent → List TruncationCandidate
  | .recover => x.candidates
  | _ => []

/-- The event leaves the Blocks that owe a seal as they were when it was recorded. -/
structure Spares (x : Sealer) (event : SealEvent) : Prop where
  /-- it opens none of them; `0` is no Block's ID -/
  opened : ∀ b ∈ event.opens x, b ≠ 0 ∧ ∀ n, ¬ x.Owes b n
  /-- the recovery cuts none of them -/
  uncut : ∀ cand ∈ event.cuts x, ∀ n, x.Owes cand.blockID n → n ≤ cand.startOffset
  /-- a Block that it seals ends where the writer is, and is not the next new one -/
  sealed : ∀ w, event.seals x = some w →
    (x.shard.blocks w.blockID).blk.map BlkFile.size = some w.offset ∧ w.blockID ∉ event.opens x

end SealEvent

/-! ## The Shard under a step -/

/-- `b` is closed in `t`, with the `.blk` it had in `s`. -/
def Shard.Stays (b : UInt64) (s t : Shard) : Prop :=
  t.isOpen b = false ∧ (t.blocks b).blk = (s.blocks b).blk

section Stays

variable {c : Crypto} {b : UInt64} {s t : Shard}

theorem Shard.Rests.stays (h : t.Rests b (s.blocks b)) : s.Stays b t :=
  ⟨h.1, congrArg BlockFiles.blk h.2⟩

theorem Shard.SameBytes.stays (h : s.SameBytes t) (hclosed : s.isOpen b = false) : s.Stays b t := by
  refine ⟨?_, h.blk b⟩
  rw [← hclosed]
  unfold Shard.isOpen
  rw [h.blockWriter]

theorem applyConfirmUpload_stays {cmd : ConfirmUpload} (h : s.isOpen b = false)
    (hnext : s.nextBlockID ≠ b) (hrun : (applyConfirmUpload cmd).run s = .ok () t) :
    s.Stays b t := by
  obtain ⟨u, hframe, hstate⟩ := applyConfirmUpload_ok hrun
  have hu : u.Rests b (u.blocks b) := ⟨(hframe.isOpen b).trans h, rfl⟩
  have hclose := hu.closeIfOpen (hframe.nextBlockID ▸ hnext) cmd.blockID
  have hblk := hframe.blk b
  rcases hstate with rfl | rfl | ⟨p, rfl⟩
  · exact ⟨hu.1, hblk⟩
  · exact ⟨hclose.1, (congrArg BlockFiles.blk hclose.2).trans hblk⟩
  · exact ⟨hclose.1, (congrArg BlockFiles.blk hclose.2).trans hblk⟩

theorem LogEntry.apply_stays {e : LogEntry} (h : s.isOpen b = false) (hnext : s.nextBlockID ≠ b)
    (hrun : (e.apply c).run s = .ok () t) : s.Stays b t := by
  obtain ⟨i, cmd⟩ := e
  cases cmd with
  | commitDoc doc =>
    have hsame := applyCommitDocumentCommand_sameBytes s doc i
    rw [after_of_ok (m := applyCommitDocumentCommand doc i) hrun] at hsame
    exact hsame.stays h
  | rewrapDoc cmd =>
    have hsame := applyRewrapDocumentEnvelopeCommand_sameBytes s c cmd i
    rw [after_of_ok (m := applyRewrapDocumentEnvelopeCommand c cmd i) hrun] at hsame
    exact hsame.stays h
  | sealBlock cmd => exact (applySealBlock_rests h hnext hrun).stays
  | confirmUpload cmd => exact applyConfirmUpload_stays h hnext hrun

theorem openShard_rests {ids : List UInt64} (hb : scanMaxBlockID ids ≠ b) :
    (after (openShard ids) s).Rests b (s.blocks b) := by
  have hreloaded : (s.reloaded ids).Rests b (s.blocks b) ∧
      (s.reloaded ids).nextBlockID = scanMaxBlockID ids := ⟨⟨rfl, rfl⟩, rfl⟩
  have ht := recoverOpenlog_keeps (I := fun t => t.Rests b (s.blocks b) ∧
    t.nextBlockID = scanMaxBlockID ids) (fun _ _ h => h) _ hreloaded
  unfold openShard
  rw [after_modify_bind]
  cases hrun : recoverOpenlog.run (s.reloaded ids) with
  | error err t =>
    rw [after, hrun] at ht
    rw [after, bind_of_error hrun]
    exact ht.1
  | ok candidates t =>
    rw [after_of_ok hrun] at ht
    rw [after, bind_of_ok hrun]
    exact ht.1.openNewBlock (by rw [ht.2]; exact hb)

theorem truncateFile_of_le {f : Option BlkFile} {size : Nat}
    (h : ∀ g, f = some g → g.size ≤ size) : truncateFile f size = f := by
  cases f with
  | none => rfl
  | some g => exact congrArg some (if_pos (h g rfl))

theorem resolveOpenlogTruncations_stays {cands : List TruncationCandidate} (h : s.isOpen b = false)
    (hcands : ∀ cand ∈ cands, cand.blockID = b → ∀ f, (s.blocks b).blk = some f →
      f.size ≤ cand.startOffset) :
    s.Stays b (after (resolveOpenlogTruncations cands) s) := by
  have hkeeps : Keeps (s.Stays b) (resolveOpenlogTruncations cands) := by
    refine resolveOpenlogTruncations_keeps (fun _ _ ht => ht) fun cand hmem t ht => ?_
    refine ⟨ht.1, Eq.trans ?_ ht.2⟩
    by_cases hb : cand.blockID = b
    · subst hb
      have hcut : truncateFile (t.blocks cand.blockID).blk cand.startOffset =
          (t.blocks cand.blockID).blk :=
        truncateFile_of_le fun g hg => hcands cand hmem rfl g (ht.2.symm.trans hg)
      simp [Shard.setBlk, Shard.setBlock, hcut]
    · simp [Shard.setBlk, Shard.setBlock, (Ne.symm hb)]
  exact hkeeps s ⟨h, rfl⟩

theorem resolveOpenlogTruncations_isOpen {cands : List TruncationCandidate}
    (h : s.isOpen b = false) : (after (resolveOpenlogTruncations cands) s).isOpen b = false :=
  resolveOpenlogTruncations_keeps (I := fun t => t.isOpen b = false) (fun _ _ ht => ht)
    (fun _ _ _ ht => ht) s h

theorem after_admitWrite (c : Crypto) (s : Shard) (sealSize : Nat) (req : WriteRequest)
    (allowed pressure : Except ShardErr Unit) :
    after (admitWrite c sealSize req allowed pressure) s =
      if (s.sealedBy sealSize req).isSome then s.openNewBlock else s := by
  unfold admitWrite Shard.sealedBy
  rw [after_get_bind]
  cases s.duplicateDocumentEntry req.txID req.docName with
  | error err => rfl
  | ok d => ?_
  cases d with
  | some d =>
    cases allowed with
    | error err => rfl
    | ok u =>
      simp only
      cases classifyDuplicateDocumentWrite c req d.2 <;> rfl
  | none =>
    cases s.blockWriter with
    | none => rfl
    | some w => ?_
    simp only
    split
    · cases pressure <;> rfl
    · rfl

end Stays

/-! ## The invariant -/

def Shard.Shut (b : UInt64) (n : Int) (s : Shard) : Prop :=
  s.isOpen b = false ∧ (s.blocks b).blk.map (fun f => (f.size : Int)) = some n

def SealProposal.Matches (p : SealProposal) : Prop :=
  p.isOpen = false ∧ p.blk.map (fun f => (f.size : Int)) = some p.cmd.sealedSizeBytes

instance (p : SealProposal) : Decidable p.Matches :=
  inferInstanceAs (Decidable (_ ∧ _))

/-- What is owed is owed for closed Blocks of that size. -/
structure Sealer.Sound (x : Sealer) : Prop where
  zero : x.shard.isOpen 0 = false
  owed : ∀ b n, x.Owes b n → x.shard.Shut b n
  past : ∀ p ∈ x.proposed, p.Matches

theorem Shard.Shut.stays {t : Shard} (h : s.Shut b n) (hstays : s.Stays b t) :
    t.Shut b n := ⟨hstays.1, by rw [hstays.2]; exact h.2⟩

variable {event : SealEvent}

section Steps

variable {c : Crypto} {x y : Sealer}

theorem Sealer.Owes.mono (h : y.Owes b n)
    (hintents : ∀ b i, y.intents b = some i → x.intents b = some i)
    (hobligations : ∀ o ∈ y.obligations, ∃ o' ∈ x.obligations, o'.upload = o.upload)
    (hcollected : ∀ u ∈ y.collected, u ∈ x.collected) : x.Owes b n := by
  cases h with
  | intent hi => exact .intent (hintents _ _ hi)
  | obligation ho =>
    obtain ⟨o', ho', hold⟩ := hobligations _ ho
    exact hold ▸ .obligation ho'
  | collected hu => exact .collected (hcollected _ hu)

theorem Sealer.Owes.same (h : y.Owes b n) (hintents : y.intents = x.intents)
    (hobligations : y.obligations = x.obligations) (hcollected : y.collected = x.collected) :
    x.Owes b n :=
  h.mono (fun _ _ hi => hintents ▸ hi) (fun o ho => ⟨o, hobligations ▸ ho, rfl⟩)
    fun _ hu => hcollected ▸ hu

theorem intents_of_removed {intents : UInt64 → Option SealIntent} {b' : UInt64} {i : SealIntent}
    (h : update intents b none b' = some i) : intents b' = some i := by
  by_cases hb : b' = b
  · rw [hb, update_self] at h
    cases h
  · rwa [update_of_ne hb] at h

/-- A step that leaves the owing Blocks alone, and owes nothing new but for a closed Block. -/
theorem Sealer.Sound.of_stays (h : x.Sound) (hproposed : y.proposed = x.proposed)
    (hzero : y.shard.isOpen 0 = false) (hstays : ∀ b n, x.Owes b n → x.shard.Stays b y.shard)
    (howes : ∀ b n, y.Owes b n → x.Owes b n ∨ y.shard.Shut b n) : y.Sound where
  zero := hzero
  owed := fun b n hn => (howes b n hn).elim
    (fun hold => (h.owed b n hold).stays (hstays b n hold)) id
  past := hproposed ▸ h.past

theorem Sealer.Sound.closed (h : x.Sound) (hb : b = 0 ∨ ∃ n, x.Owes b n) :
    x.shard.isOpen b = false := by
  rcases hb with rfl | ⟨n, hn⟩
  · exact h.zero
  · exact (h.owed b n hn).1

theorem SealEvent.Spares.ne (h : event.Spares x) {b' : UInt64} (hb : b = 0 ∨ ∃ n, x.Owes b n)
    (hb' : b' ∈ event.opens x) : b' ≠ b := by
  rintro rfl
  obtain ⟨hzero, hnone⟩ := h.opened b' hb'
  exact hb.elim hzero fun ⟨n, hn⟩ => hnone n hn

theorem Sealer.Sound.call (h : x.Sound) {α : Type} {m : ShardM α}
    (hstays : ∀ b, b = 0 ∨ (∃ n, x.Owes b n) → x.shard.Stays b (after m x.shard)) :
    (x.call m).Sound := by
  exact h.of_stays rfl (hstays 0 (.inl rfl)).1 (fun b n hn => hstays b (.inr ⟨n, hn⟩))
    fun b n hn => .inl (hn.same rfl rfl rfl)

theorem Sealer.Sound.of_shard (h : x.Sound) (hshard : y.shard = x.shard)
    (hproposed : y.proposed = x.proposed)
    (howes : ∀ b n, y.Owes b n → x.Owes b n ∨ x.shard.Shut b n) : y.Sound :=
  h.of_stays hproposed (hshard ▸ h.zero)
    (fun b n hn => by rw [hshard]; exact ⟨(h.owed b n hn).1, rfl⟩)
    fun b n hn => by rw [hshard]; exact howes b n hn

/-! ## The parts of a step -/

theorem Sealer.owes_noteSealed (h : (x.noteSealed w intentAtUs sealedAtUs).Owes b n) :
    x.Owes b n ∨ b = w.blockID ∧ n = w.offset := by
  unfold Sealer.noteSealed at h
  split at h
  · cases h with
    | intent hi =>
      simp only at hi
      by_cases hb : b = w.blockID
      · rw [hb, update_self, Option.some.injEq] at hi
        exact .inr ⟨hb, by rw [← hi]⟩
      · rw [update_of_ne hb] at hi
        exact .inl (.intent hi)
    | obligation ho =>
      rcases recordLocal_upload ho with hnew | ⟨o', ho', hold⟩
      · exact .inr (by rw [hnew]; exact ⟨rfl, rfl⟩)
      · exact .inl (hold ▸ .obligation ho')
    | collected hu => exact .inl (.collected hu)
  · exact .inl h

theorem Sealer.owes_collect (h : (x.collect now retryAfter).Owes b n) : x.Owes b n := by
  cases h with
  | intent hi => exact .intent hi
  | obligation ho =>
    obtain ⟨o', ho', hold⟩ := beginRetry_upload ho
    exact hold ▸ .obligation ho'
  | collected hu =>
    rcases List.mem_append.mp hu with hu | hu
    · exact .collected hu
    · obtain ⟨o, ho, hold⟩ := beginRetry_due hu
      exact hold ▸ .obligation ho

theorem Sealer.owes_noteEntry {cmd : RaftCommand} (h : (x.noteEntry cmd).Owes b n) :
    x.Owes b n := by
  have hforget : ∀ b', ∀ o ∈ forgetObligation x.obligations b', ∃ o' ∈ x.obligations,
      o'.upload = o.upload := fun _ o ho => ⟨o, List.mem_of_mem_filter ho, rfl⟩
  cases cmd with
  | sealBlock cmd => exact h.mono (fun _ _ => intents_of_removed) (hforget _) fun _ hu => hu
  | confirmUpload cmd =>
    simp only [Sealer.noteEntry] at h
    split at h
    · exact h.mono (fun _ _ hi => hi) (hforget _) fun _ hu => hu
    · exact h
  | commitDoc doc => exact h
  | rewrapDoc cmd => exact h

/-- A closed Block is reconciled: its obligation has the size of the intent or of the file. -/
theorem Sealer.Sound.reconcileClosedBlock (h : x.Sound) {modTimeUs : Int}
    (hclosed : x.shard.isOpen b = false) (hy : x.reconcileClosedBlock b modTimeUs = some y) :
    y.Sound ∧ y.shard = x.shard := by
  have hrecord : ∀ u : PendingUpload, x.shard.Shut u.blockID u.sealedSizeBytes →
      Sealer.Sound { x with obligations := recordLocal x.obligations u } := by
    intro u hu
    refine h.of_shard rfl rfl fun b' n hn => ?_
    cases hn with
    | intent hi => exact .inl (.intent hi)
    | obligation ho =>
      rcases recordLocal_upload ho with hnew | ⟨o', ho', hold⟩
      · exact .inr (hnew ▸ hu)
      · exact .inl (hold ▸ .obligation ho')
    | collected hc => exact .inl (.collected hc)
  unfold Sealer.reconcileClosedBlock at hy
  split at hy
  · cases hy
    exact ⟨h.of_shard rfl rfl fun _ _ hn => .inl (hn.mono (fun _ _ => intents_of_removed)
      (fun o ho => ⟨o, ho, rfl⟩) fun _ hu => hu), rfl⟩
  · split at hy
    · cases hy
      exact ⟨h, rfl⟩
    · split at hy
      · next intent hintent =>
          obtain ⟨hfile, hid⟩ := readSealIntent_ok hintent
          cases hy
          refine ⟨hrecord _ ?_, rfl⟩
          have hshut := h.owed b _ (.intent hfile)
          rw [← hid] at hshut
          exact hshut
      · split at hy
        · cases hy
          exact ⟨h, rfl⟩
        next f hf =>
          split at hy
          · cases hy
            exact ⟨h, rfl⟩
          · cases hy
            exact ⟨hrecord _ ⟨hclosed, by rw [hf]; rfl⟩, rfl⟩
      · cases hy
    · cases hy
  · cases hy

theorem Sealer.Sound.isOpen_of_skips (h : x.Sound) (hb : x.skips b = false) :
    x.shard.isOpen b = false := by
  have hzero := h.zero
  unfold Sealer.skips at hb
  unfold Shard.isOpen at hzero ⊢
  cases hw : x.shard.blockWriter with
  | none => rfl
  | some w => ?_
  simp only [hw, decide_eq_false_iff_not] at hb hzero ⊢
  rintro rfl
  exact hb ⟨hzero, UInt64.le_refl _⟩

theorem Sealer.Sound.reconcileBlocks (modTimeUs : UInt64 → Int) : ∀ {ids : List UInt64} {x : Sealer},
    x.Sound → (x.reconcileBlocks modTimeUs ids).Sound
  | [], _, h => h
  | b :: ids, x, h => by
    unfold Sealer.reconcileBlocks
    split
    · exact Sealer.Sound.reconcileBlocks modTimeUs h
    next hskip =>
      have hclosed := h.isOpen_of_skips (Bool.eq_false_iff.mpr hskip)
      split
      · exact h
      · next y hy =>
          exact Sealer.Sound.reconcileBlocks modTimeUs (h.reconcileClosedBlock hclosed hy).1

theorem Sealer.Sound.reconcileClosedBlocks (h : x.Sound) (ids : List UInt64)
    (modTimeUs : UInt64 → Int) : (x.reconcileClosedBlocks ids modTimeUs).Sound := by
  unfold Sealer.reconcileClosedBlocks
  split
  · exact h.reconcileBlocks modTimeUs
  · exact h

theorem Sealer.Sound.collect (h : x.Sound) (now retryAfter : Nat) :
    (x.collect now retryAfter).Sound :=
  h.of_shard rfl rfl fun _ _ hn => .inl (Sealer.owes_collect hn)

theorem Sealer.Sound.propose (h : x.Sound) (i : Nat) (accepted : Bool) (retryAfter : Nat) :
    (x.propose i accepted retryAfter).Sound := by
  unfold Sealer.propose
  cases hu : x.collected[i]? with
  | none => exact h
  | some u => ?_
  have hshut := h.owed _ _ (.collected (List.mem_of_getElem? hu))
  have herase : ∀ v, v ∈ x.collected.eraseIdx i → v ∈ x.collected :=
    fun _ hv => List.mem_of_mem_eraseIdx hv
  simp only
  split
  · refine ⟨h.zero, fun b n hn => h.owed b n (hn.mono (fun _ _ hi => hi) ?_ herase), fun p hp => ?_⟩
    · cases accepted with
      | true => exact fun o ho => ⟨o, ho, rfl⟩
      | false => exact fun o ho => markRetryFailed_upload ho
    · rcases List.mem_append.mp hp with hp | hp
      · exact h.past p hp
      · rw [List.mem_singleton.mp hp]
        exact hshut
  · exact h.of_shard rfl rfl fun _ _ hn => .inl (hn.mono (fun _ _ hi => hi)
      (fun o ho => ⟨o, ho, rfl⟩) herase)

theorem Sealer.Sound.noteSealed (h : y.Sound) (hw : y.shard.Shut w.blockID w.offset) :
    (y.noteSealed w intentAtUs sealedAtUs).Sound := by
  have hshard : (y.noteSealed w intentAtUs sealedAtUs).shard = y.shard := by
    unfold Sealer.noteSealed
    split <;> rfl
  have hproposed : (y.noteSealed w intentAtUs sealedAtUs).proposed = y.proposed := by
    unfold Sealer.noteSealed
    split <;> rfl
  refine h.of_shard hshard hproposed fun b n hn => ?_
  rcases Sealer.owes_noteSealed hn with hold | ⟨rfl, rfl⟩
  · exact .inl hold
  · exact .inr hw

/-! ## Every step -/

theorem Shard.Shut.of_size {t : Shard}
    (h : (s.blocks w.blockID).blk.map BlkFile.size = some w.offset)
    (hopen : t.isOpen w.blockID = false)
    (hblk : (t.blocks w.blockID).blk = (s.blocks w.blockID).blk) :
    t.Shut w.blockID w.offset := by
  refine ⟨hopen, ?_⟩
  rw [hblk]
  cases hf : (s.blocks w.blockID).blk with
  | none => simp [hf] at h
  | some f =>
    rw [hf, Option.map_some, Option.some.injEq] at h
    rw [Option.map_some, h]

theorem Sealer.Sound.write (h : x.Sound) {sealSize : Nat} {req : WriteRequest}
    {allowed pressure : Except ShardErr Unit}
    (hsafe : (SealEvent.write sealSize req allowed pressure intentAtUs sealedAtUs now
      retryAfter).Spares x)
    (hrun : ((SealEvent.write sealSize req allowed pressure intentAtUs sealedAtUs now
      retryAfter).run c).run x = .ok () y) : y.Sound := by
  have hcall : (x.call (admitWrite c sealSize req allowed pressure)).Sound := by
    refine h.call fun b hb => ?_
    have hrest : x.shard.Rests b (x.shard.blocks b) := ⟨h.closed hb, rfl⟩
    exact (admitWrite_rests c hrest (hsafe.ne hb List.mem_cons_self) ..).stays
  cases hrun
  simp only
  cases hw : x.shard.sealedBy sealSize req with
  | none => exact hcall
  | some w => ?_
  obtain ⟨hsize, hnew⟩ := hsafe.sealed w hw
  have hne : x.shard.nextBlockID ≠ w.blockID := fun heq => hnew (List.mem_singleton.mpr heq.symm)
  have hshard : (x.call (admitWrite c sealSize req allowed pressure)).shard =
      x.shard.openNewBlock := by
    show after (admitWrite c sealSize req allowed pressure) x.shard = _
    rw [after_admitWrite, hw]
    rfl
  refine (hcall.noteSealed ?_).collect now retryAfter
  rw [hshard]
  refine .of_size hsize ?_ ?_
  · simp [Shard.isOpen, Shard.openNewBlock, newWriter, hne]
  · simp [Shard.openNewBlock, hne.symm]

theorem Sealer.Sound.shutdown (h : x.Sound)
    (hsafe : (SealEvent.shutdown intentAtUs sealedAtUs).Spares x)
    (hrun : ((SealEvent.shutdown intentAtUs sealedAtUs).run c).run x = .ok () y) : y.Sound := by
  have hclose : Sealer.Sound { x with shard := { x.shard with blockWriter := none } } :=
    h.of_stays rfl rfl (fun b n _ => ⟨rfl, rfl⟩) fun b n hn => .inl (hn.same rfl rfl rfl)
  cases hrun
  simp only
  cases hw : x.shard.tail with
  | none => exact hclose
  | some w => exact hclose.noteSealed (.of_size (hsafe.sealed w hw).1 rfl rfl)

theorem Sealer.Sound.entry (h : x.Sound) {e : LogEntry} (hsafe : (SealEvent.entry e).Spares x)
    (hrun : ((SealEvent.entry e).run c).run x = .ok () y) : y.Sound := by
  have hproposed : (x.noteEntry e.cmd).proposed = x.proposed := by
    unfold Sealer.noteEntry
    split
    · rfl
    · split <;> rfl
    · rfl
  simp only [SealEvent.run, EStateM.run] at hrun
  split at hrun
  next happly =>
    cases hrun
    have hstays := fun b (hb : b = 0 ∨ ∃ n, x.Owes b n) =>
      LogEntry.apply_stays (h.closed hb) (hsafe.ne hb List.mem_cons_self) happly
    refine h.of_stays hproposed (hstays 0 (.inl rfl)).1 (fun b n hn => hstays b (.inr ⟨n, hn⟩))
      fun b n hn => .inl ?_
    have hnote : (x.noteEntry e.cmd).Owes b n := hn.same rfl rfl rfl
    exact Sealer.owes_noteEntry hnote
  next => cases hrun

theorem Sealer.Sound.restart (h : x.Sound) {ids : List UInt64}
    (hsafe : (SealEvent.restart ids).Spares x) : (SealEvent.restarted x ids).Sound := by
  have hstays := fun b (hb : b = 0 ∨ ∃ n, x.Owes b n) =>
    (openShard_rests (s := x.shard) (hsafe.ne hb List.mem_cons_self)).stays
  unfold SealEvent.restarted
  split <;>
  exact h.of_stays rfl (hstays 0 (.inl rfl)).1 (fun b n hn => hstays b (.inr ⟨n, hn⟩))
    fun b n hn => .inl (hn.mono (fun _ _ hi => hi) nofun nofun)

theorem Sealer.Sound.recover (h : x.Sound) (hsafe : SealEvent.recover.Spares x) :
    Sealer.Sound { (x.call (resolveOpenlogTruncations x.candidates)) with candidates := [] } := by
  refine h.of_stays rfl (resolveOpenlogTruncations_isOpen h.zero) (fun b n hb => ?_)
    fun b n hn => .inl (hn.same rfl rfl rfl)
  obtain ⟨hclosed, hsize⟩ := h.owed b n hb
  refine resolveOpenlogTruncations_stays hclosed fun cand hmem heq f hf => ?_
  have hle := hsafe.uncut cand hmem n (heq ▸ hb)
  rw [hf, Option.map_some, Option.some.injEq] at hsize
  omega

theorem SealEvent.run_sound (h : x.Sound) (hsafe : event.Spares x)
    (hrun : (event.run c).run x = .ok () y) : y.Sound := by
  -- a call on the open Block leaves every closed one alone
  have hopenBlock : ∀ {α : Type} {m : ShardM α}, (∀ b b' files, b' ≠ b →
      Keeps (fun t : Shard => t.Rests b files ∧ t.WritesTo b') m) → (x.call m).Sound := by
    intro α m hm
    refine h.call fun b hb => ?_
    have hrest : x.shard.Rests b (x.shard.blocks b) := ⟨h.closed hb, rfl⟩
    exact (hrest.keeps fun b' hne => hm b b' _ hne).stays
  cases event with
  | write => exact h.write hsafe hrun
  | shutdown => exact h.shutdown hsafe hrun
  | entry => exact h.entry hsafe hrun
  | stream raft init body writeID now peers =>
    cases hrun
    refine h.call fun b hb => ?_
    have hrest : x.shard.Rests b (x.shard.blocks b) := ⟨h.closed hb, rfl⟩
    have htarget : init.blockID ∈ [x.shard.nextBlockID, init.blockID] := by simp
    exact (stream_rests c hrest raft (hsafe.ne hb htarget) (hsafe.ne hb List.mem_cons_self) body
      writeID now peers).stays
  | append req encryptor writeID now =>
    cases hrun
    exact hopenBlock fun b b' files hne => appendWrite_closed
      (Shard.Rests.streamClosed hne).writesTo c (fun _ ht => ht.2) req encryptor writeID now
  | abort writeID startOffset =>
    cases hrun
    exact hopenBlock fun b b' files hne => abortWriteAttempt_closed
      (Shard.Rests.streamClosed hne).writesTo (fun _ ht => ht.2) writeID startOffset
  | restart ids =>
    cases hrun
    exact h.restart hsafe
  | recover =>
    cases hrun
    exact h.recover hsafe
  | reconcile ids modTimeUs =>
    cases hrun
    exact h.reconcileClosedBlocks ids modTimeUs
  | retry ids modTimeUs now retryAfter =>
    cases hrun
    exact (h.reconcileClosedBlocks ids modTimeUs).collect now retryAfter
  | propose i accepted retryAfter =>
    cases hrun
    exact h.propose i accepted retryAfter

theorem Sealer.start_sound (h : s.isOpen 0 = false) : (Sealer.start s).Sound where
  zero := h
  owed := fun b n hn => by cases hn with
    | intent hi => cases hi
    | obligation ho => cases ho
    | collected hu => cases hu
  past := nofun

end Steps

/-- In every run in which a Block that owes a seal is neither opened nor cut, and is sealed while it
ends where its writer is, each SealBlock proposed carries the size of the proposer's closed Block.
-/
theorem seal_proposals_match (c : Crypto) {s : Shard} (hs : s.isOpen 0 = false)
    {events : List SealEvent} {x : Sealer}
    (hrun : (runAll (SealEvent.run c) events).run (Sealer.start s) = .ok () x)
    (hcond : Meets (SealEvent.run c) (fun y event => event.Spares y) (Sealer.start s) events) :
    ∀ p ∈ x.proposed, p.Matches := by
  have hstep : ∀ event y y', Sealer.Sound y → SealEvent.Spares y event →
      (SealEvent.run c event).run y = .ok () y' → y'.Sound :=
    fun event y y' hy hsafe hstep => SealEvent.run_sound hy hsafe hstep
  exact (Meets.invariant hstep (Sealer.start_sound hs) hcond hrun).past

/-! ## A Block that is opened again -/

def eightByteBody : Body := ⟨List.replicate 8 0, false⟩

/-- The leader writes `x` to Block `1` and seals it for the next write. It has lost the lead: Raft
takes neither the seal nor that write. -/
def sealedRun : List SealEvent :=
  [.append ⟨"t", "x", "text/plain", eightByteBody⟩ none "w1" 1,
    .entry ⟨1, .commitDoc (docOfT "x" 1 40)⟩,
    .write 64 ⟨"t", "y", "text/plain", eightByteBody⟩ (.ok ()) (.ok ()) 5 5 10 11,
    .propose 0 false 12,
    .append ⟨"t", "y", "text/plain", eightByteBody⟩ none "w2" 5,
    .abort "w2" 40]

/-- Member `2`, which has Block `1` open, streams `z` to it. -/
def streamedRun : List SealEvent :=
  [.stream ⟨2, 2⟩ ⟨"t", "z", "text/plain", 1, 80, 1, 8, List.replicate 32 7, [], 2, 2⟩ eightByteBody
    "w3" 6 []]

/-- It leads again, and retries the seal. -/
def retriedRun : List SealEvent := [.retry [1, 2] (fun _ => 7) 20 21, .propose 0 true 22]

theorem reopened_block_proposed : ∃ x,
    (runAll (SealEvent.run keylessCrypto) (sealedRun ++ streamedRun ++ retriedRun)).run
      (Sealer.start (Shard.fresh 1 true)) = .ok () x ∧
    x.proposed.map (fun p => (p.cmd.blockID, p.cmd.sealedSizeBytes, p.blk.map BlkFile.size,
      p.isOpen)) = [(1, 80, some 80, false), (1, 80, some 120, true)] ∧
    ∃ p ∈ x.proposed, ¬ p.Matches :=
  ⟨_, outcome_ok_iff.mp (by decide +kernel), by decide +kernel⟩

def Sealer.owesNothing (x : Sealer) (b : UInt64) : Bool :=
  (x.intents b).isNone ∧ x.obligations.all (fun o => o.upload.blockID ≠ b) ∧
    x.collected.all (fun u => u.blockID ≠ b)

theorem Sealer.not_owes {x : Sealer} (h : x.owesNothing b = true) (n : Int) :
    ¬ x.Owes b n := by
  simp only [Sealer.owesNothing, decide_eq_true_eq] at h
  obtain ⟨hintent, hobligations, hcollected⟩ := h
  intro hn
  cases hn with
  | intent hi => simp [hi] at hintent
  | obligation ho => simpa using List.all_eq_true.mp hobligations _ ho
  | collected hu => simpa using List.all_eq_true.mp hcollected _ hu

theorem SealEvent.Spares.decided {x : Sealer} (hcuts : event.cuts x = [])
    (hopened : (event.opens x).all (fun b => b ≠ 0 ∧ x.owesNothing b) = true)
    (hsealed : ∀ w ∈ event.seals x,
      (x.shard.blocks w.blockID).blk.map BlkFile.size = some w.offset ∧
        w.blockID ∉ event.opens x) : event.Spares x where
  opened := fun b hb => by
    have hnone := List.all_eq_true.mp hopened b hb
    simp only [decide_eq_true_eq] at hnone
    exact ⟨hnone.1, Sealer.not_owes hnone.2⟩
  uncut := fun cand hcand => by
    rw [hcuts] at hcand
    cases hcand
  sealed := hsealed

theorem seal_proposals_match_retried : ∃ x,
    (runAll (SealEvent.run keylessCrypto) (sealedRun ++ retriedRun)).run
      (Sealer.start (Shard.fresh 1 true)) = .ok () x ∧
    x.proposed.map (·.cmd.sealedSizeBytes) = [80, 80] ∧ ∀ p ∈ x.proposed, p.Matches := by
  have hrun := outcome_ok_iff.mp (show outcome (runAll (SealEvent.run keylessCrypto)
    (sealedRun ++ retriedRun)) (Sealer.start (Shard.fresh 1 true)) = .ok () by decide +kernel)
  have hcond : Meets (SealEvent.run keylessCrypto) (fun y event => event.Spares y)
      (Sealer.start (Shard.fresh 1 true)) (sealedRun ++ retriedRun) :=
    ⟨.decided rfl rfl (by decide +kernel), .decided rfl (by decide +kernel) (by decide +kernel),
      .decided rfl (by decide +kernel) (by decide +kernel), .decided rfl rfl (by decide +kernel),
      .decided rfl rfl (by decide +kernel), .decided rfl rfl (by decide +kernel),
      .decided rfl rfl (by decide +kernel), .decided rfl rfl (by decide +kernel), trivial⟩
  exact ⟨_, hrun, by decide +kernel, seal_proposals_match keylessCrypto rfl hrun hcond⟩

end Scrap
