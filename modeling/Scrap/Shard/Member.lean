/-
# The calls a Member takes, and the log it applies

A Member takes committed entries from Raft, Documents from the leader's streams, writes of its own
clients while it leads, and restarts. Only a failed apply stops it. `Shard.Sound` holds in every
state it reaches, and under it `member_applies_iff` says exactly which logs apply to the end: at
each CommitDocument entry the Document is settled, or its Block's `.idx` is there and takes the
record.
-/
import Scrap.Shard.CommitLog
import Scrap.Shard.Decision
import Scrap.Shard.StreamFrame

namespace Scrap

open Block Fallible Function

/-! ## What holds in every state -/

/-- No Transaction lists more Blocks than it counts Documents. -/
def View.Short (v : View) : Prop := ∀ t r, v.tx t = some r → r.blockIDs.length ≤ r.docCount.toNat

/-- Well-formed records, and no torn `.idx`. -/
structure Shard.Sound (s : Shard) : Prop where
  good : s.Good
  intact : s.Intact
  short : s.view.Short

namespace Shard.Sound

variable {s s' : Shard}

theorem short_of_txs (h : s.Sound) (htxs : s'.idx.txs = s.idx.txs) : s'.view.Short := by
  have hget : ∀ t, s'.idx.get t = s.idx.get t := fun t => by rw [Index.get, Index.get, htxs]
  intro t r hr
  refine h.short t r ?_
  simpa [Shard.view, hget] using hr

theorem of_same (h : s.Sound) (htxs : s'.idx.txs = s.idx.txs)
    (hidx : ∀ b, (s'.blocks b).idx = (s.blocks b).idx)
    (hopen : ∀ b, s'.isOpen b = true → s.isOpen b = true) : s'.Sound := by
  refine ⟨⟨fun t val hval => h.good.wf t val (htxs ▸ hval), fun b hb => ?_⟩,
    fun b f hf => h.intact b f (hidx b ▸ hf), h.short_of_txs htxs⟩
  rw [hidx b]
  exact h.good.openIdx b (hopen b hb)

theorem withWriter (h : s.Sound) (w : Writer) (hidx : (s.blocks w.blockID).idx.isSome) :
    Shard.Sound { s with blockWriter := some w } := by
  refine ⟨⟨h.good.wf, fun b hb => ?_⟩, h.intact, h.short⟩
  obtain rfl : w.blockID = b := by simpa [Shard.isOpen] using hb
  obtain ⟨f, hf⟩ := Option.isSome_iff_exists.mp hidx
  exact ⟨f, hf, h.intact _ f hf⟩

theorem noWriter (h : s.Sound) : Shard.Sound { s with blockWriter := none } :=
  h.of_same rfl (fun _ => rfl) fun b hb => by simp [Shard.isOpen] at hb

theorem setBlock (h : s.Sound) (b : UInt64) (files : BlockFiles)
    (hsome : files.idx.isSome ∨ s.isOpen b = false)
    (hfile : ∀ f, files.idx = some f → f.torn = false) : (s.setBlock b files).Sound := by
  refine ⟨h.good.setBlock fun hopen => ?_, h.intact.setBlock hfile, h.short⟩
  obtain ⟨f, hf⟩ := Option.isSome_iff_exists.mp (hsome.resolve_right (by simp [hopen]))
  exact ⟨f, hf, hfile f hf⟩

theorem setBlk (h : s.Sound) (b : UInt64) (f : Option BlkFile) : (s.setBlk b f).Sound := by
  refine h.of_same rfl (fun b' => ?_) fun _ hb => hb
  by_cases hb : b' = b <;> simp [Shard.setBlk, Shard.setBlock, hb]

theorem openNewBlock (h : s.Sound) : s.openNewBlock.Sound := by
  have hnew := h.noWriter.setBlock s.nextBlockID
    { s.blocks s.nextBlockID with blk := some newBlkFile, idx := some newIndexFile } (.inl rfl)
    fun f hf => by cases hf; rfl
  have hopen := hnew.withWriter (newWriter s.nextBlockID) (by simp [newWriter, Shard.setBlock])
  exact ⟨⟨hopen.good.wf, hopen.good.openIdx⟩, hopen.intact, hopen.short⟩

theorem wake (h : s.Sound) (key : String) (result : Option ShardErr) : (s.wake key result).Sound := by
  unfold Shard.wake
  split
  · exact h
  · exact h.of_same rfl (fun _ => rfl) fun _ hb => hb

theorem closeIfOpen (h : s.Sound) (b : UInt64) : (s.closeIfOpen b).Sound := by
  unfold Shard.closeIfOpen
  split
  · exact h.openNewBlock
  · exact h

theorem writeBlk (h : s.Sound) {w w' : Writer} (hw : s.blockWriter = some w)
    (hid : w'.blockID = w.blockID) (b : UInt64) (f : BlkFile) :
    Shard.Sound { (s.setBlk b (some f)) with blockWriter := some w' } :=
  (h.setBlk b (some f)).of_same rfl (fun _ => rfl) fun b' hb' => by
    simpa [Shard.isOpen, Shard.setBlk, Shard.setBlock, hw, hid] using hb'

end Shard.Sound

variable {s s' : Shard} {v : View}

theorem Shard.Sound.reopened (h : s.Sound) {current : UInt64} {bw : Writer}
    (hne : bw.blockID ≠ current) (hidx : (s.blocks bw.blockID).idx.isSome) :
    (s.reopened current bw).Sound := by
  have hset := (h.noWriter.setBlock current { s.blocks current with blk := none, idx := none }
    (.inr rfl) fun f hf => by cases hf).withWriter bw
      (by simpa [Shard.setBlock, hne] using hidx)
  exact ⟨⟨hset.good.wf, hset.good.openIdx⟩, hset.intact, hset.short⟩

/-! ## The streams -/

section Streams

variable (c : Crypto)

theorem advanceReplicaBlock_sound (target : UInt64) :
    Keeps Shard.Sound (advanceReplicaBlock target) := by
  intro s hs
  rcases after_advanceReplicaBlock_cases s target with
    hsame | ⟨w, -, ⟨-, hnew⟩ | ⟨hnext, -, hidx, f, bw, -, hopen, hback⟩⟩
  · exact hsame.symm ▸ hs
  · exact hnew.symm ▸ hs.openNewBlock
  have hbw := openWriter_blockID hopen
  rw [hback]
  refine hs.reopened ?_ (hbw.symm ▸ hidx)
  rw [hbw, hnext]
  simp

theorem Shard.Sound.streamClosed (b : UInt64) : Shard.StreamClosed b Shard.Sound where
  noWriter := fun h => h.noWriter
  preps := fun h _ => h.of_same rfl (fun _ => rfl) fun _ hb => hb
  withPending := fun h p => ⟨h.good.withPending p, h.intact, h.short⟩
  writeBlk := fun h hw hid hid' f => h.writeBlk hw (hid'.trans hid.symm) _ f
  repair := fun h _ idx ht => h.setBlock _ _ (.inl rfl) fun f hf => by cases hf; exact ht
  withWriter := fun h hid hidx => h.withWriter _ (hid ▸ hidx)

theorem repairFromPeers_sound (b : UInt64) (want : Nat) (now : Int)
    (peers : List (Option StagedBlock)) : Keeps Shard.Sound (repairFromPeers c b want now peers) :=
  repairFromPeers_closed (Shard.Sound.streamClosed b) c want now peers

theorem appendReplicatedDocument_sound (raft : RaftStatus) (init : ReplicateDocumentInit)
    (body : Body) (writeID : String) (now : Int) (peers : List (Option StagedBlock)) :
    Keeps Shard.Sound (appendReplicatedDocument c raft init body writeID now peers) :=
  fun s hs => appendReplicatedDocument_closed c raft init body writeID now peers
    (Shard.Sound.streamClosed _) (fun _ h => h) hs (advanceReplicaBlock_sound _ s hs)
    fun _ _ _ => advanceReplicaBlock_sound _ s hs

end Streams

/-! ## The other calls -/

section Calls

variable (c : Crypto)

theorem abortWriteAttempt_sound (writeID : String) (offset : Nat) :
    Keeps Shard.Sound (abortWriteAttempt writeID offset) :=
  keeps_of_closed fun b => abortWriteAttempt_closed (Shard.Sound.streamClosed b).writesTo
    (fun _ h => h.2) writeID offset

theorem admitWrite_sound (sealSize : Nat) (req : WriteRequest)
    (allowed pressure : Except ShardErr Unit) :
    Keeps Shard.Sound (admitWrite c sealSize req allowed pressure) := by
  intro s hs
  rcases after_admitWrite_cases c s sealSize req allowed pressure with hsame | ⟨hnew, -⟩
  · exact hsame.symm ▸ hs
  · exact hnew.symm ▸ hs.openNewBlock

theorem appendWrite_sound (req : WriteRequest) (encryptor : Option Encryptor) (writeID : String)
    (now : Int) : Keeps Shard.Sound (appendWrite c req encryptor writeID now) :=
  keeps_of_closed fun b => appendWrite_closed (Shard.Sound.streamClosed b).writesTo c
    (fun _ h => h.2) req encryptor writeID now

theorem openShard_sound (ids : List UInt64) : Keeps Shard.Sound (openShard ids) := by
  refine (Keeps.modify fun s hs => ?_).bind fun _ => Keeps.bind
    (recoverOpenlog_keeps fun s _ hs => hs.of_same rfl (fun _ => rfl) fun _ hb => hb) fun _ =>
      (Keeps.modify fun s hs => hs.openNewBlock).bind fun _ => Keeps.pure _
  exact hs.noWriter.of_same rfl (fun _ => rfl) fun _ hb => by
    simp [Shard.reloaded, Shard.isOpen] at hb

end Calls

/-! ## The steps of a Member -/

/-- A call whose error goes to its caller. -/
inductive MemberCall where
  /-- the leader's stream of one Document -/
  | stream (raft : RaftStatus) (init : ReplicateDocumentInit) (body : Body) (writeID : String)
      (now : Int) (peers : List (Option StagedBlock))
  | prepare (sealSize : Nat) (req : WriteRequest) (allowed pressure : Except ShardErr Unit)
  | append (req : WriteRequest) (encryptor : Option Encryptor) (writeID : String) (now : Int)
  | abort (writeID : String) (startOffset : Nat)
  /-- `ids` is what the blocks directory lists -/
  | restart (ids : List UInt64)

def MemberCall.run (c : Crypto) : MemberCall → ShardM Unit
  | .stream raft init body writeID now peers =>
    attempt (appendReplicatedDocument c raft init body writeID now peers)
  | .prepare sealSize req allowed pressure => attempt (admitWrite c sealSize req allowed pressure)
  | .append req encryptor writeID now => attempt (appendWrite c req encryptor writeID now)
  | .abort writeID startOffset => attempt (abortWriteAttempt writeID startOffset)
  | .restart ids => attempt (openShard ids)

theorem MemberCall.run_sound (c : Crypto) (call : MemberCall) :
    Keeps Shard.Sound (call.run c) := by
  cases call with
  | stream raft init body writeID now peers =>
    exact appendReplicatedDocument_sound c raft init body writeID now peers
  | prepare sealSize req allowed pressure => exact admitWrite_sound c sealSize req allowed pressure
  | append req encryptor writeID now => exact appendWrite_sound c req encryptor writeID now
  | abort writeID startOffset => exact abortWriteAttempt_sound writeID startOffset
  | restart ids => exact openShard_sound ids

inductive MemberStep where
  | call (member : MemberCall)
  | commit (doc : CommitDocument) (index : UInt64)
  | sealBlock (cmd : SealBlock) (index : UInt64)

def MemberStep.run (c : Crypto) : MemberStep → ShardM Unit
  | .call member => member.run c
  | .commit doc index => applyEntryCommand c (.commitDoc doc) index
  | .sealBlock cmd index => applyEntryCommand c (.sealBlock cmd) index

/-- The upload record of a sealed Block can be written, or is there with a generation. -/
def Shard.CanSeal (s : Shard) (cmd : SealBlock) : Prop :=
  cmd.blockID ≠ 0 ∧ ((∃ u, s.idx.pendingUploads cmd.blockID = some u ∧ 0 < u.uploadGeneration) ∨
    (0 ≤ cmd.sealedSizeBytes ∧ 0 ≤ cmd.sealedAtUs))

def MemberStep.Ready (s : Shard) : MemberStep → Prop
  | .call _ => True
  | .commit doc index =>
    s.view.Takes (s.isOpen doc.blockID) doc ∧ (s.view.Sees doc ∨ s.CanRequeue doc index)
  | .sealBlock cmd _ => s.CanSeal cmd

theorem applyCommittedSeal_iff (idx : Index) (cmd : SealBlock) :
    (∃ idx', idx.applyCommittedSeal cmd = .ok idx') ↔
      cmd.blockID ≠ 0 ∧ ((∃ u, idx.pendingUploads cmd.blockID = some u ∧ 0 < u.uploadGeneration) ∨
        (0 ≤ cmd.sealedSizeBytes ∧ 0 ≤ cmd.sealedAtUs)) := by
  have hv := validatePendingUpload_ok
    (u := ⟨cmd.blockID, cmd.shardID, cmd.sealedSizeBytes, cmd.sealedAtUs, 0⟩)
  unfold Index.applyCommittedSeal Index.getPendingUpload Index.putPendingUpload
  by_cases hb : cmd.blockID = 0
  · simp [hb]
  simp only [if_neg hb]
  cases hval : validatePendingUpload
      ⟨cmd.blockID, cmd.shardID, cmd.sealedSizeBytes, cmd.sealedAtUs, 0⟩ with
  | error err =>
    have hno : ¬ (0 ≤ cmd.sealedSizeBytes ∧ 0 ≤ cmd.sealedAtUs) := by
      rw [hval] at hv
      simpa [hb] using hv
    cases idx.pendingUploads cmd.blockID with
    | none => simp [hno]
    | some u => ?_
    by_cases hgen : 0 < u.uploadGeneration <;> simp [hgen, hno, hb]
  | ok u =>
    have hyes : 0 ≤ cmd.sealedSizeBytes ∧ 0 ≤ cmd.sealedAtUs := by
      rw [hval] at hv
      simpa [hb] using hv
    cases idx.pendingUploads cmd.blockID with
    | none => simp [hb, hyes]
    | some u => ?_
    by_cases hgen : 0 < u.uploadGeneration <;> simp [hb, hgen, hyes]

theorem Index.putPendingUpload_txs {idx idx' : Index} {u : PendingUpload}
    (h : idx.putPendingUpload u = .ok idx') : idx'.txs = idx.txs := by
  unfold Index.putPendingUpload at h
  split at h
  · cases h
  simp only [Except.ok.injEq] at h
  rw [← h]

theorem Index.applyCommittedSeal_txs {idx idx' : Index} {cmd : SealBlock}
    (h : idx.applyCommittedSeal cmd = .ok idx') : idx'.txs = idx.txs := by
  unfold Index.applyCommittedSeal at h
  cases hput : idx.putPendingUpload
      ⟨cmd.blockID, cmd.shardID, cmd.sealedSizeBytes, cmd.sealedAtUs, 0⟩ with
  | error err =>
    simp only [hput] at h
    split at h
    · split at h
      · rw [Except.ok.inj h]
      · cases h
    · cases h
    · cases h
  | ok idx'' =>
    have htxs := Index.putPendingUpload_txs hput
    simp only [hput] at h
    split at h
    · split at h
      · rw [Except.ok.inj h]
      · rwa [← Except.ok.inj h]
    · rwa [← Except.ok.inj h]
    · cases h

theorem applySealBlock_sound {cmd : SealBlock} (hs : s.Sound)
    (h : (applySealBlock cmd).run s = .ok () s') : s'.Sound := by
  rw [applySealBlock] at h
  cases hseal : s.idx.applyCommittedSeal cmd with
  | error err => simp [hseal] at h
  | ok idx => ?_
  obtain rfl : Shard.closeIfOpen { s with idx := idx } cmd.blockID = s' := by simpa [hseal] using h
  refine Shard.Sound.closeIfOpen ?_ _
  exact hs.of_same (Index.applyCommittedSeal_txs hseal) (fun _ => rfl) fun _ hb => hb

theorem View.Short.update (h : v.Short) (t : String) {r : Entry}
    (hr : r.blockIDs.length ≤ r.docCount.toNat) :
    View.Short { v with tx := update v.tx t (some r) } := by
  intro t' r' hr'
  by_cases ht : t' = t
  · subst ht
    obtain rfl : r = r' := by simpa using hr'
    exact hr
  · exact h t' r' (by simpa [ht] using hr')

theorem View.Short.count {v' : View} {t : String} {b : UInt64} (h : v.Short)
    (hc : v.count t b = some v') : v'.Short := by
  obtain ⟨⟨hroom, -⟩, rfl⟩ := View.count_some.mp hc
  refine h.update t ?_
  unfold View.nextEntry
  cases htx : v.tx t with
  | none => exact Nat.le_refl 1
  | some e => ?_
  have hlen := h t e htx
  have hsucc := toNat_succ_docCount (hroom e htx)
  simp only [Entry.addDocument]
  split
  · omega
  · simp only [List.length_append, List.length_singleton]
    omega

theorem View.Short.commit {v' : View} {o : Bool} {doc : CommitDocument} (h : v.Short)
    (hc : v.commit o doc = some v') : v'.Short := by
  obtain ⟨-, rfl⟩ | ⟨a, c, -, hwrite⟩ := View.commit_some.mp hc
  · exact h
  obtain ⟨entry, v₁, -, hw, hcount⟩ := View.commitWrite_some.mp hwrite
  have h₁ : v₁.Short := by
    unfold View.Short
    rw [View.writeIdx_tx hw]
    exact h
  obtain ⟨-, rfl⟩ | ⟨-, hcount⟩ := hcount
  · exact h₁
  · exact h₁.count hcount

theorem applyCommitDocumentCommand_sound {doc : CommitDocument} {i : UInt64} (hs : s.Sound)
    (h : (applyCommitDocumentCommand doc i).run s = .ok () s') : s'.Sound := by
  have hrun : applyCommitDocumentCommand doc i s = .ok () s' := h
  unfold applyCommitDocumentCommand at hrun
  cases hdoc : (applyCommitDocument doc i).run s with
  | error err t => simp [hdoc] at hrun
  | ok u t => ?_
  obtain rfl : t.wake (commitProposalWaiterKey doc) none = s' := by simpa [hdoc] using hrun
  obtain ⟨hview, hg, hrest⟩ := applyCommitDocument_ok hs.good hdoc
  exact Shard.Sound.wake ⟨hg, hrest.intact hs.intact, hs.short.commit hview⟩ _ _

section Log

variable {c : Crypto}

theorem MemberStep.run_sound {step : MemberStep} (hs : s.Sound)
    (h : (step.run c).run s = .ok () s') : s'.Sound := by
  cases step with
  | call member => exact (MemberCall.run_sound c member).ok hs h
  | commit doc index => exact applyCommitDocumentCommand_sound hs h
  | sealBlock cmd index => exact applySealBlock_sound hs h

theorem MemberStep.run_iff_ready (hs : s.Sound) (step : MemberStep) :
    (∃ s', (step.run c).run s = .ok () s') ↔ step.Ready s := by
  cases step with
  | call member => exact iff_of_true (by cases member <;> exact ⟨_, rfl⟩) trivial
  | commit doc index =>
    exact applyCommitDocumentCommand_iff.trans (applyCommitDocument_nil_iff hs.good doc index)
  | sealBlock cmd index => exact (applySealBlock_iff s cmd).trans (applyCommittedSeal_iff s.idx cmd)

/-- The entries of a log apply to the end exactly when each of them finds its Member ready. -/
theorem member_applies_iff {s : Shard} (hs : s.Sound) (steps : List MemberStep) :
    (∃ s', (runAll (MemberStep.run c) steps).run s = .ok () s') ↔
      Meets (MemberStep.run c) (fun s step => step.Ready s) s steps :=
  runAll_ok_iff_meets (fun _ step hs => MemberStep.run_iff_ready hs step)
    (fun _ _ _ hs h => MemberStep.run_sound hs h) steps s hs

end Log

/-! ## A Member that missed a Block -/

theorem Shard.fresh_sound (shardID : UInt64) (uploadEnabled : Bool) :
    (Shard.fresh shardID uploadEnabled).Sound :=
  ⟨(Shard.fresh_fresh shardID uploadEnabled).1, Shard.fresh_intact shardID uploadEnabled,
    fun t r hr => by cases hr⟩

/-- The leader commits `x` to Block `1`, restarts and commits `y` to its next Block. A Member
that got neither stream applies `x` to the Block it opened itself, and fails at `y`. -/
theorem missed_block_stops_member :
    (∀ uploads, (Shard.fresh 1 uploads).Sound) ∧ ∀ (c : Crypto) (uploads : Bool), ∃ s',
        (runAll (MemberStep.run c) [.commit (docOfT "x" 1 40) 1, .commit (docOfT "y" 2 40) 2]).run
          (Shard.fresh 1 uploads) = .error (.openHistoricalReadIdx .notExist) s' :=
  ⟨Shard.fresh_sound 1, fun _ uploads => by cases uploads <;> exact ⟨_, rfl⟩⟩

/-- The SealBlock of the Block it has open moves a Member to the next one. -/
theorem sealed_member_applies :
    (Shard.fresh 1 true).Sound ∧ ∀ c : Crypto,
      Meets (MemberStep.run c) (fun s step => step.Ready s) (Shard.fresh 1 true)
        [.commit (docOfT "x" 1 40) 1, .sealBlock ⟨1, 1, 40, 1⟩ 2, .commit (docOfT "y" 2 40) 3] :=
  ⟨Shard.fresh_sound 1 true, fun _ => (member_applies_iff (Shard.fresh_sound 1 true) _).mp ⟨_, rfl⟩⟩

end Scrap
