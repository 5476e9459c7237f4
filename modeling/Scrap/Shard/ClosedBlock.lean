/-
# A closed Block stays as it is

The files of a closed Block change when a commit appends to its `.idx`, and otherwise only if the
Block is opened again: by a stream for it, or, when its files are gone, as the next new Block.
`MemberStep.Spares` says that a step does neither, and `MemberStep.run_spares` what it then leaves.
-/
import Scrap.Shard.ApplyFrame
import Scrap.Shard.Member

namespace Scrap

open Block Fallible Function

/-- `b` is closed and has these files. -/
def Shard.Rests (b : UInt64) (files : BlockFiles) (s : Shard) : Prop :=
  s.isOpen b = false ∧ s.blocks b = files

namespace Shard.Rests

variable {b b' : UInt64} {files : BlockFiles} {s t : Shard}

theorem writer_ne (h : s.Rests b files) {w : Writer} (hw : s.blockWriter = some w) :
    w.blockID ≠ b := by
  have hopen := h.1
  simpa [Shard.isOpen, hw] using hopen

theorem noWriter (h : s.Rests b files) : Shard.Rests b files { s with blockWriter := none } :=
  ⟨rfl, h.2⟩

theorem withWriter (h : s.Rests b files) {w : Writer} (hw : w.blockID ≠ b) :
    Shard.Rests b files { s with blockWriter := some w } :=
  ⟨by simp [Shard.isOpen, hw], h.2⟩

theorem setBlock (h : s.Rests b files) (hb : b' ≠ b) (files' : BlockFiles) :
    (s.setBlock b' files').Rests b files :=
  ⟨h.1, by simpa [Shard.setBlock, (Ne.symm hb)] using h.2⟩

theorem openNewBlock (h : s.Rests b files) (hb : s.nextBlockID ≠ b) :
    s.openNewBlock.Rests b files :=
  ⟨by simp [Shard.isOpen, Shard.openNewBlock, newWriter, hb],
    by simpa [Shard.openNewBlock, (Ne.symm hb)] using h.2⟩

theorem closeIfOpen (h : s.Rests b files) (hb : s.nextBlockID ≠ b) (b' : UInt64) :
    (s.closeIfOpen b').Rests b files := by
  unfold Shard.closeIfOpen
  split
  · exact h.openNewBlock hb
  · exact h

theorem streamClosed (hb : b' ≠ b) : Shard.StreamClosed b' (Shard.Rests b files) where
  noWriter := fun h => h.noWriter
  preps := fun h _ => h
  withPending := fun h _ => h
  writeBlk := fun h _ _ hid _ => (h.setBlock hb _).withWriter (hid ▸ hb)
  repair := fun h _ _ _ => h.setBlock hb _
  withWriter := fun h hid _ => h.withWriter (hid ▸ hb)

theorem exists_writesTo (h : s.Rests b files) : ∃ b', b' ≠ b ∧ s.WritesTo b' := by
  cases hw : s.blockWriter with
  | none =>
    refine ⟨b + 1, by simp, fun w hw' => ?_⟩
    simp [hw] at hw'
  | some w =>
    refine ⟨w.blockID, h.writer_ne hw, fun w' hw' => ?_⟩
    rw [Option.some.inj (hw.symm.trans hw')]

theorem keeps {α : Type} {m : ShardM α} (h : s.Rests b files)
    (hm : ∀ b', b' ≠ b → Keeps (fun t => t.Rests b files ∧ t.WritesTo b') m) :
    (after m s).Rests b files := by
  obtain ⟨b', hb, hw⟩ := h.exists_writesTo
  exact (hm b' hb s ⟨h, hw⟩).1

end Shard.Rests

/-! ## The calls -/

section Calls

variable {b : UInt64} {files : BlockFiles} {s : Shard} (c : Crypto)

theorem advanceReplicaBlock_rests (h : s.Rests b files) {target : UInt64} (ht : target ≠ b)
    (hnext : s.nextBlockID ≠ b) : (after (advanceReplicaBlock target) s).Rests b files := by
  rcases after_advanceReplicaBlock_cases s target with
    hsame | ⟨w, hw, ⟨-, hnew⟩ | ⟨-, -, -, f, bw, -, hbw, hback⟩⟩
  · exact hsame.symm ▸ h
  · exact hnew.symm ▸ h.openNewBlock hnext
  rw [hback]
  refine (h.setBlock (h.writer_ne hw) _).withWriter ?_
  rw [openWriter_blockID hbw]
  exact ht

theorem stream_rests (h : s.Rests b files) (raft : RaftStatus) {init : ReplicateDocumentInit}
    (ht : init.blockID ≠ b) (hnext : s.nextBlockID ≠ b) (body : Body) (writeID : String) (now : Int)
    (peers : List (Option StagedBlock)) :
    (after (appendReplicatedDocument c raft init body writeID now peers) s).Rests b files :=
  appendReplicatedDocument_closed c raft init body writeID now peers
    (Shard.Rests.streamClosed ht) (fun _ hs => hs) h (advanceReplicaBlock_rests h ht hnext)
    fun _ _ _ => advanceReplicaBlock_rests h ht hnext

theorem admitWrite_rests (h : s.Rests b files) (hnext : s.nextBlockID ≠ b) (sealSize : Nat)
    (req : WriteRequest) (allowed pressure : Except ShardErr Unit) :
    (after (admitWrite c sealSize req allowed pressure) s).Rests b files := by
  rcases after_admitWrite_cases c s sealSize req allowed pressure with hsame | ⟨hnew, -⟩
  · exact hsame.symm ▸ h
  · exact hnew.symm ▸ h.openNewBlock hnext

end Calls

/-! ## The steps of a Member -/

def MemberStep.target? : MemberStep → Option UInt64
  | .call (.stream _ init _ _ _ _) => some init.blockID
  | _ => none

def MemberStep.restarts : MemberStep → Bool
  | .call (.restart _) => true
  | _ => false

def MemberStep.Spares (s : Shard) (b : UInt64) (step : MemberStep) : Prop :=
  s.nextBlockID ≠ b ∧ step.target? ≠ some b

/-- What a closed Block is behind a step: as before, but for more records in the `.idx`. -/
structure Shard.Kept (b : UInt64) (s t : Shard) : Prop where
  closed : t.isOpen b = false
  blk : (t.blocks b).blk = (s.blocks b).blk
  records : Option.Rel (· <+: ·) (s.view.idx b) (t.view.idx b)

section Steps

variable {c : Crypto} {b : UInt64} {s t : Shard}

theorem prefix_rel_refl : ∀ o : Option (List IndexEntry), Option.Rel (· <+: ·) o o
  | none => .none
  | some _ => .some List.prefix_rfl

theorem Shard.Rests.kept (h : t.Rests b (s.blocks b)) : s.Kept b t := by
  refine ⟨h.1, congrArg BlockFiles.blk h.2, ?_⟩
  have hidx : t.view.idx b = s.view.idx b := by simp only [Shard.view, h.2]
  rw [hidx]
  exact prefix_rel_refl _

theorem MemberCall.rests {call : MemberCall} (h : s.isOpen b = false)
    (hs : (MemberStep.call call).Spares s b) (hr : (MemberStep.call call).restarts = false) :
    (after (call.run c) s).Rests b (s.blocks b) := by
  have hrest : s.Rests b (s.blocks b) := ⟨h, rfl⟩
  cases call with
  | stream raft init body writeID now peers =>
    exact stream_rests c hrest raft (fun heq => hs.2 (congrArg some heq)) hs.1 body writeID now
      peers
  | prepare sealSize req allowed pressure =>
    exact admitWrite_rests c hrest hs.1 sealSize req allowed pressure
  | append req encryptor writeID now =>
    exact hrest.keeps fun b' hb => appendWrite_closed (Shard.Rests.streamClosed hb).writesTo c
      (fun _ ht => ht.2) req encryptor writeID now
  | abort writeID startOffset =>
    exact hrest.keeps fun b' hb => abortWriteAttempt_closed
      (Shard.Rests.streamClosed hb).writesTo (fun _ ht => ht.2) writeID startOffset
  | restart ids => cases hr

theorem applySealBlock_rests {cmd : SealBlock} (h : s.isOpen b = false)
    (hnext : s.nextBlockID ≠ b) (hrun : (applySealBlock cmd).run s = .ok () t) :
    t.Rests b (s.blocks b) := by
  rw [applySealBlock] at hrun
  cases hseal : s.idx.applyCommittedSeal cmd with
  | error err => simp [hseal] at hrun
  | ok idx => ?_
  obtain rfl : Shard.closeIfOpen { s with idx := idx } cmd.blockID = t := by
    simpa [hseal] using hrun
  have hrest : Shard.Rests b (s.blocks b) { s with idx := idx } := ⟨h, rfl⟩
  exact hrest.closeIfOpen hnext _

theorem View.commit_records {v v' : View} {o : Bool} {doc : CommitDocument}
    (h : v.commit o doc = some v') (b : UInt64) :
    Option.Rel (· <+: ·) (v.idx b) (v'.idx b) := by
  obtain hsame | ⟨-, es, e, hes, hidx⟩ := View.commit_idx h
  · rw [hsame]
    exact prefix_rel_refl _
  rw [hidx]
  by_cases hb : b = doc.blockID
  · rw [hb, hes, update_self]
    exact .some (List.prefix_append _ _)
  · rw [update_of_ne hb]
    exact prefix_rel_refl _

theorem applyCommitDocumentCommand_kept {doc : CommitDocument} {i : UInt64} (hs : s.Sound)
    (h : s.isOpen b = false) (hrun : (applyCommitDocumentCommand doc i).run s = .ok () t) :
    s.Kept b t := by
  have hsame := applyCommitDocumentCommand_sameBytes s doc i
  rw [after_of_ok hrun] at hsame
  rw [applyCommitDocumentCommand_run] at hrun
  cases hdoc : (applyCommitDocument doc i).run s with
  | error err u => simp [hdoc] at hrun
  | ok a u => ?_
  obtain rfl : u.wake (commitProposalWaiterKey doc) none = t := by simpa [hdoc] using hrun
  obtain ⟨hview, -, -⟩ := applyCommitDocument_ok hs.good hdoc
  refine ⟨?_, hsame.blk b, ?_⟩
  · rw [← h]
    unfold Shard.isOpen
    rw [hsame.blockWriter]
  · rw [Shard.view_wake]
    exact View.commit_records hview b

theorem MemberStep.run_spares {step : MemberStep} (hs : s.Sound) (h : s.isOpen b = false)
    (hspares : step.Spares s b) (hr : step.restarts = false)
    (hrun : (step.run c).run s = .ok () t) : s.Kept b t := by
  cases step with
  | call call =>
    have hrest := MemberCall.rests (c := c) h hspares hr
    rw [after_of_ok (m := call.run c) hrun] at hrest
    exact hrest.kept
  | commit doc index => exact applyCommitDocumentCommand_kept hs h hrun
  | sealBlock cmd index => exact (applySealBlock_rests h hspares.1 hrun).kept

end Steps

end Scrap
