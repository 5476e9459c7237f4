/-
# What a stream and a write can do to a Member

Behind the move to the leader's Block, a stream works on the open Block alone: it installs a peer's
copy of it, cuts its overhang, appends, and cuts again when the append fails. A client's write
appends and cuts. An invariant that is closed under what `Shard.StreamClosed b` lists is kept by
each of them.
-/
import Scrap.Block.Scan
import Scrap.Shard.Refine
import Scrap.Shard.Write

namespace Scrap

open Block Fallible

theorem Block.Writer.truncate_blockID (w : Writer) (f : BlkFile) (offset : Nat) :
    (w.truncate f offset).2.1.blockID = w.blockID := by
  unfold Writer.truncate
  split
  · rfl
  split
  · rfl
  · simp only
    split <;> rfl

variable {s : Shard} {I : Shard → Prop} {w : Writer}

theorem Block.openWriter_blockID {f : BlkFile} {b : UInt64} (h : openWriter f b = .ok w) :
    w.blockID = b := by
  unfold openWriter at h
  split at h
  · cases h
  simp only [Except.ok.injEq] at h
  exact h ▸ rfl

/-- The open Block, if there is one, is `b`. -/
def Shard.WritesTo (b : UInt64) (s : Shard) : Prop :=
  ∀ w, s.blockWriter = some w → w.blockID = b

theorem Shard.exists_writesTo (s : Shard) : ∃ b, s.WritesTo b := by
  cases hw : s.blockWriter with
  | none => exact ⟨0, fun w h => nomatch hw.symm.trans h⟩
  | some w => exact ⟨w.blockID, fun w' h => by rw [Option.some.inj (hw.symm.trans h)]⟩

/-- `I` is kept by what a stream or a write does to a Member whose open Block is `b`. -/
structure Shard.StreamClosed (b : UInt64) (I : Shard → Prop) : Prop where
  noWriter : ∀ {s}, I s → I { s with blockWriter := none }
  preps : ∀ {s}, I s → ∀ preps, I { s with openlog := preps }
  withPending : ∀ {s}, I s → ∀ p, I (s.withPending p)
  writeBlk : ∀ {s w w'}, I s → s.blockWriter = some w → w.blockID = b → w'.blockID = b → ∀ f,
    I { (s.setBlk b (some f)) with blockWriter := some w' }
  repair : ∀ {s}, I s → ∀ blk idx, idx.torn = false →
    I (s.setBlock b { s.blocks b with blk := some blk, idx := some idx })
  withWriter : ∀ {s bw}, I s → bw.blockID = b → (s.blocks b).idx.isSome →
    I { s with blockWriter := some bw }

theorem Shard.StreamClosed.writesTo {b : UInt64} (h : Shard.StreamClosed b I) :
    Shard.StreamClosed b (fun s => I s ∧ s.WritesTo b) where
  noWriter := fun hs => ⟨h.noWriter hs.1, nofun⟩
  preps := fun hs l => ⟨h.preps hs.1 l, hs.2⟩
  withPending := fun hs p => ⟨h.withPending hs.1 p, hs.2⟩
  writeBlk := fun hs hw hid hid' f =>
    ⟨h.writeBlk hs.1 hw hid hid' f, fun _ hv => Option.some.inj hv ▸ hid'⟩
  repair := fun hs blk idx ht => ⟨h.repair hs.1 blk idx ht, hs.2⟩
  withWriter := fun hs hid hidx => ⟨h.withWriter hs.1 hid hidx, fun _ hv => Option.some.inj hv ▸ hid⟩

section Closed

variable {b : UInt64} {I : Shard → Prop} (hI : Shard.StreamClosed b I)
include hI

/-! ## Repair -/

theorem reopenBestEffort_closed (hs : I s) : I (s.reopenReplicaWritersBestEffort b) := by
  unfold Shard.reopenReplicaWritersBestEffort
  cases (s.blocks b).blk with
  | none => exact hI.noWriter hs
  | some f => ?_
  simp only
  cases hw : openWriter f b with
  | error err => exact hI.noWriter hs
  | ok bw => ?_
  simp only
  split
  · exact hI.noWriter hs
  · rename_i hidx
    exact hI.withWriter hs (openWriter_blockID hw)
      (by simpa [Option.isSome_iff_ne_none] using hidx)

theorem requeue_closed (b' : UInt64) (gen : Int) :
    Keeps I (requeueBlockUploadAfterIndexAppend b' gen) := by
  intro s hs
  by_cases hready : s.RequeueReady b' gen
  · obtain ⟨p, hrun⟩ := requeue_ok hready
    rw [after_of_ok hrun]
    exact hI.withPending hs p
  · obtain ⟨err, hrun⟩ := requeue_error hready
    rw [after, hrun]
    exact hs

theorem promoteReplicaRepair_closed (want : Nat) {staged : StagedBlock} (now : Int)
    (hstaged : staged.idx.torn = false) : Keeps I (promoteReplicaRepair b want staged now) := by
  refine Keeps.get fun s hs => ?_
  have hs' := hI.repair hs staged.blk staged.idx hstaged
  cases hw : openWriter staged.blk b with
  | error err => exact reopenBestEffort_closed hI hs'
  | ok bw => ?_
  simp only
  split
  · exact reopenBestEffort_closed hI hs'
  have hwriter := hI.withWriter hs' (openWriter_blockID hw) (by simp [Shard.setBlock])
  rw [after_set_bind]
  refine Keeps.tryCatch ?_ ?_ _ hwriter
  · exact (requeue_closed hI b now).bind fun _ => Keeps.pure _
  · exact fun _ => (Keeps.modify fun s hs => reopenBestEffort_closed hI hs).bind
      fun _ => Keeps.pure _

end Closed

theorem prepareReplicaRepairStaging_idx (c : Crypto) {staged ready : StagedBlock} {want : Nat}
    (h : prepareReplicaRepairStaging c staged want = some ready) :
    ready.idx = staged.idx ∧ ready.idx.torn = false := by
  unfold prepareReplicaRepairStaging at h
  split at h
  · cases h
  cases hread : openIndexReader (some staged.idx) with
  | error err => simp [hread] at h
  | ok entries =>
    have hstaged : staged.idx.torn = false := by
      cases ht : staged.idx.torn with
      | false => rfl
      | true => simp [openIndexReader, ht] at hread
    simp only [hread] at h
    split at h
    · cases h
    split at h
    · cases h
    split at h
    · cases h
      exact ⟨rfl, hstaged⟩
    · cases h

section Closed

variable {b : UInt64} {I : Shard → Prop} (hI : Shard.StreamClosed b I) (c : Crypto)
include hI

theorem repairFromPeers_closed (want : Nat) (now : Int) :
    ∀ peers, Keeps I (repairFromPeers c b want now peers)
  | [] => Keeps.pure _
  | none :: rest => repairFromPeers_closed want now rest
  | some staged :: rest => by
    unfold repairFromPeers
    cases hready : prepareReplicaRepairStaging c staged want with
    | none => exact repairFromPeers_closed want now rest
    | some ready => ?_
    refine (promoteReplicaRepair_closed hI want now
      (prepareReplicaRepairStaging_idx c hready).2).bind fun done => ?_
    cases done with
    | true => exact Keeps.pure _
    | false => exact repairFromPeers_closed want now rest

theorem repairReplicaOffset_closed (want : Nat) (now : Int) (peers : List (Option StagedBlock)) :
    Keeps I (repairReplicaOffset c b want now peers) := by
  unfold repairReplicaOffset
  split
  · exact Keeps.pure _
  · exact repairFromPeers_closed hI c want now peers

/-! ## Cutting -/

variable (hon : ∀ s, I s → s.WritesTo b)
include hon

omit c in
theorem truncateOpenBlock_closed (offset : Nat) : Keeps I (truncateOpenBlock offset) := by
  refine Keeps.get fun s hs => ?_
  cases hw : s.blockWriter with
  | none => exact hs
  | some w => ?_
  obtain rfl := hon s hs w hw
  cases hf : (s.blocks w.blockID).blk with
  | none =>
    simp only [hf]
    exact hs
  | some f =>
    simp only [hf]
    exact hI.writeBlk hs hw rfl (w.truncate_blockID f offset) _

omit c in
theorem rollbackReplicaOverhang_closed (hs : I s) (hw : s.blockWriter = some w) (want : Nat) :
    I (after (rollbackReplicaOverhang b want w) s) := by
  obtain rfl := hon s hs w hw
  rw [rollbackReplicaOverhang, after_get_bind]
  cases s.blockIndexHasEntryAtOrPast w.blockID want with
  | error err => exact hs
  | ok past => ?_
  cases past with
  | true => exact hs
  | false => ?_
  cases (s.blocks w.blockID).blk with
  | none => exact hs
  | some f => ?_
  simp only
  split
  · exact hs
  have hcut := w.truncate_blockID f want
  rcases htr : w.truncate f want with ⟨res, w', f'⟩
  rw [htr] at hcut
  have hs' := hI.writeBlk hs hw rfl hcut f'
  cases res with
  | error err => exact hs'
  | ok u => exact hI.preps hs' _

omit c in
theorem trimReplicaOverhang_closed (want : Nat) : Keeps I (trimReplicaOverhang b want) := by
  refine Keeps.get fun s hs => ?_
  cases hw : s.blockWriter with
  | none => exact hs
  | some w => ?_
  simp only
  split
  · refine Keeps.after_bind (fun _ => Keeps.get fun t ht => ?_)
      (rollbackReplicaOverhang_closed hI hon hs hw want)
    cases t.blockWriter with
    | none => exact ht
    | some w' =>
      simp only
      split <;> exact ht
  · rw [after_get_bind, hw]
    simp only
    split <;> exact hs

theorem ensureReplicaAppendOffset_closed (want : Nat) (now : Int)
    (peers : List (Option StagedBlock)) (w : Writer) :
    Keeps I (ensureReplicaAppendOffset c b want now peers w) := by
  unfold ensureReplicaAppendOffset
  split
  · refine (repairReplicaOffset_closed hI c want now peers).bind fun done => ?_
    cases done with
    | true => exact trimReplicaOverhang_closed hI hon want
    | false => exact Keeps.throw _
  · exact trimReplicaOverhang_closed hI hon want

end Closed

/-! ## Appending -/

theorem appendReplicatedPayload_appended (c : Crypto) (init : ReplicateDocumentInit) (body : Body)
    (w : Writer) (f : BlkFile) : w.Appended f (appendReplicatedPayload c init body w f) := by
  unfold appendReplicatedPayload
  split
  · have happend := w.appendDocument_appended f c.sha256 body
    generalize w.appendDocument c.sha256 f body = out at happend ⊢
    obtain ⟨res, w', f'⟩ := out
    cases res <;> exact happend
  · cases replicatedFrames c init body with
    | error err => exact w.appended_unchanged f _
    | ok d =>
      have happend := w.appendDocumentFrames_appended f d
      simp only
      generalize w.appendDocumentFrames f d = out at happend ⊢
      obtain ⟨res, w', f'⟩ := out
      cases res <;> exact happend

theorem appendDocumentPayload_appended (c : Crypto) (body : Body) (encryptor : Option Encryptor)
    (w : Writer) (f : BlkFile) : w.Appended f (appendDocumentPayload c body encryptor w f) := by
  unfold appendDocumentPayload
  split
  · have happend := w.appendDocument_appended f c.sha256 body
    generalize w.appendDocument c.sha256 f body = out at happend ⊢
    obtain ⟨res, w', f'⟩ := out
    cases res <;> exact happend
  · cases encryptor with
    | none => exact w.appended_unchanged f _
    | some e =>
      have happend := w.appendDocumentFrameSource_appended f e.frames
      simp only
      generalize w.appendDocumentFrameSource f e.frames = out at happend ⊢
      obtain ⟨res, w', f'⟩ := out
      cases res with
      | error err => exact happend
      | ok r => ?_
      -- without its envelope the Document is all there, but the append has failed
      cases e.info with
      | none => exact happend.grown
      | some info => exact happend

section Closed

variable {b : UInt64} {I : Shard → Prop} (hI : Shard.StreamClosed b I) (c : Crypto)
  (hon : ∀ s, I s → s.WritesTo b)
include hI hon

omit c in
theorem abortReplicatedWriteAttempt_closed (writeID : String) (offset : Nat) :
    Keeps I (abortReplicatedWriteAttempt writeID offset) :=
  (truncateOpenBlock_closed hI hon offset).bind fun _ => Keeps.modify fun _ hs => hI.preps hs _

theorem appendAtOffset_closed (hs : I s) (hw : s.blockWriter = some w)
    (init : ReplicateDocumentInit) (body : Body) (writeID : String) :
    I (after (appendAtOffset c init body writeID w) s) := by
  obtain rfl := hon s hs w hw
  rw [appendAtOffset, after_modify_bind, after_get_bind]
  generalize hp : OpenlogEntry.mk _ _ _ _ _ _ = prep
  have hs₁ : I (s.beginWriteAttempt prep) := hI.preps hs _
  cases hf : ((s.beginWriteAttempt prep).blocks w.blockID).blk with
  | none => exact hs₁
  | some f => ?_
  have hid := (appendReplicatedPayload_appended c init body w f).grown.1
  simp only [after_set_bind]
  generalize appendReplicatedPayload c init body w f = pay at hid ⊢
  obtain ⟨res, w', f'⟩ := pay
  have hs₂ := hI.writeBlk hs₁ hw rfl hid f'
  have habort : ∀ err : ShardErr, Keeps I (do
      abortReplicatedWriteAttempt writeID (safeUint64ToInt64 init.startOffset)
      throw err : ShardM AppendResult) :=
    fun err => (abortReplicatedWriteAttempt_closed hI hon _ _).bind fun _ => Keeps.throw err
  cases res with
  | error err => exact habort err _ hs₂
  | ok result => ?_
  simp only
  cases validateReplicatedAppend init result (safeUint64ToInt64 init.startOffset) with
  | error err => exact habort err _ hs₂
  | ok u => exact hs₂

omit c in
theorem abortWriteAttempt_closed (writeID : String) (offset : Nat) :
    Keeps I (abortWriteAttempt writeID offset) := by
  refine Keeps.get fun s hs => ?_
  cases s.blockWriter with
  | none => exact hs
  | some w => ?_
  refine ((truncateOpenBlock_closed hI hon offset).bind fun res => ?_) s hs
  cases res with
  | error err => exact Keeps.pure _
  | ok u => exact Keeps.modify fun _ hs => hI.preps hs _

theorem appendWrite_closed (req : WriteRequest) (encryptor : Option Encryptor) (writeID : String)
    (now : Int) : Keeps I (appendWrite c req encryptor writeID now) := by
  refine Keeps.get fun s hs => ?_
  cases hw : s.blockWriter with
  | none => exact hs
  | some w => ?_
  obtain rfl := hon s hs w hw
  simp only
  cases (s.blocks w.blockID).blk with
  | none => exact hs
  | some f => ?_
  have hid := (appendDocumentPayload_appended c req.body encryptor w f).grown.1
  simp only [after_set_bind]
  generalize appendDocumentPayload c req.body encryptor w f = pay at hid ⊢
  obtain ⟨res, w', f'⟩ := pay
  have hs₁ : I { (s.setBlk w.blockID (some f')) with
      blockWriter := some w'
      openlog := s.openlog ++ [⟨writeID, req.txID, req.docName, w.blockID,
        UInt64.ofNat w.offset, req.contentType⟩] } :=
    hI.preps (hI.writeBlk hs hw rfl hid f') _
  have habort : ∀ err : ShardErr, Keeps I (do
      abortWriteAttempt writeID w.offset
      throw err : ShardM WriteAttempt) :=
    fun err => (abortWriteAttempt_closed hI hon _ _).bind fun _ => Keeps.throw err
  cases res with
  | error err => exact habort err _ hs₁
  | ok r => ?_
  simp only
  split
  · exact habort _ _ hs₁
  · exact hs₁

end Closed

/-! ## Whole calls -/

/-- An invariant closed whichever Block is open is kept by a call that keeps it for each open Block.
-/
theorem keeps_of_closed {α : Type} {m : ShardM α} (h : ∀ b, Keeps (fun s => I s ∧ s.WritesTo b) m) :
    Keeps I m := by
  intro s hs
  obtain ⟨b, hb⟩ := s.exists_writesTo
  exact (h b s ⟨hs, hb⟩).1

theorem after_admitWrite_cases (c : Crypto) (s : Shard) (sealSize : Nat) (req : WriteRequest)
    (allowed pressure : Except ShardErr Unit) :
    after (admitWrite c sealSize req allowed pressure) s = s ∨
      after (admitWrite c sealSize req allowed pressure) s = s.openNewBlock ∧
        ∃ w, s.blockWriter = some w ∧ headerSize < w.offset ∧ sealSize ≤ w.offset := by
  unfold admitWrite
  rw [after_get_bind]
  cases s.duplicateDocumentEntry req.txID req.docName with
  | error err => exact .inl rfl
  | ok d => ?_
  cases d with
  | some d =>
    cases allowed with
    | error err => exact .inl rfl
    | ok u =>
      simp only
      cases classifyDuplicateDocumentWrite c req d.2 <;> exact .inl rfl
  | none =>
    cases s.blockWriter with
    | none => exact .inl rfl
    | some w => ?_
    simp only
    split
    · next hroll => cases pressure <;> exact .inr ⟨rfl, w, rfl, hroll⟩
    · exact .inl rfl

theorem after_advanceReplicaBlock_cases (s : Shard) (target : UInt64) :
    after (advanceReplicaBlock target) s = s ∨ ∃ w, s.blockWriter = some w ∧
      (target = w.blockID + 1 ∧ after (advanceReplicaBlock target) s = s.openNewBlock ∨
        w.blockID = target + 1 ∧ w.offset = headerSize ∧ (s.blocks target).idx.isSome ∧
          ∃ f bw, (s.blocks target).blk = some f ∧ openWriter f target = .ok bw ∧
            after (advanceReplicaBlock target) s = s.reopened w.blockID bw) := by
  rw [advanceReplicaBlock, after_get_bind]
  cases s.blockWriter with
  | none => exact .inl rfl
  | some w => ?_
  simp only
  split_ifs with hback hahead hstep
  · cases hrun : (reopenPreviousReplicaBlock w target).run s with
    | error err t =>
      rw [after, hrun]
      exact .inl (reopenPreviousReplicaBlock_error hrun)
    | ok u t =>
      obtain ⟨hnext, hoff, hidx, f, bw, hf, hbw, rfl⟩ := reopenPreviousReplicaBlock_ok hrun
      rw [after_of_ok hrun]
      exact .inr ⟨w, rfl, .inr ⟨hnext, hoff, hidx, f, bw, hf, hbw, rfl⟩⟩
  · exact .inl rfl
  · exact .inr ⟨w, rfl, .inl ⟨not_not.mp hstep, rfl⟩⟩
  · exact .inl rfl

/-- A stream: the move to the leader's Block, which may fail or leave another open, and what it does
there. -/
theorem appendReplicatedDocument_closed {C : Shard → Prop} (c : Crypto) (raft : RaftStatus)
    (init : ReplicateDocumentInit) (body : Body) (writeID : String) (now : Int)
    (peers : List (Option StagedBlock)) (hI : Shard.StreamClosed init.blockID I)
    (hIC : ∀ t, I t → C t) (hs : C s) (hmove : C (after (advanceReplicaBlock init.blockID) s))
    (hopen : ∀ w, (after (advanceReplicaBlock init.blockID) s).blockWriter = some w →
      w.blockID = init.blockID → I (after (advanceReplicaBlock init.blockID) s)) :
    C (after (appendReplicatedDocument c raft init body writeID now peers) s) := by
  unfold appendReplicatedDocument
  cases validateReplicationFence raft init with
  | error err => exact hs
  | ok u => ?_
  cases hadv : (advanceReplicaBlock init.blockID).run s with
  | error err t =>
    rw [after, hadv] at hmove
    rw [after, bind_of_error hadv]
    exact hmove
  | ok u t =>
    rw [after_of_ok hadv] at hmove hopen
    rw [after, bind_of_ok hadv, ← after, after_get_bind]
    cases hw : t.blockWriter with
    | none => exact hmove
    | some w => ?_
    simp only
    split
    · exact hmove
    rename_i hid
    have ht := hopen w hw (not_not.mp hid)
    have hon : t.WritesTo init.blockID := by
      intro w' hw'
      rw [← Option.some.inj (hw.symm.trans hw')]
      exact not_not.mp hid
    refine hIC _ (((ensureReplicaAppendOffset_closed hI.writesTo c (fun _ h => h.2)
      (safeUint64ToInt64 init.startOffset) now peers w).bind fun _ =>
        Keeps.get fun u hu => ?_) t ⟨ht, hon⟩).1
    cases hw' : u.blockWriter with
    | none => exact hu
    | some w' =>
      exact appendAtOffset_closed hI.writesTo c (fun _ h => h.2) hu hw' init body
        writeID

end Scrap
