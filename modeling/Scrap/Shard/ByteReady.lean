/-
# The byte-ready set

A Member remembers under which Block and offset it has seen the Frames of a Document: where it
appended one itself, and where a read found as many Frames as the Document has. A read of a
Document in the set does not look at the Block any more (`ensureCommitDocumentBytesReady`).

Entries are only added. The Frames can go again: `abortWriteAttempt` cuts a write that was recorded
before it was replicated (`aborted_write_stays_ready`), a rollback cuts another leader's appends,
and a repair replaces the file.
-/
import Scrap.Block.Reader
import Scrap.Shard.EvictedAuthority
import Scrap.Shard.ReplicatedAppend
import Scrap.Shard.SealProposals

namespace Scrap

open Block Crash Fallible Function

/-! ## The set -/

/-- The byte-ready set; each key comes with the Frames that were there when it was recorded. -/
abbrev ReadySet := UInt64 → UInt64 → Option (List Frame)

structure ReadyMember where
  shard : Shard
  byteReady : ReadySet

namespace ReadyMember

def start (s : Shard) : ReadyMember := ⟨s, fun _ _ => none⟩

/-- `recordByteReadyLocked` -/
def record (x : ReadyMember) (blockID offset : UInt64) (doc : List Frame) : ReadyMember :=
  { x with
    byteReady := update x.byteReady blockID
      (update (x.byteReady blockID) offset (some doc)) }

end ReadyMember

def Shard.framesFrom (s : Shard) (blockID : UInt64) (offset : Nat) : List Frame :=
  match (s.blocks blockID).blk with
  | none => []
  | some f => framesAt offset headerSize f.frames

inductive BytesErr where
  /-- `committed Document bytes unavailable` -/
  | unavailable
  /-- `committed Document bytes missing at Block %d offset %d`, or they do not verify -/
  | missing (blockID offset : UInt64)
deriving DecidableEq

def ReadyMember.ensureCommitDocumentBytesReady (x : ReadyMember) (blockID firstFrameOff : UInt64)
    (frameCount : UInt32) : Except BytesErr ReadyMember :=
  if (x.byteReady blockID firstFrameOff).isSome then .ok x
  else
    match (x.shard.blocks blockID).blk with
    | none => .error .unavailable
    | some f =>
      let frames := framesAt (safeUint64ToInt64 firstFrameOff) headerSize f.frames
      if frames.length < frameCount.toNat then .error (.missing blockID firstFrameOff)
      else .ok (x.record blockID firstFrameOff (frames.take frameCount.toNat))

/-! ## Steps -/

inductive ReadyEvent where
  | stream (raft : RaftStatus) (init : ReplicateDocumentInit) (body : Body) (writeID : String)
      (now : Int) (peers : List (Option StagedBlock))
  | prepare (sealSize : Nat) (req : WriteRequest) (allowed pressure : Except ShardErr Unit)
  | append (req : WriteRequest) (encryptor : Option Encryptor) (writeID : String) (now : Int)
  | abort (writeID : String) (startOffset : Nat)
  | entry (e : LogEntry)
  /-- an eviction gets as far as its `n`-th file operation; `l` has the Block's restore markers -/
  | evict (l : LocalBlock) (windowSeconds : Int) (plan : EvictionPlan) (selected : PlanBlock)
      (r : ApplyReadings) (n : Nat)
  /-- a read of a Document with this `.idx` entry -/
  | read (blockID firstFrameOff : UInt64) (frameCount : UInt32)

/-- The files that an eviction leaves of a Block with the restore markers of `l`. -/
def Shard.evictedFiles (s : Shard) (l : LocalBlock) (windowSeconds : Int) (plan : EvictionPlan)
    (selected : PlanBlock) (r : ApplyReadings) (n : Nat) : BlockFiles :=
  let l := { l with files := s.blocks selected.blockID }
  (runSteps FileStep.run ((l.applyEvictionBlock s.shardID windowSeconds plan selected
    l.files.confirmedUploadAuthority r).2.take n) l).files

def ReadyEvent.run (c : Crypto) : ReadyEvent → EStateM ShardErr ReadyMember Unit
  | .stream raft init body writeID now peers => modify fun x =>
    match (appendReplicatedDocument c raft init body writeID now peers).run x.shard with
    | .error _ s => { x with shard := s }
    | .ok _ s =>
      { x with shard := s }.record init.blockID init.startOffset
        (s.framesFrom init.blockID (safeUint64ToInt64 init.startOffset))
  | .prepare sealSize req allowed pressure => modify fun x =>
    { x with shard := after (admitWrite c sealSize req allowed pressure) x.shard }
  | .append req encryptor writeID now => modify fun x =>
    match (appendWrite c req encryptor writeID now).run x.shard with
    | .error _ s => { x with shard := s }
    | .ok attempt s =>
      { x with shard := s }.record attempt.blockID (UInt64.ofNat attempt.startOffset)
        (s.framesFrom attempt.blockID attempt.startOffset)
  | .abort writeID startOffset => modify fun x =>
    { x with shard := after (abortWriteAttempt writeID startOffset) x.shard }
  | .entry e => fun x =>
    match (e.apply c).run x.shard with
    | .ok () s => .ok () { x with shard := s }
    | .error err s => .error err { x with shard := s }
  | .evict l windowSeconds plan selected r n => modify fun x =>
    { x with
      shard := x.shard.setBlock selected.blockID
        (x.shard.evictedFiles l windowSeconds plan selected r n) }
  | .read blockID firstFrameOff frameCount => modify fun x =>
    match x.ensureCommitDocumentBytesReady blockID firstFrameOff frameCount with
    | .error _ => x
    | .ok y => y

/-! ## The condition -/

/-- No Document is recorded for the next new Block. -/
def ReadyMember.Fresh (x : ReadyMember) : Prop := ∀ o, x.byteReady x.shard.nextBlockID o = none

/-- The Documents recorded for a Block end at the offset or before. -/
def ReadySet.EndsBy (ready : ReadySet) (blockID : UInt64) (offset : Nat) : Prop :=
  ∀ o doc, ready blockID o = some doc → safeUint64ToInt64 o + framesSize doc ≤ offset

def ReadySet.HeldBy (ready : ReadySet) (blockID : UInt64) (f : BlkFile) : Prop :=
  ∀ o doc, ready blockID o = some doc → f.DocumentAt (safeUint64ToInt64 o) doc

/-- The event takes no recorded Document away, and records a whole one. -/
def ReadyEvent.Leaves (c : Crypto) (x : ReadyMember) : ReadyEvent → Prop
  | .stream _ init _ _ _ peers =>
    -- neither a rollback to the offset of the stream nor a peer's copy
    x.Fresh ∧ x.byteReady.EndsBy init.blockID (safeUint64ToInt64 init.startOffset) ∧
      ∀ staged copy, some staged ∈ peers →
        prepareReplicaRepairStaging c staged (safeUint64ToInt64 init.startOffset) = some copy →
        x.byteReady.HeldBy init.blockID copy.blk
  | .prepare _ _ _ _ => x.Fresh
  | .append _ _ _ _ => ∀ w, x.shard.blockWriter = some w → w.offset ≤ maxInt64
  | .abort _ startOffset =>
    -- a cut between Documents, behind the recorded ones
    ∀ w f, x.shard.blockWriter = some w → (x.shard.blocks w.blockID).blk = some f →
      headerSize ≤ startOffset → startOffset ≤ w.offset →
        (∃ w', openWriter (f.truncate startOffset) w.blockID = .ok w') ∧
          x.byteReady.EndsBy w.blockID startOffset
  | .entry _ => x.Fresh
  | .evict _ _ _ _ _ _ => True
  | .read blockID firstFrameOff frameCount =>
    -- the Frames that the entry counts are a whole Document
    ∀ y, x.ensureCommitDocumentBytesReady blockID firstFrameOff frameCount = .ok y →
      x.byteReady blockID firstFrameOff = none → ∃ seq ps, ps ≠ [] ∧
        (x.shard.framesFrom blockID (safeUint64ToInt64 firstFrameOff)).take frameCount.toNat =
          docFrames seq 0 ps

/-! ## The writer and its file -/

/-- The writer is the one that a scan of its file gives. -/
def Shard.InStep (s : Shard) : Prop :=
  ∀ w f, s.blockWriter = some w → (s.blocks w.blockID).blk = some f → openWriter f w.blockID = .ok w

def Shard.Holds (ready : ReadySet) (s : Shard) : Prop :=
  ∀ b f, (s.blocks b).blk = some f → ready.HeldBy b f

structure Shard.Ready (ready : ReadySet) (s : Shard) : Prop where
  inStep : s.InStep
  holds : s.Holds ready

variable {f : BlkFile} {peers : List (Option StagedBlock)} {want : Nat} {x : ReadyMember}
  {s t : Shard} {b : UInt64}

theorem Shard.Holds.setBlock {ready : ReadySet} (h : s.Holds ready) {files : BlockFiles}
    (hheld : ∀ f, files.blk = some f → ready.HeldBy b f) :
    (s.setBlock b files).Holds ready := by
  intro b' f hf
  by_cases hb : b' = b
  · subst hb
    exact hheld f (by simpa [Shard.setBlock] using hf)
  · exact h b' f (by simpa [Shard.setBlock, hb] using hf)

theorem Shard.Holds.setBlk {ready : ReadySet} (h : s.Holds ready) (hheld : ready.HeldBy b f) :
    (s.setBlk b (some f)).Holds ready :=
  h.setBlock fun _ hf => Option.some.inj hf ▸ hheld

namespace Shard.Ready

variable {ready : ReadySet} {s t : Shard}

theorem of_fewer (h : s.Ready ready) (hw : t.blockWriter = s.blockWriter)
    (hblk : ∀ b f, (t.blocks b).blk = some f → (s.blocks b).blk = some f) : t.Ready ready :=
  ⟨fun w f hwriter hf => h.inStep w f (hw ▸ hwriter) (hblk _ f hf),
    fun b f hf => h.holds b f (hblk b f hf)⟩

theorem of_same (h : s.Ready ready) (hw : t.blockWriter = s.blockWriter)
    (hblk : ∀ b, (t.blocks b).blk = (s.blocks b).blk) : t.Ready ready :=
  h.of_fewer hw fun b _ hf => (hblk b).symm.trans hf

theorem sameBytes (h : s.Ready ready) (hsame : s.SameBytes t) : t.Ready ready :=
  h.of_same hsame.blockWriter hsame.blk

/-- The open Block gets this file and a writer in step with it. -/
theorem install (h : s.Holds ready) {w : Writer} (hw : openWriter f w.blockID = .ok w)
    (hheld : ready.HeldBy w.blockID f) :
    Shard.Ready ready { (s.setBlk w.blockID (some f)) with blockWriter := some w } := by
  refine ⟨fun w' f' hw' hf' => ?_, h.setBlk hheld⟩
  cases hw'
  obtain rfl : f = f' := by simpa [Shard.setBlk, Shard.setBlock] using hf'
  exact hw

theorem openNewBlock (h : s.Ready ready) (hfresh : ∀ o, ready s.nextBlockID o = none) :
    s.openNewBlock.Ready ready := by
  have hnew : openWriter newBlkFile s.nextBlockID = .ok (newWriter s.nextBlockID) := rfl
  have hready := install (w := newWriter s.nextBlockID) h.holds hnew
    fun o doc hdoc => nomatch (hfresh o).symm.trans hdoc
  refine hready.of_same rfl fun b => ?_
  by_cases hb : b = s.nextBlockID <;>
    simp [Shard.openNewBlock, Shard.setBlk, Shard.setBlock, newWriter, hb]

theorem closeIfOpen (h : s.Ready ready) (hfresh : ∀ o, ready s.nextBlockID o = none) (b : UInt64) :
    (s.closeIfOpen b).Ready ready := by
  unfold Shard.closeIfOpen
  split
  · exact h.openNewBlock hfresh
  · exact h

theorem reopened (h : s.Ready ready) {current target : UInt64} {bw : Writer}
    (hne : target ≠ current) (hf : (s.blocks target).blk = some f)
    (hbw : openWriter f target = .ok bw) : (s.reopened current bw).Ready ready := by
  have hid := openWriter_blockID hbw
  refine ⟨fun w f' hw hf' => ?_, h.holds.setBlock nofun⟩
  cases hw
  rw [hid] at hf' ⊢
  obtain rfl : f = f' := by simpa [Shard.reopened, Shard.setBlock, hne, hf] using hf'
  exact hbw

theorem indexClosed : Shard.IndexClosed (Shard.Ready ready) where
  setIdxFile := by
    intro t h b f _ f'
    refine h.of_same rfl fun b' => ?_
    by_cases hb : b' = b <;> simp [Shard.setBlock, hb]
  withIndex := fun h _ => h.of_same rfl fun _ => rfl
  cleanup := fun h _ => h.of_same rfl fun _ => rfl

end Shard.Ready

/-! ## Cuts -/

section Cuts

variable {ready : ReadySet} {s : Shard} {w w' : Writer} {f : BlkFile}

theorem truncateOpenBlock_back (hw : openWriter f w.blockID = .ok w) (hwriter : s.blockWriter = some w')
    (hid : w'.blockID = w.blockID) (hoff : w.offset ≤ w'.offset) {gs : List Frame} {t : Nat}
    (hblk : (s.blocks w.blockID).blk = some ⟨f.frames ++ gs, t⟩) :
    (truncateOpenBlock w.offset).run s =
      .ok (.ok ()) { (s.setBlk w.blockID (some ⟨f.frames, 0⟩)) with blockWriter := some w } := by
  rw [truncateOpenBlock, get_bind, hwriter]
  simp only [hid, hblk, Writer.truncate_back hw hid hoff]
  rfl

theorem Shard.Ready.back (h : s.Holds ready) (hw : openWriter f w.blockID = .ok w)
    (hheld : ready.HeldBy w.blockID f) (preps : List OpenlogEntry) :
    Shard.Ready ready { (s.setBlk w.blockID (some ⟨f.frames, 0⟩)) with
      blockWriter := some w, openlog := preps } := by
  have hready := Shard.Ready.install h (openWriter_torn.mp hw).2
    fun o doc hdoc => (hheld o doc hdoc).of_frames rfl
  exact hready.of_same rfl fun _ => rfl

theorem truncateOpenBlock_ready (h : s.Ready ready) {offset : Nat}
    (hcut : ∀ w f, s.blockWriter = some w → (s.blocks w.blockID).blk = some f →
      headerSize ≤ offset → offset ≤ w.offset →
        (∃ w', openWriter (f.truncate offset) w.blockID = .ok w') ∧ ready.EndsBy w.blockID offset) :
    (after (truncateOpenBlock offset) s).Ready ready := by
  rw [truncateOpenBlock, after_get_bind]
  cases hwriter : s.blockWriter with
  | none => exact h
  | some w => ?_
  simp only
  cases hf : (s.blocks w.blockID).blk with
  | none => exact h
  | some f => ?_
  have hsame : Shard.Ready ready { (s.setBlk w.blockID (some f)) with
      blockWriter := some w } :=
    Shard.Ready.install h.holds (h.inStep w f hwriter hf) (h.holds _ f hf)
  simp only [after_set_bind]
  unfold Writer.truncate
  split
  · exact hsame
  next hhead =>
    split
    · exact hsame
    next hbeyond =>
      obtain ⟨⟨w', hw'⟩, hends⟩ := hcut w f hwriter hf (Nat.le_of_not_lt hhead)
        (Nat.le_of_not_lt hbeyond)
      obtain ⟨hid, hscan⟩ := openWriter_ok.mp hw'
      simp only [scanWriterState, hscan]
      have hinstall := Shard.Ready.install h.holds (hid ▸ hw')
        fun o doc hdoc => by
          rw [hid] at hdoc
          exact (h.holds _ f hf o doc hdoc).truncate (hends o doc hdoc)
      rw [hid] at hinstall
      refine hinstall.of_same ?_ fun _ => rfl
      exact congrArg some (by rw [← hid])

theorem abortWriteAttempt_ready (h : s.Ready ready) (writeID : String) {offset : Nat}
    (hcut : ∀ w f, s.blockWriter = some w → (s.blocks w.blockID).blk = some f →
      headerSize ≤ offset → offset ≤ w.offset →
        (∃ w', openWriter (f.truncate offset) w.blockID = .ok w') ∧ ready.EndsBy w.blockID offset) :
    (after (abortWriteAttempt writeID offset) s).Ready ready := by
  have ht := truncateOpenBlock_ready h hcut
  rw [abortWriteAttempt, after_get_bind]
  cases s.blockWriter with
  | none => exact h
  | some w => ?_
  refine Keeps.after_bind (fun res => ?_) ht
  cases res with
  | error err => exact Keeps.pure _
  | ok u => exact Keeps.modify fun t ht => ht.of_same rfl fun _ => rfl

theorem rollbackReplicaOverhang_ready (h : s.Ready ready) (hwriter : s.blockWriter = some w)
    (hid : w.blockID = b) (hends : ready.EndsBy b want) :
    (after (rollbackReplicaOverhang b want w) s).Ready ready := by
  subst hid
  rw [rollbackReplicaOverhang, after_get_bind]
  cases s.blockIndexHasEntryAtOrPast w.blockID want with
  | error err => exact h
  | ok past => ?_
  cases past with
  | true => exact h
  | false => ?_
  cases hf : (s.blocks w.blockID).blk with
  | none => exact h
  | some f => ?_
  simp only
  split
  · exact h
  next hstart =>
    obtain ⟨fs, g, gs, hframes, rfl, hg⟩ := startsDocumentAt_iff.mp
      (by simpa using hstart)
    obtain ⟨frames, torn⟩ := f
    subst hframes
    have hcut : BlkFile.truncate ⟨fs ++ g :: gs, torn⟩ (headerSize + framesSize fs) =
        ⟨fs, 0⟩ := BlkFile.truncate_append _ _ _
    obtain ⟨w', htruncate, hw'⟩ := Writer.truncate_start hg (h.inStep w _ hwriter hf)
    simp only [htruncate]
    have hid := openWriter_blockID hw'
    have hinstall := Shard.Ready.install h.holds (hid ▸ hw')
      fun o doc hdoc => by
        rw [hid] at hdoc
        exact hcut ▸ (h.holds _ _ hf o doc hdoc).truncate (hends o doc hdoc)
    rw [hid] at hinstall
    exact hinstall.of_same rfl fun _ => rfl

end Cuts

/-! ## Repairs -/

section Repairs

variable {ready : ReadySet} {b : UInt64}

theorem reopenBestEffort_ready (h : s.Holds ready) :
    (s.reopenReplicaWritersBestEffort b).Ready ready := by
  have hnone : Shard.Ready ready { s with blockWriter := none } := ⟨nofun, h⟩
  unfold Shard.reopenReplicaWritersBestEffort
  cases hf : (s.blocks b).blk with
  | none => exact hnone
  | some f => ?_
  simp only
  cases hbw : openWriter f b with
  | error err => exact hnone
  | ok bw => ?_
  simp only
  split
  · exact hnone
  refine ⟨fun w g hw hg => ?_, h⟩
  cases hw
  have hid := openWriter_blockID hbw
  rw [hid] at hg ⊢
  rwa [← Option.some.inj (hf.symm.trans hg)]

theorem promoteReplicaRepair_ready (want : Nat) {staged : StagedBlock} (now : Int)
    (hheld : ready.HeldBy b staged.blk) :
    Keeps (Shard.Ready ready) (promoteReplicaRepair b want staged now) := by
  refine Keeps.get fun s hs => ?_
  have hset : Shard.Holds ready (s.setBlock b { s.blocks b with
      blk := some staged.blk, idx := some staged.idx }) :=
    hs.holds.setBlock fun f hf => Option.some.inj hf ▸ hheld
  cases hbw : openWriter staged.blk b with
  | error err => exact reopenBestEffort_ready hset
  | ok bw => ?_
  simp only
  split
  · exact reopenBestEffort_ready hset
  have hid := openWriter_blockID hbw
  rw [after_set_bind]
  refine Keeps.tryCatch ?_ ?_ _ ⟨fun w f hw hf => ?_, hset⟩
  · exact (requeue_keeps Shard.Ready.indexClosed b now).bind fun _ => Keeps.pure _
  · exact fun _ => (Keeps.modify fun s hs => reopenBestEffort_ready hs.holds).bind
      fun _ => Keeps.pure _
  cases hw
  rw [hid] at hf ⊢
  obtain rfl : staged.blk = f := by simpa [Shard.setBlock] using hf
  exact hbw

theorem repairFromPeers_ready (c : Crypto) (want : Nat) (now : Int) :
    ∀ peers : List (Option StagedBlock), (∀ staged copy, some staged ∈ peers →
      prepareReplicaRepairStaging c staged want = some copy → ready.HeldBy b copy.blk) →
    Keeps (Shard.Ready ready) (repairFromPeers c b want now peers)
  | [], _ => Keeps.pure _
  | none :: rest, h => repairFromPeers_ready c want now rest fun staged copy hmem =>
    h staged copy (List.mem_cons_of_mem _ hmem)
  | some staged :: rest, h => by
    have hrest := repairFromPeers_ready c want now rest fun staged copy hmem =>
      h staged copy (List.mem_cons_of_mem _ hmem)
    unfold repairFromPeers
    cases hready : prepareReplicaRepairStaging c staged want with
    | none => exact hrest
    | some copy => ?_
    refine (promoteReplicaRepair_ready want now
      (h staged copy List.mem_cons_self hready)).bind fun done => ?_
    cases done with
    | true => exact Keeps.pure _
    | false => exact hrest

end Repairs

/-! ## The way to the leader's offset -/

section Move

variable {ready : ReadySet} {b : UInt64} {c : Crypto}

theorem advanceReplicaBlock_ready (h : s.Ready ready) (hfresh : ∀ o, ready s.nextBlockID o = none)
    (target : UInt64) :
    (after (advanceReplicaBlock target) s).Ready ready := by
  rcases after_advanceReplicaBlock_cases s target with
    hsame | ⟨w, -, ⟨-, hnew⟩ | ⟨hnext, -, -, f, bw, hf, hbw, hback⟩⟩
  · exact hsame.symm ▸ h
  · exact hnew.symm ▸ h.openNewBlock hfresh
  · rw [hback]
    exact h.reopened (by rw [hnext]; simp) hf hbw

def Shard.ReadyAt (ready : ReadySet) (b : UInt64) (s : Shard) : Prop :=
  s.Ready ready ∧ s.WritesTo b

theorem writesTo_closed (b : UInt64) :
    Shard.StreamClosed b (fun s => True ∧ s.WritesTo b) :=
  Shard.StreamClosed.writesTo ⟨fun _ => trivial, fun _ _ => trivial, fun _ _ => trivial,
    fun _ _ _ _ _ => trivial, fun _ _ _ _ => trivial, fun _ _ _ => trivial⟩

theorem Shard.ReadyAt.keeps {α : Type} {m : ShardM α} (hready : ∀ s, s.ReadyAt ready b →
    (after m s).Ready ready) (hwrites : Keeps (fun s => True ∧ s.WritesTo b) m) :
    Keeps (Shard.ReadyAt ready b) m :=
  fun s hs => ⟨hready s hs, (hwrites s ⟨trivial, hs.2⟩).2⟩

theorem trimReplicaOverhang_ready (hends : ready.EndsBy b want) :
    Keeps (Shard.ReadyAt ready b) (trimReplicaOverhang b want) := by
  refine Shard.ReadyAt.keeps (fun s hs => ?_)
    (trimReplicaOverhang_closed (writesTo_closed b) (fun _ h => h.2) want)
  rw [trimReplicaOverhang, after_get_bind]
  cases hw : s.blockWriter with
  | none => exact hs.1
  | some w => ?_
  simp only
  split
  · refine Keeps.after_bind (fun _ => Keeps.get fun t ht => ?_)
      (rollbackReplicaOverhang_ready hs.1 hw (hs.2 w hw) hends)
    cases t.blockWriter with
    | none => exact ht
    | some w' =>
      simp only
      split <;> exact ht
  · rw [after_get_bind, hw]
    simp only
    split <;> exact hs.1

theorem trimReplicaOverhang_ok (h : (trimReplicaOverhang b want).run s = .ok () t) :
    ∀ w, t.blockWriter = some w → w.offset = want := by
  rw [trimReplicaOverhang, get_bind] at h
  cases hw : s.blockWriter with
  | none => simp [hw] at h
  | some w => ?_
  simp only [hw] at h
  split at h
  -- with or without a rollback, the writer is looked at again
  on_goal 1 => obtain ⟨-, s, -, h⟩ := bind_ok.mp h
  all_goals
    rw [get_bind] at h
    split at h
    · cases h
    rename_i w' hw'
    split at h
    · cases h
    rename_i hoff
    cases h
    intro w'' hw''
    rw [Option.some.inj (hw'.symm.trans hw'')] at hoff
    exact not_ne_iff.mp hoff

theorem ensureReplicaAppendOffset_ready (now : Int) (w : Writer) (hends : ready.EndsBy b want)
    (hpeers : ∀ staged copy, some staged ∈ peers →
      prepareReplicaRepairStaging c staged want = some copy → ready.HeldBy b copy.blk) :
    Keeps (Shard.ReadyAt ready b) (ensureReplicaAppendOffset c b want now peers w) := by
  have hrepair : Keeps (Shard.ReadyAt ready b) (repairReplicaOffset c b want now peers) := by
    refine Shard.ReadyAt.keeps (fun s hs => ?_)
      (repairReplicaOffset_closed (writesTo_closed b) c want now peers)
    unfold repairReplicaOffset
    split
    · exact hs.1
    · exact repairFromPeers_ready c want now peers hpeers s hs.1
  unfold ensureReplicaAppendOffset
  split
  · refine hrepair.bind fun done => ?_
    cases done with
    | true => exact trimReplicaOverhang_ready hends
    | false => exact Keeps.throw _
  · exact trimReplicaOverhang_ready hends

theorem ensureReplicaAppendOffset_ok {now : Int} {w : Writer}
    (h : (ensureReplicaAppendOffset c b want now peers w).run s = .ok () t) :
    ∀ w', t.blockWriter = some w' → w'.offset = want := by
  unfold ensureReplicaAppendOffset at h
  split at h
  · obtain ⟨done, u, -, hu⟩ := bind_ok.mp h
    cases done with
    | true => exact trimReplicaOverhang_ok hu
    | false => exact absurd hu (by simp)
  · exact trimReplicaOverhang_ok h

end Move

/-! ## Appends -/

/-- If the Block is here, its Frames from the offset on are one Document. -/
def Shard.HasDocument (s : Shard) (blockID : UInt64) (offset : Nat) : Prop :=
  ∀ f, (s.blocks blockID).blk = some f → f.DocumentAt offset (s.framesFrom blockID offset)

def Shard.Landed {α : Type} (ready : ReadySet) (blockID : UInt64) (offset : Nat) :
    EStateM.Result ShardErr Shard α → Prop
  | .ok _ t => t.Ready ready ∧ t.HasDocument blockID offset
  | .error _ t => t.Ready ready

section Appends

variable {ready : ReadySet} {c : Crypto} {s : Shard} {w : Writer} {f : BlkFile}

def Shard.wrote (s : Shard) (w' : Writer) (f' : BlkFile) (preps : List OpenlogEntry) : Shard :=
  { (s.setBlk w'.blockID (some f')) with blockWriter := some w', openlog := preps }

theorem Shard.Ready.appended (h : s.Ready ready) (hw : s.blockWriter = some w)
    (hf : (s.blocks w.blockID).blk = some f) {ps : List (List UInt8)} (hps : ps ≠ [])
    (preps : List OpenlogEntry) :
    (s.wrote (w.behind ps) (f.with w.docSeq ps) preps).Ready ready ∧
      (s.wrote (w.behind ps) (f.with w.docSeq ps) preps).HasDocument w.blockID w.offset := by
  have hopen := h.inStep w f hw hf
  have hblk : ((s.wrote (w.behind ps) (f.with w.docSeq ps) preps).blocks w.blockID).blk =
      some (f.with w.docSeq ps) := by
    simp [Shard.wrote, Shard.setBlk, Shard.setBlock, Writer.behind, Writer.documentDone]
  refine ⟨?_, fun f' hf' => ?_⟩
  · have hready := Shard.Ready.install (w := w.behind ps) h.holds (openWriter_with hopen hps)
      fun o doc hdoc => (h.holds _ f hf o doc hdoc).append rfl
    exact hready.of_same rfl fun _ => rfl
  · cases hblk.symm.trans hf'
    have hat : framesAt w.offset headerSize (f.with w.docSeq ps).frames = docFrames w.docSeq 0 ps := by
      rw [openWriter_offset hopen, BlkFile.with, framesAt_append]
    simp only [Shard.framesFrom, hblk, hat]
    exact ⟨⟨w.docSeq, ps, hps, rfl⟩, hat ▸ List.prefix_rfl⟩

/-- An append that fails, or is not what the leader said, is cut away. -/
theorem Shard.Ready.undone (h : s.Ready ready) (hw : s.blockWriter = some w)
    (hf : (s.blocks w.blockID).blk = some f) {ε α : Type} {res : Except ε α} {w' : Writer}
    {f' : BlkFile} (hout : w.Appended f (res, w', f')) (preps : List OpenlogEntry) :
    ∃ t, (truncateOpenBlock w.offset).run (s.wrote w' f' preps) = .ok (.ok ()) t ∧
      t.Ready ready := by
  obtain ⟨hid, hoff, gs, tail, hf'⟩ := hout.grown
  simp only at hid hoff hf'
  subst hf'
  have hopen := h.inStep w f hw hf
  have hheld : ready.HeldBy w'.blockID ⟨f.frames ++ gs, tail⟩ := by
    rw [hid]
    exact fun o doc hdoc => (h.holds _ f hf o doc hdoc).append rfl
  have hblk : ((s.wrote w' ⟨f.frames ++ gs, tail⟩ preps).blocks w.blockID).blk =
      some ⟨f.frames ++ gs, tail⟩ := by
    simp [Shard.wrote, Shard.setBlk, Shard.setBlock, hid]
  exact ⟨_, truncateOpenBlock_back hopen rfl hid hoff hblk,
    Shard.Ready.back (h.holds.setBlk hheld)
      hopen (h.holds _ f hf) preps⟩

theorem appendAtOffset_landed (h : s.Ready ready) (hw : s.blockWriter = some w)
    (init : ReplicateDocumentInit) (body : Body) (writeID : String)
    (hoff : w.offset = safeUint64ToInt64 init.startOffset) :
    Shard.Landed ready w.blockID w.offset ((appendAtOffset c init body writeID w).run s) := by
  rw [appendAtOffset, modify_bind, get_bind, ← hoff]
  generalize hp : OpenlogEntry.mk _ _ _ _ _ _ = prep
  have hsame : ((s.beginWriteAttempt prep).blocks w.blockID).blk = (s.blocks w.blockID).blk := rfl
  rw [hsame]
  cases hf : (s.blocks w.blockID).blk with
  | none => exact h.of_same rfl fun _ => rfl
  | some f => ?_
  have happend := appendReplicatedPayload_appended c init body w f
  simp only
  generalize appendReplicatedPayload c init body w f = out at happend ⊢
  obtain ⟨res, w', f'⟩ := out
  have hid : w'.blockID = w.blockID := happend.grown.1
  have habort : ∀ err : ShardErr, Shard.Landed ready w.blockID w.offset ((do
      abortReplicatedWriteAttempt writeID w.offset
      throw err : ShardM AppendResult).run (s.wrote w' f' (s.openlog ++ [prep]))) := by
    intro err
    obtain ⟨t, hcut, ht⟩ := h.undone hw hf happend (s.openlog ++ [prep])
    have hrun : (abortReplicatedWriteAttempt writeID w.offset).run
        (s.wrote w' f' (s.openlog ++ [prep])) = .ok () (t.removePrep writeID) := by
      rw [abortReplicatedWriteAttempt, bind_of_ok hcut]
      rfl
    rw [bind_of_ok hrun]
    exact ht.of_same rfl fun _ => rfl
  have hset : { (s.beginWriteAttempt prep).setBlk w.blockID (some f') with
      blockWriter := some w' } = s.wrote w' f' (s.openlog ++ [prep]) := by
    rw [← hid]
    rfl
  rw [hset]
  cases res with
  | error err => exact habort err
  | ok result => ?_
  simp only
  cases validateReplicatedAppend init result w.offset with
  | error err => exact habort err
  | ok u =>
    obtain ⟨ps, hps, rfl, rfl⟩ := happend
    exact h.appended hw hf hps _

theorem appendReplicatedDocument_landed (h : s.Ready ready)
    (hfresh : ∀ o, ready s.nextBlockID o = none) (raft : RaftStatus) (init : ReplicateDocumentInit)
    (body : Body) (writeID : String) (now : Int)
    (hends : ready.EndsBy init.blockID (safeUint64ToInt64 init.startOffset))
    (hpeers : ∀ staged copy, some staged ∈ peers →
      prepareReplicaRepairStaging c staged (safeUint64ToInt64 init.startOffset) = some copy →
      ready.HeldBy init.blockID copy.blk) :
    Shard.Landed ready init.blockID (safeUint64ToInt64 init.startOffset)
      ((appendReplicatedDocument c raft init body writeID now peers).run s) := by
  unfold appendReplicatedDocument
  cases validateReplicationFence raft init with
  | error err => exact h
  | ok u => ?_
  have hmove := advanceReplicaBlock_ready h hfresh init.blockID
  cases hadv : (advanceReplicaBlock init.blockID).run s with
  | error err t =>
    rw [after, hadv] at hmove
    rwa [bind_of_error hadv]
  | ok u t =>
    rw [after_of_ok hadv] at hmove
    rw [bind_of_ok hadv, get_bind]
    cases hw : t.blockWriter with
    | none => exact hmove
    | some w => ?_
    simp only
    split
    · exact hmove
    next hid =>
      have hat : t.ReadyAt ready init.blockID := by
        refine ⟨hmove, fun w' hw' => ?_⟩
        rw [← Option.some.inj (hw.symm.trans hw')]
        exact not_ne_iff.mp hid
      have hkept := ensureReplicaAppendOffset_ready now w hends hpeers t hat
      cases hensure : (ensureReplicaAppendOffset c init.blockID
          (safeUint64ToInt64 init.startOffset) now peers w).run t with
      | error err u =>
        rw [after, hensure] at hkept
        rw [bind_of_error hensure]
        exact hkept.1
      | ok r u =>
        rw [after_of_ok hensure] at hkept
        rw [bind_of_ok hensure, get_bind]
        cases hw' : u.blockWriter with
        | none => exact hkept.1
        | some w' => ?_
        have hoff := ensureReplicaAppendOffset_ok hensure w' hw'
        rw [← hkept.2 w' hw', ← hoff]
        exact appendAtOffset_landed hkept.1 hw' init body writeID hoff

theorem appendWrite_landed (h : s.Ready ready) (hw : s.blockWriter = some w) (req : WriteRequest)
    (encryptor : Option Encryptor) (writeID : String) (now : Int) :
    Shard.Landed ready w.blockID w.offset ((appendWrite c req encryptor writeID now).run s) := by
  rw [appendWrite, get_bind, hw]
  simp only
  cases hf : (s.blocks w.blockID).blk with
  | none => exact h
  | some f => ?_
  have happend := appendDocumentPayload_appended c req.body encryptor w f
  simp only
  generalize OpenlogEntry.mk _ _ _ _ _ _ = prep
  generalize appendDocumentPayload c req.body encryptor w f = out at happend ⊢
  obtain ⟨res, w', f'⟩ := out
  have hid : w'.blockID = w.blockID := happend.grown.1
  have habort : ∀ err : ShardErr, Shard.Landed ready w.blockID w.offset ((do
      abortWriteAttempt writeID w.offset
      throw err : ShardM WriteAttempt).run (s.wrote w' f' (s.openlog ++ [prep]))) := by
    intro err
    obtain ⟨t, hcut, ht⟩ := h.undone hw hf happend (s.openlog ++ [prep])
    have hrun : (abortWriteAttempt writeID w.offset).run
        (s.wrote w' f' (s.openlog ++ [prep])) = .ok () (t.removePrep writeID) := by
      have hwriter : (s.wrote w' f' (s.openlog ++ [prep])).blockWriter = some w' := rfl
      rw [abortWriteAttempt, get_bind, hwriter]
      rw [bind_of_ok hcut]
      rfl
    rw [bind_of_ok hrun]
    exact ht.of_same rfl fun _ => rfl
  have hset : { (s.beginWriteAttempt prep).setBlk w.blockID (some f') with
      blockWriter := some w' } = s.wrote w' f' (s.openlog ++ [prep]) := by
    rw [← hid]
    rfl
  rw [hset]
  cases res with
  | error err => exact habort err
  | ok result => ?_
  simp only
  split
  · exact habort _
  · obtain ⟨ps, hps, rfl, rfl⟩ := happend
    exact h.appended hw hf hps _

theorem appendWrite_ready (h : s.Ready ready) (req : WriteRequest) (encryptor : Option Encryptor)
    (writeID : String) (now : Int) : (after (appendWrite c req encryptor writeID now) s).Ready ready := by
  cases hw : s.blockWriter with
  | none =>
    rw [appendWrite, after_get_bind, hw]
    exact h
  | some w =>
    have hlanded := appendWrite_landed (c := c) h hw req encryptor writeID now
    rw [after]
    cases hrun : (appendWrite c req encryptor writeID now).run s with
    | error err t =>
      rw [hrun] at hlanded
      exact hlanded
    | ok a t =>
      rw [hrun] at hlanded
      exact hlanded.1

theorem appendWrite_place {req : WriteRequest} {encryptor : Option Encryptor} {writeID : String}
    {now : Int} {a : WriteAttempt}
    (hrun : (appendWrite c req encryptor writeID now).run s = .ok a t) :
    ∃ w, s.blockWriter = some w ∧ a.blockID = w.blockID ∧ a.startOffset = w.offset := by
  cases hw : s.blockWriter with
  | none => simp [appendWrite, hw] at hrun
  | some w => ?_
  cases hf : (s.blocks w.blockID).blk with
  | none => simp [appendWrite, hw, hf] at hrun
  | some f =>
    obtain ⟨result, envelope, w', f', -, rfl, -⟩ := appendWrite_result hw hf hrun
    exact ⟨w, rfl, rfl, rfl⟩

end Appends

/-! ## The other steps -/

theorem evictedFiles_blk {l : LocalBlock} {windowSeconds : Int} {plan : EvictionPlan}
    {selected : PlanBlock} {r : ApplyReadings} {n : Nat}
    (h : (s.evictedFiles l windowSeconds plan selected r n).blk = some f) :
    (s.blocks selected.blockID).blk = some f := by
  have hstands : Stands FileStep.run
      (fun k => ∀ f, k.files.blk = some f → (s.blocks selected.blockID).blk = some f)
      (LocalBlock.applyEvictionBlock { l with files := s.blocks selected.blockID } s.shardID
        windowSeconds plan selected (s.blocks selected.blockID).confirmedUploadAuthority r).2
      { l with files := s.blocks selected.blockID } := by
    refine stands_of_forall (fun f hf => hf) fun step hstep k hk f hf => ?_
    cases step with
    | renameBlk g =>
      obtain ⟨pre, post, hsteps, hpre, hpost⟩ := LocalBlock.applyEvictionBlock_steps
        { l with files := s.blocks selected.blockID } s.shardID windowSeconds plan selected
        (s.blocks selected.blockID).confirmedUploadAuthority r
      rw [hsteps] at hstep
      rcases hpre with rfl | ⟨m, rfl⟩ <;> rcases hpost with rfl | rfl | rfl <;> simp at hstep
    | unlinkBlk => cases hf
    | _ => exact hk f hf
  exact hstands n f h

section Steps

variable {ready : ReadySet} {c : Crypto} {s t : Shard}

theorem admitWrite_ready (h : s.Ready ready) (hfresh : ∀ o, ready s.nextBlockID o = none)
    (sealSize : Nat) (req : WriteRequest) (allowed pressure : Except ShardErr Unit) :
    (after (admitWrite c sealSize req allowed pressure) s).Ready ready := by
  rw [after_admitWrite]
  split
  · exact h.openNewBlock hfresh
  · exact h

theorem LogEntry.apply_ready (h : s.Ready ready) (hfresh : ∀ o, ready s.nextBlockID o = none)
    {e : LogEntry} (hrun : (e.apply c).run s = .ok () t) : t.Ready ready := by
  obtain ⟨i, cmd⟩ := e
  cases cmd with
  | commitDoc doc =>
    have hsame := applyCommitDocumentCommand_sameBytes s doc i
    rw [after_of_ok (m := applyCommitDocumentCommand doc i) hrun] at hsame
    exact h.sameBytes hsame
  | rewrapDoc cmd =>
    have hsame := applyRewrapDocumentEnvelopeCommand_sameBytes s c cmd i
    rw [after_of_ok (m := applyRewrapDocumentEnvelopeCommand c cmd i) hrun] at hsame
    exact h.sameBytes hsame
  | sealBlock cmd =>
    obtain ⟨idx, -, rfl⟩ := applySealBlock_ok hrun
    exact Shard.Ready.closeIfOpen (s := { s with idx := idx }) (h.of_same rfl fun _ => rfl) hfresh _
  | confirmUpload cmd =>
    obtain ⟨u, hframe, ht⟩ := applyConfirmUpload_ok hrun
    have hu : u.Ready ready := h.of_same hframe.blockWriter hframe.blk
    have hnext : ∀ o, ready u.nextBlockID o = none := by
      rw [hframe.nextBlockID]
      exact hfresh
    rcases ht with rfl | rfl | ⟨p, rfl⟩
    · exact hu
    · exact hu.closeIfOpen hnext _
    · exact (hu.closeIfOpen hnext _).of_same rfl fun _ => rfl

theorem Shard.Ready.record (h : s.Ready x.byteReady) {o : UInt64} {doc : List Frame}
    (hdoc : ∀ f, (s.blocks b).blk = some f →
      f.DocumentAt (safeUint64ToInt64 o) doc) : s.Ready (x.record b o doc).byteReady := by
  refine ⟨h.inStep, fun b' f hf o' doc' hdoc' => ?_⟩
  simp only [ReadyMember.record] at hdoc'
  by_cases hb : b' = b
  · subst hb
    rw [update_self] at hdoc'
    by_cases ho : o' = o
    · subst ho
      rw [update_self] at hdoc'
      exact Option.some.inj hdoc' ▸ hdoc f hf
    · rw [update_of_ne ho] at hdoc'
      exact h.holds b' f hf o' doc' hdoc'
  · rw [update_of_ne hb] at hdoc'
    exact h.holds b' f hf o' doc' hdoc'

end Steps

theorem ensureCommitDocumentBytesReady_ready {y : ReadyMember} (h : x.shard.Ready x.byteReady)
    {o : UInt64} {n : UInt32} (hread : x.ensureCommitDocumentBytesReady b o n = .ok y)
    (hwhole : x.byteReady b o = none → ∃ seq ps, ps ≠ [] ∧
      (x.shard.framesFrom b (safeUint64ToInt64 o)).take n.toNat = docFrames seq 0 ps) :
    y.shard.Ready y.byteReady := by
  unfold ReadyMember.ensureCommitDocumentBytesReady at hread
  split at hread
  · exact Except.ok.inj hread ▸ h
  next hnone =>
    rw [Option.not_isSome_iff_eq_none] at hnone
    cases hf : (x.shard.blocks b).blk with
    | none => simp [hf] at hread
    | some f => ?_
    simp only [hf] at hread
    split at hread
    · cases hread
    have hdoc := hwhole hnone
    simp only [Shard.framesFrom, hf] at hdoc
    rw [← Except.ok.inj hread]
    refine Shard.Ready.record h fun f' hf' => ?_
    cases hf.symm.trans hf'
    exact ⟨hdoc, List.take_prefix _ _⟩

theorem ReadyEvent.ready {c : Crypto} {y : ReadyMember} (event : ReadyEvent)
    (h : x.shard.Ready x.byteReady) (hcond : event.Leaves c x)
    (hrun : (event.run c).run x = .ok () y) : y.shard.Ready y.byteReady := by
  cases event with
  | stream raft init body writeID now peers =>
    obtain ⟨hfresh, hends, hpeers⟩ := hcond
    have hlanded := appendReplicatedDocument_landed h hfresh raft init body writeID now hends hpeers
    cases hrun
    simp only
    cases hstream : (appendReplicatedDocument c raft init body writeID now peers).run x.shard with
    | error err s =>
      rw [hstream] at hlanded
      exact hlanded
    | ok r s =>
      rw [hstream] at hlanded
      exact Shard.Ready.record hlanded.1 hlanded.2
  | prepare sealSize req allowed pressure =>
    cases hrun
    exact admitWrite_ready h hcond sealSize req allowed pressure
  | append req encryptor writeID now =>
    cases hrun
    simp only
    cases happend : (appendWrite c req encryptor writeID now).run x.shard with
    | error err s =>
      have hready := appendWrite_ready (c := c) h req encryptor writeID now
      rwa [after, happend] at hready
    | ok a s =>
      obtain ⟨w, hw, hid, hoff⟩ := appendWrite_place happend
      have hlanded := appendWrite_landed (c := c) h hw req encryptor writeID now
      rw [happend] at hlanded
      refine Shard.Ready.record hlanded.1 ?_
      rw [hid, hoff, safeUint64ToInt64_ofNat (hcond w hw)]
      exact hlanded.2
  | abort writeID startOffset =>
    cases hrun
    exact abortWriteAttempt_ready h writeID hcond
  | entry e =>
    simp only [ReadyEvent.run, EStateM.run] at hrun
    split at hrun
    next happly =>
      cases hrun
      exact LogEntry.apply_ready h hcond happly
    next => cases hrun
  | evict l windowSeconds plan selected r n =>
    cases hrun
    refine h.of_fewer rfl fun b f hf => ?_
    by_cases hb : b = selected.blockID
    · subst hb
      exact evictedFiles_blk (by simpa [Shard.setBlock] using hf)
    · simpa [Shard.setBlock, hb] using hf
  | read blockID firstFrameOff frameCount =>
    cases hrun
    simp only
    cases hread : x.ensureCommitDocumentBytesReady blockID firstFrameOff frameCount with
    | error err => exact h
    | ok y => exact ensureCommitDocumentBytesReady_ready h hread (hcond y hread)

/-- In every run that takes no recorded Document away, each place in the set whose `.blk` is here
has its Document. -/
theorem byte_ready_holds (c : Crypto) {s : Shard} (hs : s.InStep) {events : List ReadyEvent}
    {x : ReadyMember} (hrun : (runAll (ReadyEvent.run c) events).run (.start s) = .ok () x)
    (hcond : Meets (ReadyEvent.run c) (fun y event => event.Leaves c y) (.start s) events) :
    ∀ b o doc, x.byteReady b o = some doc → ∀ f, (x.shard.blocks b).blk = some f →
      f.DocumentAt (safeUint64ToInt64 o) doc := by
  have hstart : (ReadyMember.start s).shard.Ready (ReadyMember.start s).byteReady := ⟨hs, nofun⟩
  have hstep : ∀ event y y', y.shard.Ready y.byteReady → event.Leaves c y →
      (ReadyEvent.run c event).run y = .ok () y' → y'.shard.Ready y'.byteReady :=
    fun event y y' hy hleaves hstep => event.ready hy hleaves hstep
  have hready := Meets.invariant hstep hstart hcond hrun
  exact fun b o doc hdoc f hf => hready.holds b f hf o doc hdoc

/-! ## Two runs -/

def appendX : ReadyEvent := .append ⟨"t", "x", "text/plain", eightByteBody⟩ none "w1" 1

/-- Its replication fails, and the write is aborted. -/
theorem aborted_write_stays_ready : ∃ x doc f,
    (runAll (ReadyEvent.run keylessCrypto) [appendX, .abort "w1" 40]).run
      (.start (Shard.fresh 1 true)) = .ok () x ∧
    x.byteReady 1 40 = some doc ∧ (x.shard.blocks 1).blk = some f ∧
    ¬ f.DocumentAt (safeUint64ToInt64 40) doc := by
  refine ⟨_, docFrames 0 0 [List.replicate 8 0], newBlkFile,
    outcome_ok_iff.mp (show outcome _ _ = .ok () by decide +kernel), by decide +kernel,
    by decide +kernel, fun h => ?_⟩
  exact absurd h.end_le (by decide +kernel)

/-- `x` is committed, and `y` goes to the next Block. -/
def sealedWrites : List ReadyEvent :=
  [appendX, .entry ⟨1, .commitDoc (docOfT "x" 1 40)⟩,
    .prepare 64 ⟨"t", "y", "text/plain", eightByteBody⟩ (.ok ()) (.ok ()),
    .append ⟨"t", "y", "text/plain", eightByteBody⟩ none "w2" 2]

theorem byte_ready_holds_sealed : ∃ x doc f doc' f',
    (runAll (ReadyEvent.run keylessCrypto) sealedWrites).run (.start (Shard.fresh 1 true)) = .ok () x ∧
    x.byteReady 1 40 = some doc ∧ (x.shard.blocks 1).blk = some f ∧
    f.DocumentAt (safeUint64ToInt64 40) doc ∧
    x.byteReady 2 40 = some doc' ∧ (x.shard.blocks 2).blk = some f' ∧
    f'.DocumentAt (safeUint64ToInt64 40) doc' := by
  have hrun := outcome_ok_iff.mp (show outcome (runAll (ReadyEvent.run keylessCrypto)
    sealedWrites) (.start (Shard.fresh 1 true)) = .ok () by decide +kernel)
  have hs : (Shard.fresh 1 true).InStep := by
    intro w f hw hf
    cases hw
    cases hf
    rfl
  have hcond : Meets (ReadyEvent.run keylessCrypto) (fun y event => event.Leaves keylessCrypto y)
      (.start (Shard.fresh 1 true)) sealedWrites := by
    refine ⟨fun w hw => ?_, fun o => ?_, fun o => ?_, fun w hw => ?_, trivial⟩
    · cases hw
      decide +kernel
    · rfl
    · rfl
    · cases hw
      decide +kernel
  have hholds := byte_ready_holds keylessCrypto hs hrun hcond
  exact ⟨_, docFrames 0 0 [List.replicate 8 0], ⟨docFrames 0 0 [List.replicate 8 0], 0⟩,
    docFrames 0 0 [List.replicate 8 0], ⟨docFrames 0 0 [List.replicate 8 0], 0⟩, hrun,
    by decide +kernel, by decide +kernel, hholds 1 40 _ (by decide +kernel) _ (by decide +kernel),
    by decide +kernel, by decide +kernel, hholds 2 40 _ (by decide +kernel) _ (by decide +kernel)⟩

end Scrap
