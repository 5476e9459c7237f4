/-
# How far the open Blocks of the Members are apart

Every start of a Member opens a new Block, behind all Blocks that have a file. A follower is told
the Block of an append by the leader's stream, and moves there (`advanceReplicaBlock`) when it is
the one behind its open Block, or the one before it while the open Block is still empty. So one
restart of a follower is made up for, and two are not (`second_restart_rejects_stream`).

* `Shard.Placed n`: the Member's Blocks end at `n - 1`, which is the open one. A roll, a seal and a
  restart add one; a stream moves to the leader's Block.
* `Cell.Near`: no two Members are more than one Block apart. A step that opens a Block keeps it
  when the Member is not ahead of another one, and a stream keeps it always.
-/
import Scrap.Shard.Generations
import Scrap.Shard.Replay

namespace Scrap

open Block Fallible

/-! ## One Member -/

/-- The Blocks end at the one before `n`, which has no files but its `.blk` and `.idx` and is the
open one, if any is. -/
structure Shard.Placed (n : UInt64) (s : Shard) : Prop where
  next : s.nextBlockID = n
  writer : ∀ w, s.blockWriter = some w → w.blockID + 1 = n
  top : s.blocks (n - 1) ≠ .absent
  only : { s.blocks (n - 1) with blk := none, idx := none } = BlockFiles.absent
  below : ∀ b, s.blocks b ≠ .absent → b < n

variable {files : BlockFiles} {s : Shard}

theorem BlockFiles.ne_absent_of_blk (h : files.blk.isSome) :
    files ≠ .absent := by
  rintro rfl
  cases h

theorem BlockFiles.ne_absent_of_idx (h : files.idx.isSome) :
    files ≠ .absent := by
  rintro rfl
  cases h

namespace Shard.Placed

variable {n b : UInt64} {s t : Shard}

theorem of_same (h : s.Placed n) (hnext : t.nextBlockID = s.nextBlockID)
    (hblocks : t.blocks = s.blocks) (hwriter : t.blockWriter = s.blockWriter) : t.Placed n :=
  ⟨hnext.trans h.next, fun w hw => h.writer w (hwriter ▸ hw), hblocks ▸ h.top, hblocks ▸ h.only,
    fun b hb => h.below b (hblocks ▸ hb)⟩

theorem noWriter (h : s.Placed n) : Shard.Placed n { s with blockWriter := none } :=
  ⟨h.next, nofun, h.top, h.only, h.below⟩

theorem withWriter (h : s.Placed n) {w : Writer} (hw : w.blockID + 1 = n) :
    Shard.Placed n { s with blockWriter := some w } := by
  refine ⟨h.next, fun w' hw' => ?_, h.top, h.only, h.below⟩
  cases hw'
  exact hw

theorem setBlock (h : s.Placed n) (hb : s.blocks b ≠ .absent) (hfiles : files ≠ .absent)
    (hrest : { files with blk := none, idx := none } =
      { s.blocks b with blk := none, idx := none }) : (s.setBlock b files).Placed n := by
  refine ⟨h.next, h.writer, ?_, ?_, fun b' hb' => ?_⟩
  · by_cases hn : n - 1 = b
    · rw [hn]
      simpa [Shard.setBlock] using hfiles
    · simpa [Shard.setBlock, hn] using h.top
  · by_cases hn : n - 1 = b
    · have honly := h.only
      rw [hn] at honly ⊢
      simpa [Shard.setBlock] using hrest.trans honly
    · simpa [Shard.setBlock, hn] using h.only
  · by_cases hbb : b' = b
    · subst hbb
      exact h.below _ hb
    · exact h.below b' (by simpa [Shard.setBlock, hbb] using hb')

theorem last_files (h : s.Placed n) (hb : b + 1 = n) : s.blocks b ≠ .absent := by
  have htop := h.top
  rwa [← hb, UInt64.add_sub_cancel] at htop

theorem indexClosed (n : UInt64) : Shard.IndexClosed (Shard.Placed n) where
  setIdxFile := fun h _ _ hf _ => h.setBlock (BlockFiles.ne_absent_of_idx (by simp [hf]))
    (BlockFiles.ne_absent_of_idx rfl) rfl
  withIndex := fun h _ => h.of_same rfl rfl rfl
  cleanup := fun h _ => h.of_same rfl rfl rfl

theorem streamClosed (hb : b + 1 = n) : Shard.StreamClosed b (Shard.Placed n) where
  noWriter := fun h => h.noWriter
  preps := fun h _ => h.of_same rfl rfl rfl
  withPending := fun h _ => h.of_same rfl rfl rfl
  writeBlk := by
    intro s w w' h _ _ hid' f
    have hset : (s.setBlk b (some f)).Placed n :=
      h.setBlock (h.last_files hb) (BlockFiles.ne_absent_of_blk rfl) rfl
    exact hset.withWriter (hid' ▸ hb)
  repair := fun h _ _ _ => h.setBlock (h.last_files hb) (BlockFiles.ne_absent_of_blk rfl) rfl
  withWriter := fun h hid _ => h.withWriter (hid ▸ hb)

theorem wake (h : s.Placed n) (key : String) (r : Option ShardErr) : (s.wake key r).Placed n := by
  unfold Shard.wake
  split
  · exact h
  · exact h.of_same rfl rfl rfl

end Shard.Placed

theorem Shard.openNewBlock_placed {n : UInt64} (hnext : s.nextBlockID = n)
    (hbelow : ∀ b, s.blocks b ≠ .absent → b < n) (hroom : n < n + 1) :
    s.openNewBlock.Placed (n + 1) := by
  have habsent : s.blocks n = .absent := by
    by_contra hne
    exact absurd (hbelow n hne) (UInt64.lt_irrefl n)
  subst hnext
  refine ⟨rfl, fun w hw => ?_, ?_, ?_, fun b hb => ?_⟩
  · cases hw
    rfl
  · rw [UInt64.add_sub_cancel]
    exact BlockFiles.ne_absent_of_blk (by simp [Shard.openNewBlock])
  · rw [UInt64.add_sub_cancel]
    simp [Shard.openNewBlock, habsent, BlockFiles.absent]
  by_cases hbn : b = s.nextBlockID
  · exact hbn ▸ hroom
  · exact UInt64.lt_trans
      (hbelow b (by simpa [Shard.openNewBlock, hbn] using hb)) hroom

namespace Shard.Placed

variable {n b : UInt64} {s t : Shard}

theorem openNewBlock (h : s.Placed n) (hroom : n < n + 1) : s.openNewBlock.Placed (n + 1) :=
  Shard.openNewBlock_placed h.next h.below hroom

theorem closeIfOpen (h : s.Placed n) (b : UInt64) (hroom : s.isOpen b = true → n < n + 1) :
    (s.closeIfOpen b).Placed n ∨ s.isOpen b = true ∧ (s.closeIfOpen b).Placed (n + 1) := by
  unfold Shard.closeIfOpen
  split
  · next hopen => exact .inr ⟨hopen, h.openNewBlock (hroom hopen)⟩
  · exact .inl h

end Shard.Placed

/-! ## What the calls do -/

section Calls

variable {n : UInt64} {s : Shard} (c : Crypto)

theorem Shard.Placed.reopened (h : s.Placed n) {target : UInt64} {w bw : Writer}
    (hw : s.blockWriter = some w) (hnext : w.blockID = target + 1) (hbw : bw.blockID = target)
    (hblk : (s.blocks target).blk.isSome)
    (honly : { s.blocks target with blk := none, idx := none } = BlockFiles.absent) :
    (s.reopened w.blockID bw).Placed (target + 1) := by
  have hn : w.blockID + 1 = n := h.writer w hw
  have hne : target ≠ w.blockID := by
    rw [hnext]
    simp
  have hlast : { s.blocks w.blockID with blk := none, idx := none } = BlockFiles.absent := by
    have hrest := h.only
    rwa [← hn, UInt64.add_sub_cancel] at hrest
  refine ⟨hnext, fun v hv => ?_, ?_, ?_, fun b hb => ?_⟩
  · rw [← Option.some.inj hv, hbw]
  · rw [UInt64.add_sub_cancel]
    exact BlockFiles.ne_absent_of_blk
      (by simpa [Shard.reopened, Shard.setBlock, hne] using hblk)
  · rw [UInt64.add_sub_cancel]
    simpa [Shard.reopened, Shard.setBlock, hne] using honly
  · by_cases hbw : b = w.blockID
    · subst hbw
      exact absurd hlast (by simpa [Shard.reopened, Shard.setBlock] using hb)
    -- below `w.blockID + 1` and not `w.blockID`
    have hlt := h.below b
      (by simpa [Shard.reopened, Shard.setBlock, hbw] using hb)
    rw [← hnext]
    have hroom : w.blockID.toNat + 1 < 2 ^ 64 := by
      by_contra hover
      have hzero : n.toNat = 0 := by
        rw [← hn, UInt64.toNat_add]
        have := w.blockID.toNat_lt
        simp only [UInt64.toNat_one]
        omega
      rw [UInt64.lt_iff_toNat_lt, hzero] at hlt
      exact absurd hlt (Nat.not_lt_zero _)
    rw [UInt64.lt_iff_toNat_lt] at hlt ⊢
    rw [← hn, UInt64.toNat_add, UInt64.toNat_one] at hlt
    have hneNat : b.toNat ≠ w.blockID.toNat := fun heq => hbw (UInt64.toNat_inj.mp heq)
    omega

theorem advanceReplicaBlock_placed (h : s.Placed n) (target : UInt64) (hroom : n < n + 1)
    (honly : { s.blocks target with blk := none, idx := none } = BlockFiles.absent) :
    (after (advanceReplicaBlock target) s).Placed n ∨
      (target = n ∧ (after (advanceReplicaBlock target) s).Placed (target + 1)) ∨
      (target + 1 + 1 = n ∧ (after (advanceReplicaBlock target) s).Placed (target + 1)) := by
  rcases after_advanceReplicaBlock_cases s target with
    hsame | ⟨w, hw, ⟨hstep, hnew⟩ | ⟨hnext, -, -, f, bw, hblk, hopen, hback⟩⟩
  · exact .inl (hsame.symm ▸ h)
  · have htarget : target = n := hstep.trans (h.writer w hw)
    exact .inr (.inl ⟨htarget, by rw [hnew, htarget]; exact h.openNewBlock hroom⟩)
  · refine .inr (.inr ⟨hnext ▸ h.writer w hw, ?_⟩)
    rw [hback]
    exact h.reopened hw hnext (openWriter_blockID hopen) (by simp [hblk]) honly

theorem stream_placed (h : s.Placed n) (raft : RaftStatus) (init : ReplicateDocumentInit)
    (body : Body) (writeID : String) (now : Int) (peers : List (Option StagedBlock))
    (hroom : n < n + 1)
    (honly : { s.blocks init.blockID with blk := none, idx := none } = BlockFiles.absent) :
    (after (appendReplicatedDocument c raft init body writeID now peers) s).Placed n ∨
      ((init.blockID = n ∨ init.blockID + 1 + 1 = n) ∧
        (after (appendReplicatedDocument c raft init body writeID now peers) s).Placed
          (init.blockID + 1)) := by
  have hmove := advanceReplicaBlock_placed h init.blockID hroom honly
  have hcase : ∃ k, (after (advanceReplicaBlock init.blockID) s).Placed k ∧
      (k = n ∨ (init.blockID = n ∨ init.blockID + 1 + 1 = n) ∧ k = init.blockID + 1) := by
    rcases hmove with hstay | ⟨hon, hp⟩ | ⟨hback, hp⟩
    · exact ⟨n, hstay, .inl rfl⟩
    · exact ⟨_, hp, .inr ⟨.inl hon, rfl⟩⟩
    · exact ⟨_, hp, .inr ⟨.inr hback, rfl⟩⟩
  obtain ⟨k, hk, hkn⟩ := hcase
  have hC : ∀ t : Shard, t.Placed k → t.Placed n ∨
      ((init.blockID = n ∨ init.blockID + 1 + 1 = n) ∧ t.Placed (init.blockID + 1)) := by
    intro t ht
    rcases hkn with rfl | ⟨hmoved, rfl⟩
    · exact .inl ht
    · exact .inr ⟨hmoved, ht⟩
  -- a stream that gets past its move writes to the last Block
  refine appendReplicatedDocument_closed c raft init body writeID now peers
    (I := fun t => init.blockID + 1 = k ∧ t.Placed k) ?_ (fun t ht => hC t ht.2) (.inl h)
    (hC _ hk) fun w hw hid => ⟨hid ▸ hk.writer w hw, hk⟩
  have hclosed := fun hb : init.blockID + 1 = k => Shard.Placed.streamClosed hb
  exact {
    noWriter := fun ht => ⟨ht.1, (hclosed ht.1).noWriter ht.2⟩
    preps := fun ht l => ⟨ht.1, (hclosed ht.1).preps ht.2 l⟩
    withPending := fun ht q => ⟨ht.1, (hclosed ht.1).withPending ht.2 q⟩
    writeBlk := fun ht hw hid hid' f => ⟨ht.1, (hclosed ht.1).writeBlk ht.2 hw hid hid' f⟩
    repair := fun ht blk idx hi => ⟨ht.1, (hclosed ht.1).repair ht.2 blk idx hi⟩
    withWriter := fun ht hid hidx => ⟨ht.1, (hclosed ht.1).withWriter ht.2 hid hidx⟩ }

theorem Shard.Placed.keeps {α : Type} {m : ShardM α} (h : s.Placed n)
    (hm : ∀ b, b + 1 = n → Keeps (fun t => t.Placed n ∧ t.WritesTo b) m) :
    (after m s).Placed n := by
  have hb : n - 1 + 1 = n := UInt64.sub_add_cancel n 1
  refine (hm (n - 1) hb s ⟨h, fun w hw => ?_⟩).1
  rw [← h.writer w hw, UInt64.add_sub_cancel]

theorem appendWrite_placed (h : s.Placed n) (req : WriteRequest) (encryptor : Option Encryptor)
    (writeID : String) (now : Int) :
    (after (appendWrite c req encryptor writeID now) s).Placed n :=
  h.keeps fun _ hb => appendWrite_closed (Shard.Placed.streamClosed hb).writesTo c
    (fun _ ht => ht.2) req encryptor writeID now

theorem abortWriteAttempt_placed (h : s.Placed n) (writeID : String) (offset : Nat) :
    (after (abortWriteAttempt writeID offset) s).Placed n :=
  h.keeps fun _ hb => abortWriteAttempt_closed (Shard.Placed.streamClosed hb).writesTo
    (fun _ ht => ht.2) writeID offset

def Shard.Rolls (s : Shard) (sealSize : Nat) : Prop :=
  ∃ w, s.blockWriter = some w ∧ headerSize < w.offset ∧ sealSize ≤ w.offset

theorem admitWrite_placed (h : s.Placed n) (sealSize : Nat) (req : WriteRequest)
    (allowed pressure : Except ShardErr Unit) (hroom : n < n + 1) :
    (after (admitWrite c sealSize req allowed pressure) s).Placed n ∨
      (s.Rolls sealSize ∧ (after (admitWrite c sealSize req allowed pressure) s).Placed (n + 1)) := by
  rcases after_admitWrite_cases c s sealSize req allowed pressure with hsame | ⟨hnew, hroll⟩
  · exact .inl (hsame.symm ▸ h)
  · exact .inr ⟨hroll, hnew.symm ▸ h.openNewBlock hroom⟩

theorem max_uint64 (a b : UInt64) : max a b = if a ≤ b then b else a := rfl

theorem foldl_max_eq {m : UInt64} : ∀ {ids : List UInt64} {a : UInt64}, a ≤ m →
    (∀ b ∈ ids, b ≤ m) → (m ∈ ids ∨ a = m) → ids.foldl max a = m
  | [], a, _, _, hm => hm.resolve_left List.not_mem_nil
  | b :: ids, a, ha, hids, hm => by
    have hb := hids b List.mem_cons_self
    rw [List.foldl_cons, max_uint64]
    refine foldl_max_eq ?_ (fun b' hb' => hids b' (List.mem_cons_of_mem _ hb')) ?_
    · split
      · exact hb
      · exact ha
    · rcases hm with hm | rfl
      · rcases List.mem_cons.mp hm with rfl | hm
        · exact .inr (if_pos ha)
        · exact .inl hm
      · refine .inr ?_
        split
        · next hab => exact UInt64.le_antisymm hb hab
        · rfl

theorem Shard.Placed.scanMaxBlockID (h : s.Placed n) {ids : List UInt64} (hids : s.Listing ids) :
    Scrap.scanMaxBlockID ids = n := by
  have hlast : n - 1 < n := h.below _ h.top
  have hle : ∀ b ∈ ids, b ≤ n - 1 := by
    intro b hb
    have hlt := h.below b ((hids b).mpr hb)
    rw [UInt64.lt_iff_toNat_lt] at hlt hlast
    rw [UInt64.le_iff_toNat_le]
    have hpred : (n - 1).toNat = n.toNat - 1 := by
      rw [UInt64.toNat_sub_of_le n 1 (UInt64.le_iff_toNat_le.mpr (by rw [UInt64.toNat_one]; omega)),
        UInt64.toNat_one]
    omega
  have hzero : (0 : UInt64) ≤ n - 1 := Nat.zero_le _
  rw [Scrap.scanMaxBlockID, foldl_max_eq hzero hle (.inl ((hids _).mp h.top))]
  exact UInt64.sub_add_cancel n 1

theorem openShard_placed (h : s.Placed n) {ids : List UInt64} (hids : s.Listing ids)
    (hroom : n < n + 1) :
    (after (openShard ids) s).Placed n ∨ (after (openShard ids) s).Placed (n + 1) := by
  have hloaded : (s.reloaded ids).Placed n := by
    have hscan := h.scanMaxBlockID hids
    exact ⟨hscan, nofun, h.top, h.only, h.below⟩
  have hrecover : Keeps (Shard.Placed n) recoverOpenlog :=
    recoverOpenlog_keeps fun _ _ ht => ht.of_same rfl rfl rfl
  unfold openShard
  rw [after_modify_bind]
  have ht := hrecover _ hloaded
  cases hrun : recoverOpenlog.run (s.reloaded ids) with
  | error err t =>
    rw [after, hrun] at ht
    refine .inl ?_
    rw [after, bind_of_error hrun]
    exact ht
  | ok candidates t =>
    rw [after_of_ok hrun] at ht
    refine .inr ?_
    rw [after, bind_of_ok hrun]
    exact ht.openNewBlock hroom

end Calls

/-! ## What the entries do -/

section Entries

variable {n : UInt64} {c : Crypto} {s s' : Shard}

def LogEntry.Closes (s : Shard) (e : LogEntry) : Prop :=
  (∃ cmd, e.cmd = .sealBlock cmd ∧ s.isOpen cmd.blockID = true) ∨
    ∃ cmd, e.cmd = .confirmUpload cmd ∧ s.isOpen cmd.blockID = true

/-- A ConfirmUpload is of a Block that has files here, of the last one only while it is open. -/
def LogEntry.OfOwnBlock (s : Shard) (e : LogEntry) : Prop :=
  ∀ cmd, e.cmd = .confirmUpload cmd → s.blocks cmd.blockID ≠ .absent ∧
    (cmd.blockID + 1 = s.nextBlockID → s.isOpen cmd.blockID = true)

theorem Shard.Placed.confirm (h : s.Placed n) {cmd : ConfirmUpload} (hroom : n < n + 1)
    (hfiles : s.blocks cmd.blockID ≠ .absent)
    (hopen : cmd.blockID + 1 = n → s.isOpen cmd.blockID = true)
    (hrun : (applyConfirmUpload cmd).run s = .ok () s') :
    s'.Placed n ∨ s.isOpen cmd.blockID = true ∧ s'.Placed (n + 1) := by
  rcases applyConfirmUpload_cases hrun with ⟨u, hu, rfl⟩ | ⟨-, rfl⟩ | ⟨-, rfl⟩
  · obtain ⟨⟨m, rfl⟩, -⟩ := Index.confirmRecord_ok hu
    -- the authority file is that of the command's Block
    generalize ht : (s.putConfirmed (confirmedUploadFromCommand cmd m)).withoutPending cmd.blockID = t
    have hother : ∀ b, b ≠ cmd.blockID → t.blocks b = s.blocks b := fun b hb =>
      ht ▸ Function.update_of_ne hb _ _
    have hnext : t.nextBlockID = n := ht ▸ h.next
    have hwriter : t.blockWriter = s.blockWriter := ht ▸ rfl
    have hbelow : ∀ b, t.blocks b ≠ .absent → b < n := by
      intro b hb
      by_cases hbb : b = cmd.blockID
      · exact hbb ▸ h.below _ hfiles
      · exact h.below b (hother b hbb ▸ hb)
    unfold Shard.closeIfOpen
    rw [show t.isOpen cmd.blockID = s.isOpen cmd.blockID by rw [Shard.isOpen, Shard.isOpen, hwriter]]
    split
    · next ho => exact .inr ⟨ho, Shard.openNewBlock_placed hnext hbelow hroom⟩
    next ho =>
      -- the last Block alone must have no authority file
      have hlast : n - 1 ≠ cmd.blockID := by
        rintro heq
        exact ho (hopen (by rw [← heq, UInt64.sub_add_cancel]))
      refine .inl ⟨hnext, fun w hw => h.writer w (hwriter ▸ hw), ?_, ?_, hbelow⟩
      · rw [hother _ hlast]
        exact h.top
      · rw [hother _ hlast]
        exact h.only
  · exact .inl h
  · exact (h.closeIfOpen cmd.blockID fun _ => hroom).imp (fun hp => hp.of_same rfl rfl rfl)
      fun hp => ⟨hp.1, hp.2.of_same rfl rfl rfl⟩

theorem LogEntry.apply_placed (h : s.Placed n) {e : LogEntry} (hroom : n < n + 1)
    (hown : e.OfOwnBlock s) (hrun : (e.apply c).run s = .ok () s') :
    s'.Placed n ∨ e.Closes s ∧ s'.Placed (n + 1) := by
  obtain ⟨i, cmd⟩ := e
  cases cmd with
  | commitDoc doc =>
    obtain ⟨t, hdoc, rfl⟩ := applyCommitDocumentCommand_ok hrun
    exact .inl (((applyCommitDocument_keeps (Shard.Placed.indexClosed n) doc i).ok h hdoc).wake _ _)
  | rewrapDoc cmd =>
    obtain ⟨t, key, r, rfl, ⟨rfl, -⟩ | hdoc⟩ := applyRewrapDocumentEnvelopeCommand_ok hrun
    · exact .inl (h.wake _ _)
    · exact .inl (((applyRewrapDocumentEnvelope_keeps (Shard.Placed.indexClosed n) c cmd _).ok h
        hdoc).wake _ _)
  | sealBlock cmd =>
    obtain ⟨idx, -, rfl⟩ := applySealBlock_ok hrun
    have hidx : Shard.Placed n { s with idx := idx } := h.of_same rfl rfl rfl
    exact (hidx.closeIfOpen cmd.blockID fun _ => hroom).imp_right
      fun hclosed => ⟨.inl ⟨cmd, rfl, hclosed.1⟩, hclosed.2⟩
  | confirmUpload cmd =>
    obtain ⟨hfiles, hopen⟩ := hown cmd rfl
    rw [h.next] at hopen
    exact (h.confirm hroom hfiles hopen hrun).imp_right
      fun hclosed => ⟨.inr ⟨cmd, rfl, hclosed.1⟩, hclosed.2⟩

end Entries

/-! ## The Members of a Cell -/

section Cell

variable {ι : Type} [DecidableEq ι] {c : Crypto} {m m' : ι → Shard}

/-- A Member takes a call, or applies an entry; a Member that fails to apply one stops. -/
inductive CellStep (ι : Type) where
  | call (i : ι) (member : MemberCall)
  | apply (i : ι) (e : LogEntry)

def CellStep.run (c : Crypto) : CellStep ι → EStateM ShardErr (ι → Shard) Unit
  | .call i member => fun m => .ok () (Function.update m i (after (member.run c) (m i)))
  | .apply i e => fun m =>
    match (e.apply c).run (m i) with
    | .ok () s => .ok () (Function.update m i s)
    | .error err s => .error err (Function.update m i s)

/-- The Blocks of `i` do not reach further than those of another Member. -/
def NotAhead (m : ι → Shard) (i : ι) : Prop := ∀ j, (m i).nextBlockID ≤ (m j).nextBlockID

/-- A stream is of the open Block of a Member, and the receiver has no upload or eviction of that
Block; a new Block is opened by a Member that is not ahead. -/
def MemberCall.Allowed (m : ι → Shard) (i : ι) : MemberCall → Prop
  | .stream _ init _ _ _ _ => (∃ l w, (m l).blockWriter = some w ∧ w.blockID = init.blockID) ∧
      { (m i).blocks init.blockID with blk := none, idx := none } = BlockFiles.absent
  | .prepare sealSize _ _ _ => (m i).Rolls sealSize → NotAhead m i
  | .append _ _ _ _ => True
  | .abort _ _ => True
  | .restart ids => (m i).Listing ids ∧ NotAhead m i

def CellStep.Allowed (m : ι → Shard) : CellStep ι → Prop
  | .call i member => (m i).nextBlockID < (m i).nextBlockID + 1 ∧ member.Allowed m i
  | .apply i e => (m i).nextBlockID < (m i).nextBlockID + 1 ∧ e.OfOwnBlock (m i) ∧
      (e.Closes (m i) → NotAhead m i)

/-- No two Members are more than one Block apart. -/
structure Near (m : ι → Shard) : Prop where
  placed : ∀ i, (m i).Placed (m i).nextBlockID
  close : ∀ i j, (m i).nextBlockID.toNat ≤ (m j).nextBlockID.toNat + 1

theorem Near.update (h : Near m) {i : ι} {k : UInt64} (hs : s.Placed k)
    (hk : ∀ j, k.toNat ≤ (m j).nextBlockID.toNat + 1 ∧ (m j).nextBlockID.toNat ≤ k.toNat + 1) :
    Near (Function.update m i s) := by
  have hnext : s.nextBlockID = k := hs.next
  constructor
  · intro j
    by_cases hj : j = i
    · subst hj
      rw [Function.update_self, hnext]
      exact hs
    · rw [Function.update_of_ne hj]
      exact h.placed j
  · intro j j'
    by_cases hj : j = i
    · subst hj
      by_cases hj' : j' = j
      · subst hj'
        omega
      · rw [Function.update_self, Function.update_of_ne hj', hnext]
        exact (hk j').1
    · by_cases hj' : j' = i
      · subst hj'
        rw [Function.update_self, Function.update_of_ne hj, hnext]
        exact (hk j).2
      · rw [Function.update_of_ne hj, Function.update_of_ne hj']
        exact h.close j j'

theorem Near.stay (h : Near m) {i : ι} (hs : s.Placed (m i).nextBlockID) :
    Near (Function.update m i s) :=
  h.update hs fun j => ⟨h.close i j, h.close j i⟩

theorem Near.opens (h : Near m) {i : ι} (hroom : (m i).nextBlockID < (m i).nextBlockID + 1)
    (hahead : NotAhead m i) (hs : s.Placed ((m i).nextBlockID + 1)) :
    Near (Function.update m i s) := by
  refine h.update hs fun j => ?_
  have hle := UInt64.le_iff_toNat_le.mp (hahead j)
  have hclose := h.close j i
  have hsucc : ((m i).nextBlockID + 1).toNat = (m i).nextBlockID.toNat + 1 := by
    rw [UInt64.lt_iff_toNat_lt, UInt64.toNat_add] at hroom
    rw [UInt64.toNat_add, UInt64.toNat_one]
    omega
  omega

theorem Near.call (h : Near m) {i : ι} {member : MemberCall}
    (hroom : (m i).nextBlockID < (m i).nextBlockID + 1) (hallowed : member.Allowed m i) :
    Near (Function.update m i (after (member.run c) (m i))) := by
  have hi := h.placed i
  cases member with
  | stream raft init body writeID now peers =>
    obtain ⟨⟨l, w, hw, hid⟩, honly⟩ := hallowed
    rcases stream_placed c hi raft init body writeID now peers hroom honly with hstay | ⟨-, hp⟩
    · exact h.stay hstay
    · -- the Member is where the leader is
      have hl : init.blockID + 1 = (m l).nextBlockID := hid ▸ (h.placed l).writer w hw
      exact h.update (hl ▸ hp) fun j => ⟨h.close l j, h.close j l⟩
  | prepare sealSize req allowed pressure =>
    rcases admitWrite_placed c hi sealSize req allowed pressure hroom with hstay | ⟨hroll, hp⟩
    · exact h.stay hstay
    · exact h.opens hroom (hallowed hroll) hp
  | append req encryptor writeID now =>
    exact h.stay (appendWrite_placed c hi req encryptor writeID now)
  | abort writeID startOffset => exact h.stay (abortWriteAttempt_placed hi writeID startOffset)
  | restart ids =>
    rcases openShard_placed hi hallowed.1 hroom with hstay | hp
    · exact h.stay hstay
    · exact h.opens hroom hallowed.2 hp

theorem Near.step (h : Near m) {st : CellStep ι} (hallowed : st.Allowed m)
    (hrun : (st.run c).run m = .ok () m') : Near m' := by
  cases st with
  | call i member =>
    cases hrun
    exact h.call hallowed.1 hallowed.2
  | apply i e =>
    obtain ⟨hroom, hown, hahead⟩ := hallowed
    simp only [CellStep.run, EStateM.run] at hrun
    split at hrun
    next hres =>
      cases hrun
      rcases LogEntry.apply_placed (h.placed i) hroom hown hres with hstay | ⟨hcloses, hp⟩
      · exact h.stay hstay
      · exact h.opens hroom (hahead hcloses) hp
    next => cases hrun

/-- The errors with which `advanceReplicaBlockLocked` rejects a Block ID. -/
def ShardErr.rejectsBlockID : ShardErr → Bool
  | .replicaBlockAhead _ _ => true
  | .replicaBlockNotEmpty _ _ => true
  | .replicaBlockTransition _ _ => true
  | _ => false

/-- A Member takes the ID of a Block at most one away from its open one, which is empty if it is the
later one. -/
theorem advanceReplicaBlock_accepts {target : UInt64}
    (hback : ∀ v, s.blockWriter = some v → target < v.blockID →
      v.blockID = target + 1 ∧ v.offset = headerSize)
    (hon : ∀ v, s.blockWriter = some v → v.blockID < target → target = v.blockID + 1)
    {err : ShardErr} (h : outcome (advanceReplicaBlock target) s = .error err) :
    err.rejectsBlockID = false := by
  rw [outcome_error_iff, advanceReplicaBlock, get_bind] at h
  cases hv : s.blockWriter with
  | none =>
    rw [hv] at h
    cases h
  | some v =>
    simp only [hv] at h
    split at h
    · next hlt =>
        obtain ⟨hnext, hoffset⟩ := hback v hv hlt
        rw [reopenPreviousReplicaBlock, get_bind, if_neg (not_not.mpr hnext),
          if_neg (not_not.mpr hoffset)] at h
        split at h
        · rw [← (EStateM.Result.error.inj h).1]
          rfl
        split at h
        · rw [← (EStateM.Result.error.inj h).1]
          rfl
        split at h
        · rw [← (EStateM.Result.error.inj h).1]
          rfl
        · cases h
    · split at h
      · next hlt =>
          rw [if_neg (not_not.mpr (hon v hv hlt))] at h
          cases h
      · cases h

/-- From Members at most one Block apart, in every state of every run of allowed steps: a Member
whose open Block is not later than the leader's, or is empty, does not reject the leader's Block. -/
theorem near_members_accept_stream (c : Crypto) {steps : List (CellStep ι)} (hstart : Near m)
    (hallowed : Meets (CellStep.run c) CellStep.Allowed m steps)
    (hrun : (runAll (CellStep.run c) steps).run m = .ok () m') {leader follower : ι} {w : Writer}
    (hw : (m' leader).blockWriter = some w)
    (hempty : ∀ v, (m' follower).blockWriter = some v → w.blockID < v.blockID →
      v.offset = headerSize) {err : ShardErr}
    (herr : outcome (advanceReplicaBlock w.blockID) (m' follower) = .error err) :
    err.rejectsBlockID = false := by
  have h : Near m' := Meets.invariant (fun _ _ _ hn hs hstep => hn.step hs hstep) hstart hallowed
    hrun
  -- the places of the two Members are the successors of their open Blocks
  have hplace : ∀ i v, (m' i).blockWriter = some v →
      (m' i).nextBlockID.toNat = v.blockID.toNat + 1 := by
    intro i v hv
    have hp := h.placed i
    have hlt := hp.below _ hp.top
    rw [← hp.writer v hv, UInt64.add_sub_cancel] at hlt
    rw [← hp.writer v hv]
    rw [UInt64.lt_iff_toNat_lt, UInt64.toNat_add] at hlt
    rw [UInt64.toNat_add, UInt64.toNat_one]
    omega
  have hleader := hplace leader w hw
  have hsucc : ∀ a b : UInt64, a.toNat = b.toNat + 1 → a = b + 1 := by
    intro a b hab
    rw [← UInt64.toNat_inj, UInt64.toNat_add, UInt64.toNat_one]
    have := a.toNat_lt
    omega
  have hclose := h.close leader follower
  have hclose' := h.close follower leader
  refine advanceReplicaBlock_accepts (fun v hv hlt => ⟨hsucc _ _ ?_, hempty v hv hlt⟩)
    (fun v hv hlt => hsucc _ _ ?_) herr
  · have hfollower := hplace follower v hv
    rw [UInt64.lt_iff_toNat_lt] at hlt
    omega
  · have hfollower := hplace follower v hv
    rw [UInt64.lt_iff_toNat_lt] at hlt
    omega

end Cell

/-! ## Two restarts -/

/-- Two Members on empty directories; `true` is the leader. -/
def freshCell : Bool → Shard := fun _ => Shard.fresh 1 true

theorem fresh_placed : (Shard.fresh 1 true).Placed 2 := by
  refine Shard.openNewBlock_placed (n := 1) rfl (fun b hb => absurd rfl hb) (by decide)

theorem freshCell_near : Near freshCell := ⟨fun _ => fresh_placed, fun _ _ => Nat.le_succ _⟩

theorem fresh_listing : (Shard.fresh 1 true).Listing [1] := by
  intro b
  by_cases hb : b = 1
  · subst hb
    exact ⟨fun _ => List.mem_singleton.mpr rfl, fun _ => by decide +kernel⟩
  · simp [hb, Shard.fresh, Shard.openNewBlock, Shard.emptyDir]

/-- One restart of the follower, whose new Block is empty, is made up for. -/
theorem near_members_accept_stream_restarted : ∃ m,
    (runAll (CellStep.run keylessCrypto) [.call false (.restart [1])]).run freshCell = .ok () m ∧
    (m false).blockWriter = some (newWriter 2) ∧ (m true).blockWriter = some (newWriter 1) ∧
    ∀ err, outcome (advanceReplicaBlock 1) (m false) = .error err → err.rejectsBlockID = false := by
  have hallowed : Meets (CellStep.run keylessCrypto) CellStep.Allowed freshCell
      [.call false (.restart [1])] :=
    ⟨⟨by decide, fresh_listing, fun _ => UInt64.le_refl _⟩, trivial⟩
  have hrun := outcome_ok_iff.mp (show outcome
    (runAll (CellStep.run keylessCrypto) [.call false (.restart [1])]) freshCell = .ok () from rfl)
  have hleader : (after (runAll (CellStep.run keylessCrypto) [.call false (.restart [1])])
      freshCell true).blockWriter = some (newWriter 1) := by decide +kernel
  have hfollower : (after (runAll (CellStep.run keylessCrypto) [.call false (.restart [1])])
      freshCell false).blockWriter = some (newWriter 2) := by decide +kernel
  refine ⟨_, hrun, hfollower, hleader, fun err herr => ?_⟩
  refine near_members_accept_stream keylessCrypto freshCell_near hallowed hrun hleader
    (fun v hv _ => ?_) herr
  rw [← Option.some.inj (hfollower.symm.trans hv)]
  rfl

/-- The follower restarts twice and nothing is written: it has the leader's Block, its two later
ones are empty, and it rejects the leader's next append. -/
theorem second_restart_rejects_stream : Near freshCell ∧ ∃ m, (runAll (CellStep.run keylessCrypto)
      [.call false (.restart [1]), .call false (.restart [1, 2])]).run freshCell = .ok () m ∧
    (m true).blockWriter = some (newWriter 1) ∧
    (m false).blocks 1 = (m true).blocks 1 ∧
    ((m false).blocks 2).blk = some newBlkFile ∧ ((m false).blocks 3).blk = some newBlkFile ∧
    (m false).blockWriter = some (newWriter 3) ∧
    outcome (advanceReplicaBlock 1) (m false) = .error (.replicaBlockAhead 3 1) :=
  ⟨freshCell_near, _, outcome_ok_iff.mp rfl, by decide +kernel⟩

end Scrap
