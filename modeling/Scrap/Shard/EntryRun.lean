/-
# Runs over the committed log

A Member applies the entries of the log one after the other and stops at the first that fails:
`runAll (LogEntry.apply c)`. An entry may come again, as in a replay after a restart. An
`EntryStep` is an entry with what happened on the Member before it: streams, client writes, Blocks
opened, evicted or quarantined, restarts, all of which leave the upload tables alone
(`EntryStep.Quiet`).
-/
import Scrap.Shard.Outbox

namespace Scrap

open Block Fallible

structure LogEntry where
  index : UInt64
  cmd : RaftCommand
deriving DecidableEq

def LogEntry.apply (c : Crypto) (e : LogEntry) : ShardM Unit := applyEntryCommand c e.cmd e.index

def LogEntry.generation (e : LogEntry) : Int := e.cmd.generation e.index

/-! ## Well-formed states stay so -/

variable {c : Crypto} {f : IdxFile} {e : LogEntry} {s s' : Shard}

namespace Shard.Good

variable {s s' : Shard}

theorem of_same (h : s.Good) (htxs : s'.idx.txs = s.idx.txs)
    (hidx : ∀ b, (s'.blocks b).idx = (s.blocks b).idx)
    (hopen : ∀ b, s'.isOpen b = true → s.isOpen b = true) : s'.Good := by
  refine ⟨fun t val hval => h.wf t val (htxs ▸ hval), fun b hb => ?_⟩
  rw [hidx b]
  exact h.openIdx b (hopen b hb)

theorem openNewBlock (h : s.Good) : s.openNewBlock.Good := by
  refine ⟨h.wf, fun b hb => ?_⟩
  obtain rfl : s.nextBlockID = b := by simpa [Shard.openNewBlock, Shard.isOpen, newWriter] using hb
  exact ⟨newIndexFile, by simp [Shard.openNewBlock], rfl⟩

theorem closeIfOpen (h : s.Good) (b : UInt64) : (s.closeIfOpen b).Good := by
  unfold Shard.closeIfOpen
  split
  · exact h.openNewBlock
  · exact h

theorem wake (h : s.Good) (key : String) (r : Option ShardErr) : (s.wake key r).Good := by
  unfold Shard.wake
  split
  · exact h
  · exact h.of_same rfl (fun _ => rfl) fun _ hb => hb

theorem setIdxFile (h : s.Good) (b : UInt64) (hf : f.torn = false) :
    (s.setBlock b { s.blocks b with idx := some f }).Good := by
  refine ⟨h.wf, fun b' hb' => ?_⟩
  by_cases hb : b' = b
  · subst hb
    exact ⟨f, by simp [Shard.setBlock], hf⟩
  · obtain ⟨g, hg, ht⟩ := h.openIdx b' hb'
    exact ⟨g, by simpa [Shard.setBlock, hb] using hg, ht⟩

end Shard.Good

/-- `t` is `s` but for the upload tables and the authority files of confirmed uploads. -/
structure Shard.UploadsOnly (s t : Shard) : Prop where
  txs : t.idx.txs = s.idx.txs
  files : ∀ b, { t.blocks b with confirmedUploadAuthority := none } =
    { s.blocks b with confirmedUploadAuthority := none }
  blockWriter : t.blockWriter = s.blockWriter
  nextBlockID : t.nextBlockID = s.nextBlockID
  uploadEnabled : t.uploadEnabled = s.uploadEnabled
  shardID : t.shardID = s.shardID

namespace Shard.UploadsOnly

variable {s t : Shard}

theorem refl (s : Shard) : s.UploadsOnly s := ⟨rfl, fun _ => rfl, rfl, rfl, rfl, rfl⟩

theorem idx (h : s.UploadsOnly t) (b : UInt64) : (t.blocks b).idx = (s.blocks b).idx := by
  have hb := congrArg BlockFiles.idx (h.files b)
  exact hb

theorem blk (h : s.UploadsOnly t) (b : UInt64) : (t.blocks b).blk = (s.blocks b).blk := by
  have hb := congrArg BlockFiles.blk (h.files b)
  exact hb

theorem isOpen (h : s.UploadsOnly t) (b : UInt64) : t.isOpen b = s.isOpen b := by
  rw [Shard.isOpen, Shard.isOpen, h.blockWriter]

theorem good (h : s.UploadsOnly t) (hg : s.Good) : t.Good :=
  hg.of_same h.txs h.idx fun b hb => h.isOpen b ▸ hb

theorem setIndex (h : s.UploadsOnly t) {idx : Index} (htxs : idx.txs = t.idx.txs) :
    s.UploadsOnly { t with idx := idx } :=
  ⟨htxs.trans h.txs, h.files, h.blockWriter, h.nextBlockID, h.uploadEnabled, h.shardID⟩

theorem setAuthority (h : s.UploadsOnly t) (b : UInt64) (u : Option ConfirmedUpload) :
    s.UploadsOnly (t.setBlock b { t.blocks b with confirmedUploadAuthority := u }) := by
  refine ⟨h.txs, fun b' => ?_, h.blockWriter, h.nextBlockID, h.uploadEnabled, h.shardID⟩
  rw [← h.files b']
  by_cases hb : b' = b <;> simp [Shard.setBlock, hb]

end Shard.UploadsOnly

theorem Shard.UploadsOnly.putConfirmed (s : Shard) (u : ConfirmedUpload) :
    s.UploadsOnly (s.putConfirmed u) :=
  ((UploadsOnly.refl s).setAuthority u.blockID (some u)).setIndex rfl

/-! ## What a command leaves when it succeeds -/

section Commands

variable {c : Crypto} {s s' : Shard} {i : UInt64}

theorem requeue_ready {b : UInt64} {gen : Int}
    (h : (requeueBlockUploadAfterIndexAppend b gen).run s = .ok () s') :
    s.RequeueReady b gen ∧ ∃ p, s' = s.withPending p := by
  by_cases hready : s.RequeueReady b gen
  · obtain ⟨p, hp⟩ := requeue_ok hready
    exact ⟨hready, p, (EStateM.Result.ok.inj (h.symm.trans hp)).2⟩
  · obtain ⟨err, herr⟩ := requeue_error hready
    exact absurd (herr.symm.trans h) (by simp)

theorem applySealBlock_ok {cmd : SealBlock} (h : (applySealBlock cmd).run s = .ok () s') :
    ∃ idx, s.idx.applyCommittedSeal cmd = .ok idx ∧
      s' = Shard.closeIfOpen { s with idx := idx } cmd.blockID := by
  rw [applySealBlock] at h
  cases hseal : s.idx.applyCommittedSeal cmd with
  | error err => simp [hseal] at h
  | ok idx => exact ⟨idx, rfl, by simpa [hseal] using h.symm⟩

theorem applyConfirmUpload_ok {cmd : ConfirmUpload}
    (h : (applyConfirmUpload cmd).run s = .ok () s') :
    ∃ t, s.UploadsOnly t ∧ (s' = t ∨ s' = t.closeIfOpen cmd.blockID ∨
      ∃ p, s' = (t.closeIfOpen cmd.blockID).withPending p) := by
  rcases applyConfirmUpload_cases h with ⟨u, -, hs'⟩ | ⟨-, hs'⟩ | ⟨-, hs'⟩
  · exact ⟨(s.putConfirmed u).withoutPending cmd.blockID,
      (Shard.UploadsOnly.putConfirmed s u).setIndex rfl, .inr (.inl hs')⟩
  · exact ⟨s, .refl s, .inl hs'⟩
  · exact ⟨s, .refl s, .inr (.inr ⟨_, hs'⟩)⟩

def Shard.config (s : Shard) : UInt64 × Bool := (s.shardID, s.uploadEnabled)

theorem Shard.config_closeIfOpen (s : Shard) (b : UInt64) : (s.closeIfOpen b).config = s.config := by
  unfold Shard.closeIfOpen
  split <;> rfl

theorem Shard.config_wake (s : Shard) (key : String) (r : Option ShardErr) :
    (s.wake key r).config = s.config := by
  unfold Shard.wake
  split <;> rfl

theorem apply_good (hg : s.Good) {cmd : RaftCommand} (h : (applyEntryCommand c cmd i).run s = .ok () s') :
    s'.Good ∧ s'.config = s.config := by
  cases cmd with
  | commitDoc doc =>
    obtain ⟨t, hrun, rfl⟩ := applyCommitDocumentCommand_ok h
    obtain ⟨-, hgood, hrest⟩ := applyCommitDocument_ok hg hrun
    refine ⟨hgood.wake _ _, (t.config_wake _ _).trans ?_⟩
    rw [Shard.config, Shard.config, hrest.shardID, hrest.uploadEnabled]
  | rewrapDoc cmd =>
    obtain ⟨t, key, r, rfl, ⟨rfl, -⟩ | hrun⟩ := applyRewrapDocumentEnvelopeCommand_ok h
    · exact ⟨hg.wake _ _, Shard.config_wake _ _ _⟩
    obtain ⟨f, changed, -, hf, hs'⟩ := applyRewrapDocumentEnvelope_ok hrun
    have hset := hg.setIdxFile cmd.blockID hf
    split at hs'
    · obtain ⟨-, p, rfl⟩ := requeue_ready hs'
      exact ⟨(hset.withPending p).wake _ _, Shard.config_wake _ _ _⟩
    · subst hs'
      exact ⟨hset.wake _ _, Shard.config_wake _ _ _⟩
  | sealBlock cmd =>
    obtain ⟨idx, hseal, rfl⟩ := applySealBlock_ok h
    have hgood : Shard.Good { s with idx := idx } :=
      hg.of_same (Index.applyCommittedSeal_txs hseal) (fun _ => rfl) fun _ hb => hb
    exact ⟨hgood.closeIfOpen _, Shard.config_closeIfOpen _ _⟩
  | confirmUpload cmd =>
    obtain ⟨t, hframe, hs'⟩ := applyConfirmUpload_ok h
    have hgood := hframe.good hg
    have hconfig : t.config = s.config := by
      rw [Shard.config, Shard.config, hframe.shardID, hframe.uploadEnabled]
    rcases hs' with rfl | rfl | ⟨p, rfl⟩
    · exact ⟨hgood, hconfig⟩
    · exact ⟨hgood.closeIfOpen _, (t.config_closeIfOpen _).trans hconfig⟩
    · exact ⟨(hgood.closeIfOpen _).withPending p, (t.config_closeIfOpen _).trans hconfig⟩

end Commands

/-! ## Whole runs -/

theorem LogEntry.apply_good (hg : s.Good) (h : (e.apply c).run s = .ok () s') : s'.Good :=
  (Scrap.apply_good hg h).1

theorem LogEntry.apply_config (hg : s.Good) (h : (e.apply c).run s = .ok () s') :
    s'.config = s.config :=
  (Scrap.apply_good hg h).2

theorem runAll_good {es : List LogEntry} (hg : s.Good)
    (h : (runAll (LogEntry.apply c) es).run s = .ok () s') : s'.Good :=
  runAll_invariant hg (fun _ _ _ _ ht hrun => LogEntry.apply_good ht hrun) h

theorem LogEntry.apply_slot (hg : s.Good) (h : (e.apply c).run s = .ok () s') (b : UInt64) :
    s'.slot b = if b = e.cmd.blockID then s.nextSlot c e.index e.cmd else s.slot b := by
  rw [Scrap.apply_slot hg h, Function.update_apply]

/-! ## With other activity in between -/

structure EntryStep where
  /-- what happens on the Member before the apply -/
  env : Shard → Shard
  entry : LogEntry

def EntryStep.run (c : Crypto) (st : EntryStep) : ShardM Unit := do
  modify st.env
  st.entry.apply c

def EntryStep.Quiet (s : Shard) (st : EntryStep) : Prop :=
  (st.env s).Good ∧ (st.env s).slot = s.slot

theorem EntryStep.good_after {st : EntryStep} (hg : (st.env s).Good)
    (h : outcome (st.run c) s = .ok ()) : (after (st.run c) s).Good :=
  LogEntry.apply_good hg (outcome_ok_iff.mp h)

def LogEntry.step (e : LogEntry) : EntryStep := ⟨id, e⟩

/-! ## Two runs of the same entries -/

/-- The command requeues its Block in `r` as in `s`: in both or in neither, with the same size. -/
def RaftCommand.RequeuesAlike (c : Crypto) (cmd : RaftCommand) (s r : Shard) : Prop :=
  r.requeues c cmd = s.requeues c cmd ∧ (s.requeues c cmd = true →
    r.sealedSizeForUploadRequeue cmd.blockID = s.sealedSizeForUploadRequeue cmd.blockID)

/-- An entry that two runs apply, each after what happened to it before. -/
structure TwinStep where
  entry : LogEntry
  env : Shard → Shard
  env' : Shard → Shard

def TwinStep.first (st : TwinStep) : EntryStep := ⟨st.env, st.entry⟩

def TwinStep.second (st : TwinStep) : EntryStep := ⟨st.env', st.entry⟩

/-- What happens between the applies leaves the upload tables and the settings alone. -/
structure TwinStep.Quiet (p : Shard × Shard) (st : TwinStep) : Prop where
  first : st.first.Quiet p.1
  second : st.second.Quiet p.2
  config : (st.env p.1).config = p.1.config
  config' : (st.env' p.2).config = p.2.config

theorem TwinStep.quiet_id {t : Shard} (hs : s.Good) (ht : t.Good) :
    (TwinStep.mk e id id).Quiet (s, t) :=
  ⟨⟨hs, rfl⟩, ⟨ht, rfl⟩, rfl, rfl⟩

def TwinStep.run (c : Crypto) (st : TwinStep) : EStateM ShardErr (Shard × Shard) Unit :=
  both (st.first.run c) (st.second.run c)

end Scrap
