/-
# The upload tables of two Members

Two Members apply the same entries, each with its own history in between: streams, replica repairs,
evictions, restarts. A SealBlock and a ConfirmUpload write what the command says. A requeue does
not: its record has the size of the Member's own `.blk`, and a replica repair requeues outside the
log, under the Member's own clock.
-/
import Scrap.Shard.ReplayUploads

namespace Scrap

open Block Fallible

section Entry

variable {c : Crypto} {s r : Shard}

theorem Shard.nextSlot_congr {cmd : RaftCommand} {i : UInt64} (hconfig : r.config = s.config)
    (hslot : r.slot cmd.blockID = s.slot cmd.blockID) (halike : cmd.RequeuesAlike c s r) :
    r.nextSlot c i cmd = s.nextSlot c i cmd := by
  obtain ⟨hid, hup⟩ := Prod.mk.inj hconfig
  have hrequeue : ∀ cmd : RaftCommand, r.slot cmd.blockID = s.slot cmd.blockID →
      cmd.RequeuesAlike c s r → ∀ gen,
      (if r.requeues c cmd then r.requeueSlot cmd.blockID gen else r.slot cmd.blockID) =
        if s.requeues c cmd then s.requeueSlot cmd.blockID gen else s.slot cmd.blockID := by
    rintro cmd hslot ⟨hsame, hsize⟩ gen
    rw [hsame, hslot]
    split
    · next hreq =>
        unfold Shard.requeueSlot
        rw [hid, hup, hsize hreq, hslot]
    · rfl
  cases cmd with
  | sealBlock cmd => exact congrArg (Slot.onSeal · cmd) hslot
  | confirmUpload cmd => exact congrArg (Slot.onConfirm · cmd) hslot
  | commitDoc doc => exact hrequeue (.commitDoc doc) hslot halike _
  | rewrapDoc cmd => exact hrequeue (.rewrapDoc cmd) hslot halike _

/-- The two Members have the same settings and the same upload records. -/
def SameUploads (p : Shard × Shard) : Prop := p.2.config = p.1.config ∧ p.2.slot = p.1.slot

theorem SameUploads.step {p q : Shard × Shard} {st : TwinStep} (h : SameUploads p)
    (hquiet : st.Quiet p) (halike : st.entry.cmd.RequeuesAlike c (st.env p.1) (st.env' p.2))
    (hrun : (st.run c).run p = .ok () q) : SameUploads q := by
  have hrun₁ : (st.entry.apply c).run (st.env p.1) = .ok () q.1 := (both_ok.mp hrun).1
  have hrun₂ : (st.entry.apply c).run (st.env' p.2) = .ok () q.2 := (both_ok.mp hrun).2
  have hg : (st.env p.1).Good := hquiet.first.1
  have hg' : (st.env' p.2).Good := hquiet.second.1
  have hconfig : (st.env' p.2).config = (st.env p.1).config :=
    hquiet.config'.trans (h.1.trans hquiet.config.symm)
  have hslot : (st.env' p.2).slot = (st.env p.1).slot :=
    hquiet.second.2.trans (h.2.trans hquiet.first.2.symm)
  refine ⟨?_, funext fun b => ?_⟩
  · rw [LogEntry.apply_config hg hrun₁, LogEntry.apply_config hg' hrun₂, hconfig]
  · rw [LogEntry.apply_slot hg hrun₁ b, LogEntry.apply_slot hg' hrun₂ b, hslot,
      Shard.nextSlot_congr hconfig (congrFun hslot _) halike]

end Entry

/-! ## Whole runs -/

/-- Two Members that started with the same upload records and applied the same entries have the same
ones, if in between no local event wrote one and every entry requeued on both alike. -/
theorem members_agree (c : Crypto) {s s' t t' : Shard} {steps : List TwinStep}
    (hconfig : s'.config = s.config) (hslot : s'.slot = s.slot)
    (hrun : (runAll (fun st => st.first.run c) steps).run s = .ok () t)
    (hrun' : (runAll (fun st => st.second.run c) steps).run s' = .ok () t')
    (halike : Meets (TwinStep.run c)
      (fun p st => st.Quiet p ∧ st.entry.cmd.RequeuesAlike c (st.env p.1) (st.env' p.2))
      (s, s') steps) (b : UInt64) :
    t'.idx.pendingUploads b = t.idx.pendingUploads b ∧
      t'.idx.confirmedUploads b = t.idx.confirmedUploads b := by
  have hboth : (runAll (TwinStep.run c) steps).run (s, s') = .ok () (t, t') :=
    runAll_both_ok.mpr ⟨hrun, hrun'⟩
  have hend : SameUploads (t, t') :=
    Meets.invariant
      (fun _ _ _ h hcond hstep => h.step hcond.1 hcond.2 hstep) ⟨hconfig, hslot⟩ halike hboth
  have hb : t'.slot b = t.slot b := congrFun hend.2 b
  exact ⟨congrArg Slot.pending hb, congrArg Slot.confirmed hb⟩

/-! ## A Member whose bytes lag -/

/-- The Frames of the first of the two Documents are appended to Block `1`. -/
def receiveOne (s : Shard) : Shard :=
  let docs : List Payloads := [eightBytes]
  { s with
    blocks := Function.update s.blocks 1 { s.blocks 1 with blk := some (blkOf docs) }
    blockWriter := some (writerAt 1 docs) }

/-- The entries of `requeuedLog` on a Member with both Documents' Frames, and on one that missed the
second's stream. -/
def requeuedApart : List TwinStep :=
  [⟨⟨1, .commitDoc (docOfT "x" 1 40)⟩, receiveTwo, receiveOne⟩,
    ⟨⟨2, .sealBlock ⟨1, 1, 120, 1⟩⟩, id, id⟩,
    ⟨⟨3, confirmOne 0⟩, id, id⟩,
    ⟨⟨4, .commitDoc (docOfT "y" 1 80)⟩, id, id⟩]

/-- The pending records differ in size; the confirm of the first Member's upload is refused on the
second. -/
theorem short_block_diverges : ∃ t t' u u',
    (runAll (fun st => st.first.run keylessCrypto) requeuedApart).run (Shard.fresh 1 true) =
      .ok () t ∧
    (runAll (fun st => st.second.run keylessCrypto) requeuedApart).run (Shard.fresh 1 true) =
      .ok () t' ∧
    (t.idx.pendingUploads 1).map (·.sealedSizeBytes) = some 120 ∧
    (t'.idx.pendingUploads 1).map (·.sealedSizeBytes) = some 80 ∧
    (LogEntry.apply keylessCrypto ⟨5, confirmOne 4⟩).run t = .ok () u ∧
    (LogEntry.apply keylessCrypto ⟨5, confirmOne 4⟩).run t' = .ok () u' ∧
    (u.idx.confirmedUploads 1).map (·.uploadGeneration) = some 4 ∧
    (u'.idx.confirmedUploads 1).map (·.uploadGeneration) = some 0 :=
  ⟨_, _, _, _, outcome_ok_iff.mp (by decide +kernel), outcome_ok_iff.mp (by decide +kernel),
    by decide +kernel, by decide +kernel, outcome_ok_iff.mp (by decide +kernel),
    outcome_ok_iff.mp (by decide +kernel), by decide +kernel⟩

/-! Two Members with all bytes, one of which is restarted before the confirm. -/

theorem restarted_alike :
    Meets (TwinStep.run keylessCrypto)
      (fun p st => st.Quiet p ∧ st.entry.cmd.RequeuesAlike keylessCrypto (st.env p.1) (st.env' p.2))
      (sealedOne, sealedOne) [confirmTwice, commitTwice] := by
  obtain ⟨hrestart, hslot, hconfig⟩ := restartTwo_quiet sealedOne_good (by decide +kernel)
  have hg₁ : confirmedOne.Good := EntryStep.good_after sealedOne_good (by decide +kernel)
  have hg₂ : (after (confirmTwice.second.run keylessCrypto) sealedOne).Good :=
    EntryStep.good_after hrestart (by decide +kernel)
  have hconfirm : confirmTwice.Quiet (sealedOne, sealedOne) :=
    ⟨⟨sealedOne_good, rfl⟩, ⟨hrestart, hslot⟩, rfl, hconfig⟩
  refine Meets.both_cons (by decide +kernel) (by decide +kernel) ⟨hconfirm, ?_⟩
    (Meets.both_cons (by decide +kernel) (by decide +kernel)
      ⟨TwinStep.quiet_id hg₁ hg₂, ?_⟩ trivial)
  · exact ⟨by decide +kernel, fun h => absurd h (by decide +kernel)⟩
  · exact ⟨by decide +kernel, fun _ => by decide +kernel⟩

theorem members_agree_restarted : ∃ t t',
    (runAll (fun st => st.first.run keylessCrypto) [confirmTwice, commitTwice]).run sealedOne =
      .ok () t ∧
    (runAll (fun st => st.second.run keylessCrypto) [confirmTwice, commitTwice]).run sealedOne =
      .ok () t' ∧
    (t.idx.pendingUploads 1).map (·.uploadGeneration) = some 4 ∧
    t'.idx.pendingUploads 1 = t.idx.pendingUploads 1 ∧
    t'.idx.confirmedUploads 1 = t.idx.confirmedUploads 1 := by
  have hrun := outcome_ok_iff.mp (show outcome (runAll (fun st => st.first.run keylessCrypto)
    [confirmTwice, commitTwice]) sealedOne = .ok () by decide +kernel)
  have hrun' := outcome_ok_iff.mp (show outcome (runAll (fun st => st.second.run keylessCrypto)
    [confirmTwice, commitTwice]) sealedOne = .ok () by decide +kernel)
  exact ⟨_, _, hrun, hrun', by decide +kernel,
    members_agree keylessCrypto rfl rfl hrun hrun' restarted_alike 1⟩

end Scrap
