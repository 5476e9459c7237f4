/-
# The upload tables after a replay

After a restart a Member applies the end of the log again, on the state that the whole log has left.
The replay may take other branches than the first pass.

While the entry is replayed that found `x` in the first pass, each record of the Block should be the
one of `x` or the one `f` of the end of the log (`Slot.Between`): then the replay ends with `f`.
`LogEntry.Repeats` is what an entry needs to keep that:

    SealBlock       if it was skipped in the first pass, it is skipped again
    ConfirmUpload   it finds the pending record it found (or none, and the confirmed record it
                    found), or it finds `f` and does nothing to it
    CommitDocument, RewrapDocumentEnvelope
                    it requeues the Block as it did, or it does not and the pending record is
                    the one of `f`

`replay_lowers_confirmed` is a log whose replay does not.
-/
import Scrap.Shard.Generations
import Scrap.Shard.Replay

namespace Scrap

open Block Fallible

/-! ## One slot -/

namespace Slot

/-- Each record of `y` is the one of `x` or the one of `f`. -/
def Between (x f y : Slot) : Prop :=
  (y.pending = x.pending ∨ y.pending = f.pending) ∧
    (y.confirmed = x.confirmed ∨ y.confirmed = f.confirmed)

/-- The confirm does nothing: its generation is not waited for, or its record is there. -/
def Settled (x : Slot) (c : ConfirmUpload) : Prop :=
  match x.pending with
  | some p => p.uploadGeneration ≠ c.uploadGeneration
  | none => ∀ q, x.confirmed = some q → q.uploadGeneration ≠ c.uploadGeneration ∨
      c.blockObject.sizeBytes ≠ q.sealedSizeBytes ∨
      q = confirmedUploadFromCommand c q.sealedSizeBytes

instance (x : Slot) (c : ConfirmUpload) : Decidable (x.Settled c) := by
  unfold Settled
  exact match x.pending, x.confirmed with
    | some p, _ => inferInstanceAs (Decidable (p.uploadGeneration ≠ c.uploadGeneration))
    | none, none => isTrue fun q hq => by cases hq
    | none, some q => decidable_of_iff (q.uploadGeneration ≠ c.uploadGeneration ∨
        c.blockObject.sizeBytes ≠ q.sealedSizeBytes ∨
        q = confirmedUploadFromCommand c q.sealedSizeBytes) (by simp)

/-- The confirm finds in `y` what it reads in `x`. -/
def Alike (x y : Slot) : Prop :=
  y.pending = x.pending ∧ (x.pending = none → y.confirmed = x.confirmed)

variable {x f y : Slot}

theorem Between.of_end (x f : Slot) : Between x f f := ⟨.inr rfl, .inr rfl⟩

theorem Between.eq_end (h : Between f f y) : y = f := by
  obtain ⟨hp | hp, hq | hq⟩ := h
  all_goals
    cases y
    simp_all

theorem Between.onSeal (h : Between x f y) (cmd : SealBlock) (hskip : x.Requeued → y.Requeued) :
    Between (x.onSeal cmd) f (y.onSeal cmd) := by
  refine ⟨?_, by simpa only [onSeal_confirmed] using h.2⟩
  rcases x.onSeal_pending cmd with ⟨hx, hxs⟩ | ⟨hx, hxs⟩
  · rcases y.onSeal_pending cmd with ⟨-, hys⟩ | ⟨hy, -⟩
    · rw [hxs, hys]
      exact h.1
    · exact absurd (hskip hx) hy
  · rcases y.onSeal_pending cmd with ⟨⟨p, hp, hpos⟩, hys⟩ | ⟨-, hys⟩
    · -- the record that makes the replayed seal a no-op is not the one of the first pass
      rw [hys]
      refine .inr (h.1.resolve_left fun hsame => hx ⟨p, hsame.symm.trans hp, hpos⟩)
    · exact .inl (hys.trans hxs.symm)

theorem onConfirm_of_settled {c : ConfirmUpload} (h : y.Settled c) : y.onConfirm c = y := by
  obtain ⟨pending, confirmed⟩ := y
  unfold onConfirm
  cases pending with
  | some p => exact if_pos h
  | none => ?_
  cases confirmed with
  | none => rfl
  | some q => ?_
  simp only
  split_ifs with hgen hsize
  · rfl
  · rfl
  rcases h q rfl with hne | hne | heq
  · exact absurd hne hgen
  · exact absurd hne hsize
  · rw [← heq]

theorem Between.onConfirm_of_alike (h : Between x f y) (hsame : x.Alike y) (c : ConfirmUpload) :
    Between (x.onConfirm c) f (y.onConfirm c) := by
  obtain ⟨pending, confirmed⟩ := y
  obtain ⟨rfl, hconfirmed⟩ := hsame
  unfold Slot.onConfirm
  cases hp : x.pending with
  | some p =>
    simp only
    split_ifs with hgen hsize
    · simpa [Between, hp] using h.2
    · exact ⟨.inl rfl, h.2⟩
    · exact ⟨.inl rfl, .inl rfl⟩
  | none =>
    obtain rfl := hconfirmed hp
    have heq : x = ⟨none, x.confirmed⟩ := by rw [← hp]
    rw [heq]
    exact ⟨.inl rfl, .inl rfl⟩

end Slot

/-! ## One entry -/

section Entry

variable {c : Crypto} {s f r : Shard} {e : LogEntry}

/-- The command requeues its Block in `r` as in `s`, or it does not and the pending record is `f`'s.
-/
def RaftCommand.RequeuesAgain (c : Crypto) (cmd : RaftCommand) (s f r : Shard) : Prop :=
  cmd.RequeuesAlike c s r ∨
    (r.requeues c cmd = false ∧ (r.slot cmd.blockID).pending = (f.slot cmd.blockID).pending)

/-- The entry found `s` in the first pass, the log has left `f`, and the replay finds `r`. -/
def LogEntry.Repeats (c : Crypto) (e : LogEntry) (s f r : Shard) : Prop :=
  match e.cmd with
  | .sealBlock cmd => (s.slot cmd.blockID).Requeued → (r.slot cmd.blockID).Requeued
  | .confirmUpload cmd => (s.slot cmd.blockID).Alike (r.slot cmd.blockID) ∨
      r.slot cmd.blockID = f.slot cmd.blockID ∧ (r.slot cmd.blockID).Settled cmd
  | cmd => cmd.RequeuesAgain c s f r

theorem Shard.requeueSlot_between {x : Slot} {b : UInt64} (hconfig : r.config = s.config)
    (hsize : r.sealedSizeForUploadRequeue b = s.sealedSizeForUploadRequeue b)
    (h : Slot.Between (s.slot b) x (r.slot b)) (gen : Int) :
    Slot.Between (s.requeueSlot b gen) x (r.requeueSlot b gen) := by
  obtain ⟨hid, hup⟩ := Prod.mk.inj hconfig
  unfold Shard.requeueSlot
  rw [hid, hup, hsize]
  split
  · cases s.sealedSizeForUploadRequeue b with
    | error err => exact h
    | ok size => exact ⟨.inl rfl, h.2⟩
  · exact h

theorem Shard.requeueSlot_confirmed (s : Shard) (b : UInt64) (gen : Int) :
    (s.requeueSlot b gen).confirmed = (s.slot b).confirmed := by
  rcases s.requeueSlot_cases b gen with heq | ⟨size, heq⟩
  · rw [heq]
  · rw [heq]

theorem RaftCommand.RequeuesAgain.between {cmd : RaftCommand} (h : cmd.RequeuesAgain c s f r)
    (hconfig : r.config = s.config)
    (hb : Slot.Between (s.slot cmd.blockID) (f.slot cmd.blockID) (r.slot cmd.blockID)) (gen : Int) :
    Slot.Between (if s.requeues c cmd then s.requeueSlot cmd.blockID gen else s.slot cmd.blockID)
      (f.slot cmd.blockID)
      (if r.requeues c cmd then r.requeueSlot cmd.blockID gen else r.slot cmd.blockID) := by
  rcases h with ⟨hsame, hsize⟩ | ⟨hnot, hpending⟩
  · rw [hsame]
    split
    · next hreq => exact Shard.requeueSlot_between hconfig (hsize hreq) hb gen
    · exact hb
  · rw [if_neg (by simp [hnot] : ¬ r.requeues c cmd = true)]
    refine ⟨.inr hpending, ?_⟩
    split
    · rw [Shard.requeueSlot_confirmed]
      exact hb.2
    · exact hb.2

theorem LogEntry.Repeats.nextSlot (h : e.Repeats c s f r) (hconfig : r.config = s.config)
    (hb : Slot.Between (s.slot e.cmd.blockID) (f.slot e.cmd.blockID) (r.slot e.cmd.blockID)) :
    Slot.Between (s.nextSlot c e.index e.cmd) (f.slot e.cmd.blockID)
      (r.nextSlot c e.index e.cmd) := by
  obtain ⟨i, cmd⟩ := e
  cases cmd with
  | sealBlock cmd => exact hb.onSeal cmd h
  | confirmUpload cmd =>
    rcases h with halike | ⟨hend, hsettled⟩
    · exact hb.onConfirm_of_alike halike cmd
    · show Slot.Between _ _ ((r.slot cmd.blockID).onConfirm cmd)
      rw [Slot.onConfirm_of_settled hsettled, hend]
      exact .of_end _ _
  | commitDoc doc => exact RaftCommand.RequeuesAgain.between h hconfig hb _
  | rewrapDoc cmd => exact RaftCommand.RequeuesAgain.between h hconfig hb _

structure Replaying (f : Shard) (p : Shard × Shard) : Prop where
  config : p.2.config = p.1.config
  between : ∀ b, Slot.Between (p.1.slot b) (f.slot b) (p.2.slot b)

theorem Replaying.step {p q : Shard × Shard} {st : TwinStep} (h : Replaying f p)
    (hquiet : st.Quiet p) (hrep : st.entry.Repeats c (st.env p.1) f (st.env' p.2))
    (hrun : (st.run c).run p = .ok () q) : Replaying f q := by
  have hrun₁ : (st.entry.apply c).run (st.env p.1) = .ok () q.1 := (both_ok.mp hrun).1
  have hrun₂ : (st.entry.apply c).run (st.env' p.2) = .ok () q.2 := (both_ok.mp hrun).2
  have hg : (st.env p.1).Good := hquiet.first.1
  have hg' : (st.env' p.2).Good := hquiet.second.1
  have hconfig : (st.env' p.2).config = (st.env p.1).config :=
    hquiet.config'.trans (h.config.trans hquiet.config.symm)
  have hbetween : ∀ b, Slot.Between ((st.env p.1).slot b) (f.slot b) ((st.env' p.2).slot b) := by
    intro b
    have hslot : (st.env p.1).slot = p.1.slot := hquiet.first.2
    have hslot' : (st.env' p.2).slot = p.2.slot := hquiet.second.2
    rw [hslot, hslot']
    exact h.between b
  refine ⟨?_, fun b => ?_⟩
  · rw [LogEntry.apply_config hg hrun₁, LogEntry.apply_config hg' hrun₂, hconfig]
  rw [LogEntry.apply_slot hg hrun₁ b, LogEntry.apply_slot hg' hrun₂ b]
  split
  · next hb =>
      subst hb
      exact hrep.nextSlot hconfig (hbetween _)
  · exact hbetween b

end Entry

/-! ## Whole replays -/

/-- Every replayed entry repeats what it did in the first pass, or has nothing to do. -/
def ReplayRepeats (c : Crypto) (s f : Shard) (steps : List TwinStep) : Prop :=
  Meets (TwinStep.run c)
    (fun p st => st.Quiet p ∧ st.entry.Repeats c (st.env p.1) f (st.env' p.2)) (s, f) steps

/-- The entries lead from `s` to `f` and, applied again, to `r`: the upload tables are as after the
first pass. -/
theorem replay_keeps_uploads (c : Crypto) {s f r : Shard} {steps : List TwinStep}
    (hrun : (runAll (fun st => st.first.run c) steps).run s = .ok () f)
    (hagain : (runAll (fun st => st.second.run c) steps).run f = .ok () r)
    (hrep : ReplayRepeats c s f steps) :
    r.idx.pendingUploads = f.idx.pendingUploads ∧
      r.idx.confirmedUploads = f.idx.confirmedUploads := by
  have hboth : (runAll (TwinStep.run c) steps).run (s, f) = .ok () (f, r) :=
    runAll_both_ok.mpr ⟨hrun, hagain⟩
  have hconfig : f.config = s.config := by
    refine Meets.invariant (P := fun p => p.1.config = s.config) ?_ rfl hrep hboth
    intro st p q hp hcond hstep
    exact (LogEntry.apply_config hcond.1.first.1 (both_ok.mp hstep).1).trans
      (hcond.1.config.trans hp)
  have hend : Replaying f (f, r) := by
    refine Meets.invariant ?_ ⟨hconfig, fun b => .of_end _ _⟩ hrep hboth
    exact fun st p q hp hcond hstep => hp.step hcond.1 hcond.2 hstep
  have hslot : ∀ b, r.slot b = f.slot b := fun b => (hend.between b).eq_end
  exact ⟨funext fun b => congrArg Slot.pending (hslot b),
    funext fun b => congrArg Slot.confirmed (hslot b)⟩

/-! ## A replay that takes other branches -/

/-- The Member starts again on Blocks `1` and `2`. -/
def restartTwo (s : Shard) : Shard := after (openShard [1, 2]) s

theorem restartTwo_quiet {s : Shard} (hg : s.Good) (hpreps : s.openlog = []) :
    (restartTwo s).Good ∧ (restartTwo s).slot = s.slot ∧ (restartTwo s).config = s.config := by
  rw [restartTwo, after_openShard hpreps]
  exact ⟨(hg.reloaded _).openNewBlock, rfl, rfl⟩

/-- The entries of `requeuedLog`; the Member is restarted between the passes. -/
def requeuedTwice : List TwinStep :=
  [⟨⟨1, .commitDoc (docOfT "x" 1 40)⟩, receiveTwo, restartTwo⟩,
    ⟨⟨2, .sealBlock ⟨1, 1, 120, 1⟩⟩, id, id⟩,
    ⟨⟨3, confirmOne 0⟩, id, id⟩,
    ⟨⟨4, .commitDoc (docOfT "y" 1 80)⟩, id, id⟩,
    ⟨⟨5, confirmOne 4⟩, id, id⟩]

/-- The replayed seal puts generation zero back, the confirm of generation zero takes it, and
neither the second Document nor the confirm of its generation undoes that. -/
theorem replay_lowers_confirmed : ∃ f r,
    (runAll (fun st => st.first.run keylessCrypto) requeuedTwice).run (Shard.fresh 1 true) =
      .ok () f ∧
    (runAll (fun st => st.second.run keylessCrypto) requeuedTwice).run f = .ok () r ∧
    (f.idx.confirmedUploads 1).map (·.uploadGeneration) = some 4 ∧
    (r.idx.confirmedUploads 1).map (·.uploadGeneration) = some 0 :=
  ⟨_, _, outcome_ok_iff.mp (by decide +kernel), outcome_ok_iff.mp (by decide +kernel),
    by decide +kernel⟩

/-! A replay from behind the seal, before the second confirm. -/

def sealedOne : Shard :=
  after (runAll (LogEntry.apply keylessCrypto) [⟨1, .commitDoc (docOfT "x" 1 40)⟩,
    ⟨2, .sealBlock ⟨1, 1, 120, 1⟩⟩]) (receiveTwo (Shard.fresh 1 true))

theorem sealedOne_good : sealedOne.Good :=
  runAll_good receiveTwo_good (outcome_ok_iff.mp (by decide +kernel))

def confirmTwice : TwinStep := ⟨⟨3, confirmOne 0⟩, id, restartTwo⟩

def commitTwice : TwinStep := ⟨⟨4, .commitDoc (docOfT "y" 1 80)⟩, id, id⟩

def confirmedOne : Shard := after (confirmTwice.first.run keylessCrypto) sealedOne

def requeuedOne : Shard := after (commitTwice.first.run keylessCrypto) confirmedOne

def replayedOne : Shard := after (confirmTwice.second.run keylessCrypto) requeuedOne

theorem requeuedOne_repeats :
    ReplayRepeats keylessCrypto sealedOne requeuedOne [confirmTwice, commitTwice] := by
  have hg₁ : confirmedOne.Good := EntryStep.good_after sealedOne_good (by decide +kernel)
  have hg₂ : requeuedOne.Good := EntryStep.good_after hg₁ (by decide +kernel)
  obtain ⟨hrestart, hslot, hconfig⟩ := restartTwo_quiet hg₂ (by decide +kernel)
  have hg₃ : replayedOne.Good := EntryStep.good_after hrestart (by decide +kernel)
  have hconfirm : confirmTwice.Quiet (sealedOne, requeuedOne) :=
    ⟨⟨sealedOne_good, rfl⟩, ⟨hrestart, hslot⟩, rfl, hconfig⟩
  have hcommit : commitTwice.Quiet (confirmedOne, replayedOne) := TwinStep.quiet_id hg₁ hg₃
  refine Meets.both_cons (by decide +kernel) (by decide +kernel) ⟨hconfirm, ?_⟩
    (Meets.both_cons (by decide +kernel) (by decide +kernel) ⟨hcommit, ?_⟩ trivial)
  · -- the confirm is stale by now
    exact .inr ⟨by decide +kernel, by decide +kernel⟩
  · -- the Document is counted, and the pending record is the one it asked for
    exact .inr ⟨by decide +kernel, by decide +kernel⟩

theorem replay_keeps_uploads_requeued : ∃ r,
    ReplayRepeats keylessCrypto sealedOne requeuedOne [confirmTwice, commitTwice] ∧
    (runAll (fun st => st.second.run keylessCrypto) [confirmTwice, commitTwice]).run requeuedOne =
      .ok () r ∧
    r.idx.pendingUploads = requeuedOne.idx.pendingUploads ∧
    r.idx.confirmedUploads = requeuedOne.idx.confirmedUploads := by
  have hrun : (runAll (fun st => st.first.run keylessCrypto) [confirmTwice, commitTwice]).run
      sealedOne = .ok () requeuedOne :=
    runAll_cons_ok.mpr ⟨confirmedOne, outcome_ok_iff.mp (by decide +kernel),
      runAll_cons_ok.mpr ⟨requeuedOne, outcome_ok_iff.mp (by decide +kernel), rfl⟩⟩
  have hagain := outcome_ok_iff.mp (show outcome (runAll (fun st => st.second.run keylessCrypto)
    [confirmTwice, commitTwice]) requeuedOne = .ok () by decide +kernel)
  exact ⟨_, requeuedOne_repeats, hagain,
    replay_keeps_uploads keylessCrypto hrun hagain requeuedOne_repeats⟩

end Scrap
