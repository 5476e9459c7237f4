/-
# Upload generations over a log

A requeue gives a pending record the index of its entry as generation, a seal gives it generation
zero, and a confirm copies the generation to the confirmed record. So the confirmed generation of a
Block could only fall through a pending record that is older than the confirmed one
(`Slot.Ordered`). A confirm keeps that from happening by itself, a requeue when its entry is newer
than all before it.

A SealBlock does not: `applyCommittedSeal` leaves a pending record of a positive generation alone,
but does not look at the confirmed one (`duplicate_seal_lowers_generation`).
-/
import Scrap.Shard.EntryRun

namespace Scrap

open Block Fallible

/-! ## One slot -/

variable {c : Crypto} {g : Int} {s : Shard}

namespace Slot

/-- No pending record is older than the confirmed one. -/
def Ordered (x : Slot) : Prop :=
  ∀ p q, x.pending = some p → x.confirmed = some q → q.uploadGeneration ≤ p.uploadGeneration

/-- The confirmed record of `x` is still there in `y`, or one of a later generation. -/
def Grows (x y : Slot) : Prop :=
  ∀ q, x.confirmed = some q → ∃ q', y.confirmed = some q' ∧ q.uploadGeneration ≤ q'.uploadGeneration

def Has (x : Slot) (g : Int) : Prop :=
  (∃ p, x.pending = some p ∧ p.uploadGeneration = g) ∨
    ∃ q, x.confirmed = some q ∧ q.uploadGeneration = g

variable {x y z : Slot}

theorem Grows.refl (x : Slot) : x.Grows x := fun q hq => ⟨q, hq, Int.le_refl _⟩

theorem Grows.trans (h : x.Grows y) (h' : y.Grows z) : x.Grows z := by
  intro q hq
  obtain ⟨q', hq', hle⟩ := h q hq
  obtain ⟨q'', hq'', hle'⟩ := h' q' hq'
  exact ⟨q'', hq'', Int.le_trans hle hle'⟩

theorem Grows.of_eq (h : y.confirmed = x.confirmed) : x.Grows y :=
  fun q hq => ⟨q, h.trans hq, Int.le_refl _⟩

/-- A seal here does not put generation zero behind a confirmed requeue. -/
def SealsInTime (x : Slot) : Prop :=
  ∀ q, x.confirmed = some q → 0 < q.uploadGeneration → x.Requeued

theorem onSeal_confirmed (x : Slot) (cmd : SealBlock) : (x.onSeal cmd).confirmed = x.confirmed := by
  unfold onSeal
  cases x.pending with
  | none => rfl
  | some p =>
    simp only
    split <;> rfl

theorem onSeal_pending (x : Slot) (cmd : SealBlock) :
    (x.Requeued ∧ x.onSeal cmd = x) ∨
      (¬ x.Requeued ∧ (x.onSeal cmd).pending = some cmd.pendingUpload) := by
  unfold onSeal Requeued
  cases hp : x.pending with
  | none => simp
  | some p => ?_
  by_cases hgen : 0 < p.uploadGeneration
  · exact .inl ⟨⟨p, rfl, hgen⟩, by simp [hgen]⟩
  · exact .inr ⟨by simpa using hgen, by simp [hgen]⟩

theorem Ordered.onSeal (h : x.Ordered) (cmd : SealBlock) (hseal : x.SealsInTime) :
    (x.onSeal cmd).Ordered := by
  rcases x.onSeal_pending cmd with ⟨-, hsame⟩ | ⟨hnot, hpending⟩
  · rwa [hsame]
  intro p q hp hq
  cases hpending.symm.trans hp
  rw [onSeal_confirmed] at hq
  have hold : ¬ 0 < q.uploadGeneration := fun hpos => hnot (hseal q hq hpos)
  simpa [SealBlock.pendingUpload] using hold

theorem onConfirm_cases (x : Slot) (c : ConfirmUpload) :
    x.onConfirm c = x ∨ x.onConfirm c = ⟨none, x.confirmed⟩ ∨
      ∃ n, x.onConfirm c = ⟨none, some (confirmedUploadFromCommand c n)⟩ ∧
        ((∃ p, x.pending = some p ∧ p.uploadGeneration = c.uploadGeneration) ∨
          x.pending = none ∧ ∃ q, x.confirmed = some q ∧ q.uploadGeneration = c.uploadGeneration) := by
  unfold onConfirm
  cases hp : x.pending with
  | some p =>
    simp only
    split_ifs with hgen hsize
    · exact .inl rfl
    · exact .inr (.inl rfl)
    · exact .inr (.inr ⟨_, rfl, .inl ⟨p, rfl, not_not.mp hgen⟩⟩)
  | none =>
    cases hq : x.confirmed with
    | none => exact .inl rfl
    | some q => ?_
    simp only
    split_ifs with hgen hsize
    · exact .inl rfl
    · exact .inl rfl
    · exact .inr (.inr ⟨_, rfl, .inr ⟨trivial, q, rfl, not_not.mp hgen⟩⟩)

theorem Ordered.onConfirm (h : x.Ordered) (c : ConfirmUpload) : (x.onConfirm c).Ordered := by
  rcases x.onConfirm_cases c with hsame | hclear | ⟨n, hnew, -⟩
  · rwa [hsame]
  · rw [hclear]
    exact fun p q hp => by cases hp
  · rw [hnew]
    exact fun p q hp => by cases hp

theorem Ordered.onConfirm_grows (h : x.Ordered) (c : ConfirmUpload) : x.Grows (x.onConfirm c) := by
  rcases x.onConfirm_cases c with hsame | hclear | ⟨n, hnew, hgen⟩
  · rw [hsame]
    exact .refl x
  · rw [hclear]
    exact .of_eq rfl
  intro q hq
  refine ⟨_, congrArg Slot.confirmed hnew, ?_⟩
  show q.uploadGeneration ≤ c.uploadGeneration
  rcases hgen with ⟨p, hp, hgen⟩ | ⟨-, q', hq', hgen⟩
  · exact hgen ▸ h p q hp hq
  · cases hq'.symm.trans hq
    exact hgen ▸ Int.le_refl _

theorem has_onSeal {cmd : SealBlock} (h : (x.onSeal cmd).Has g) : x.Has g ∨ g = 0 := by
  rcases x.onSeal_pending cmd with ⟨-, hsame⟩ | ⟨-, hpending⟩
  · exact .inl (hsame ▸ h)
  rcases h with ⟨p, hp, rfl⟩ | ⟨q, hq, rfl⟩
  · cases hpending.symm.trans hp
    exact .inr rfl
  · rw [onSeal_confirmed] at hq
    exact .inl (.inr ⟨q, hq, rfl⟩)

theorem has_onConfirm {c : ConfirmUpload} (h : (x.onConfirm c).Has g) : x.Has g := by
  rcases x.onConfirm_cases c with hsame | hclear | ⟨n, hnew, hgen⟩
  · exact hsame ▸ h
  · rw [hclear] at h
    rcases h with ⟨p, hp, -⟩ | hq
    · cases hp
    · exact .inr hq
  · rw [hnew] at h
    rcases h with ⟨p, hp, -⟩ | ⟨q, hq, rfl⟩
    · cases hp
    cases hq
    rcases hgen with ⟨p, hp, hgen⟩ | ⟨-, q', hq', hgen⟩
    · exact .inl ⟨p, hp, hgen⟩
    · exact .inr ⟨q', hq', hgen⟩

end Slot

/-! ## One entry -/

theorem Shard.requeueSlot_cases (s : Shard) (b : UInt64) (gen : Int) :
    s.requeueSlot b gen = s.slot b ∨
      ∃ size, s.requeueSlot b gen = ⟨some ⟨b, s.shardID, size, gen, gen⟩, (s.slot b).confirmed⟩ := by
  unfold Shard.requeueSlot
  split
  · cases s.sealedSizeForUploadRequeue b with
    | error err => exact .inl rfl
    | ok size => exact .inr ⟨size, rfl⟩
  · exact .inl rfl

theorem Shard.nextSlot_cases (c : Crypto) (s : Shard) (i : UInt64) (cmd : RaftCommand) :
    (∃ sealCmd, cmd = .sealBlock sealCmd ∧
      s.nextSlot c i cmd = (s.slot cmd.blockID).onSeal sealCmd) ∨
    (∃ confirm, cmd = .confirmUpload confirm ∧
      s.nextSlot c i cmd = (s.slot cmd.blockID).onConfirm confirm) ∨
    s.nextSlot c i cmd = s.slot cmd.blockID ∨
    ∃ size, s.requeues c cmd = true ∧ s.nextSlot c i cmd =
      ⟨some ⟨cmd.blockID, s.shardID, size, cmd.generation i, cmd.generation i⟩,
        (s.slot cmd.blockID).confirmed⟩ := by
  have hrequeue : ∀ cmd : RaftCommand, s.nextSlot c i cmd =
      (if s.requeues c cmd then s.requeueSlot cmd.blockID (cmd.generation i)
        else s.slot cmd.blockID) →
      s.nextSlot c i cmd = s.slot cmd.blockID ∨
      ∃ size, s.requeues c cmd = true ∧ s.nextSlot c i cmd =
        ⟨some ⟨cmd.blockID, s.shardID, size, cmd.generation i, cmd.generation i⟩,
          (s.slot cmd.blockID).confirmed⟩ := by
    intro cmd heq
    by_cases hreq : s.requeues c cmd = true
    · rw [if_pos hreq] at heq
      rcases s.requeueSlot_cases cmd.blockID (cmd.generation i) with hsame | ⟨size, hsize⟩
      · exact .inl (heq.trans hsame)
      · exact .inr ⟨size, hreq, heq.trans hsize⟩
    · rw [if_neg hreq] at heq
      exact .inl heq
  cases cmd with
  | sealBlock cmd => exact .inl ⟨cmd, rfl, rfl⟩
  | confirmUpload cmd => exact .inr (.inl ⟨cmd, rfl, rfl⟩)
  | commitDoc doc => exact .inr (.inr (hrequeue _ rfl))
  | rewrapDoc cmd => exact .inr (.inr (hrequeue _ rfl))

/-- The entry comes after the others in the log: its index is the highest. -/
def LogEntry.Newest (e : LogEntry) (before : List LogEntry) : Prop :=
  0 < e.index.toNat ∧ e.index.toNat ≤ maxInt64 ∧
    ∀ e' ∈ before, 0 < e'.index.toNat ∧ e'.index.toNat < e.index.toNat

instance (e : LogEntry) (before : List LogEntry) : Decidable (e.Newest before) :=
  inferInstanceAs (Decidable (_ ∧ _))

/-- The entry makes no pending record older than the confirmed one: a seal does not come after the
confirm of a requeue, and an entry that requeues is the newest, or its generation is not below the
confirmed one. -/
def LogEntry.InTime (c : Crypto) (before : List LogEntry) (s : Shard) (e : LogEntry) : Prop :=
  match e.cmd with
  | .sealBlock cmd => (s.slot cmd.blockID).SealsInTime
  | .confirmUpload _ => True
  | cmd => s.requeues c cmd = true → e.Newest before ∨
      ∀ q, (s.slot cmd.blockID).confirmed = some q → q.uploadGeneration ≤ e.generation

theorem LogEntry.InTime.requeue {before : List LogEntry} {e : LogEntry} (h : e.InTime c before s)
    (hreq : s.requeues c e.cmd = true) :
    e.Newest before ∨
      ∀ q, (s.slot e.cmd.blockID).confirmed = some q → q.uploadGeneration ≤ e.generation := by
  obtain ⟨i, cmd⟩ := e
  cases cmd with
  | commitDoc doc => exact h hreq
  | rewrapDoc cmd => exact h hreq
  | sealBlock cmd => cases hreq
  | confirmUpload cmd => cases hreq

theorem LogEntry.generation_of_index {e : LogEntry} (hreq : s.requeues c e.cmd = true)
    (hpos : 0 < e.index.toNat) (hmax : e.index.toNat ≤ maxInt64) :
    e.generation = e.index.toNat := by
  obtain ⟨i, cmd⟩ := e
  have hgen : ∀ fallback, uploadGenerationFromApplyIndex i fallback = i.toNat :=
    fun fallback => if_pos ⟨hpos, hmax⟩
  cases cmd with
  | commitDoc doc => exact hgen _
  | rewrapDoc cmd => exact hgen _
  | sealBlock cmd => cases hreq
  | confirmUpload cmd => cases hreq

/-- What the entries `l` make of the upload tables: no pending record is older than the confirmed
one, and every generation is zero or the index of an entry. -/
structure Shard.Generations (l : List LogEntry) (s : Shard) : Prop where
  good : s.Good
  ordered : ∀ b, (s.slot b).Ordered
  ofEntry : ∀ b g, (s.slot b).Has g → g = 0 ∨
    ∃ e ∈ l, 0 < e.index.toNat → e.index.toNat ≤ maxInt64 → g = e.index.toNat

theorem Shard.Generations.quiet {l : List LogEntry} {st : EntryStep} (h : s.Generations l)
    (hq : st.Quiet s) : (st.env s).Generations l :=
  ⟨hq.1, hq.2 ▸ h.ordered, hq.2 ▸ h.ofEntry⟩

section Step

variable {c : Crypto} {l : List LogEntry} {s s' : Shard} {e : LogEntry}

/-- The generation of an entry that is newer than the others is above all there are. -/
theorem Shard.Generations.le_newest (h : s.Generations l) (hnew : e.Newest l)
    (hreq : s.requeues c e.cmd = true) {b : UInt64} (hg : (s.slot b).Has g) :
    g ≤ e.generation := by
  obtain ⟨hpos, hmax, hbefore⟩ := hnew
  rw [LogEntry.generation_of_index hreq hpos hmax]
  rcases h.ofEntry b g hg with rfl | ⟨e', hmem, hindex⟩
  · omega
  · obtain ⟨hpos', hlt⟩ := hbefore e' hmem
    omega

theorem Shard.Generations.nextSlot (hs : s.Generations l) (hin : e.InTime c l s) :
    (s.nextSlot c e.index e.cmd).Ordered ∧
      (s.slot e.cmd.blockID).Grows (s.nextSlot c e.index e.cmd) ∧
      ∀ g, (s.nextSlot c e.index e.cmd).Has g → (s.slot e.cmd.blockID).Has g ∨ g = 0 ∨
        (0 < e.index.toNat → e.index.toNat ≤ maxInt64 → g = e.index.toNat) := by
  have hord := hs.ordered e.cmd.blockID
  rcases s.nextSlot_cases c e.index e.cmd with
    ⟨cmd, hcmd, hnext⟩ | ⟨cmd, hcmd, hnext⟩ | hnext | ⟨size, hreq, hnext⟩
  · have hseal : (s.slot e.cmd.blockID).SealsInTime := by
      simpa [LogEntry.InTime, hcmd, RaftCommand.blockID] using hin
    rw [hnext]
    exact ⟨hord.onSeal cmd hseal, .of_eq (Slot.onSeal_confirmed _ _),
      fun g hg => (Slot.has_onSeal hg).imp id .inl⟩
  · rw [hnext]
    exact ⟨hord.onConfirm cmd, hord.onConfirm_grows cmd, fun g hg => .inl (Slot.has_onConfirm hg)⟩
  · rw [hnext]
    exact ⟨hord, .refl _, fun g hg => .inl hg⟩
  · rw [hnext]
    refine ⟨fun p q hp hq => ?_, .of_eq rfl, fun g hg => ?_⟩
    · -- the new pending record is not older than the confirmed one
      cases hp
      show q.uploadGeneration ≤ e.generation
      rcases hin.requeue hreq with hnew | hle
      · exact hs.le_newest hnew hreq (.inr ⟨q, hq, rfl⟩)
      · exact hle q hq
    · rcases hg with ⟨p, hp, rfl⟩ | hq
      · cases hp
        exact .inr (.inr fun hpos hmax => LogEntry.generation_of_index hreq hpos hmax)
      · exact .inl (.inr hq)

theorem LogEntry.apply_grows (hs : s.Generations l) (hin : e.InTime c l s)
    (h : (e.apply c).run s = .ok () s') :
    s'.Generations (l ++ [e]) ∧ ∀ b, (s.slot b).Grows (s'.slot b) := by
  obtain ⟨hord, hgrow, hgens⟩ := hs.nextSlot hin
  have hslot := LogEntry.apply_slot hs.good h
  have hlist : ∀ {g : Int}, (g = 0 ∨
      ∃ e ∈ l, 0 < e.index.toNat → e.index.toNat ≤ maxInt64 → g = e.index.toNat) →
      g = 0 ∨ ∃ e' ∈ l ++ [e], 0 < e'.index.toNat → e'.index.toNat ≤ maxInt64 →
        g = e'.index.toNat :=
    fun hg => hg.imp id fun ⟨e', hmem, he'⟩ => ⟨e', List.mem_append_left _ hmem, he'⟩
  refine ⟨⟨LogEntry.apply_good hs.good h, fun b => ?_, fun b g hg => ?_⟩, fun b => ?_⟩
  · rw [hslot b]
    split
    · exact hord
    · exact hs.ordered b
  · rw [hslot b] at hg
    split at hg
    · rcases hgens g hg with hold | rfl | hnew
      · exact hlist (hs.ofEntry _ g hold)
      · exact .inl rfl
      · exact .inr ⟨e, by simp, hnew⟩
    · exact hlist (hs.ofEntry b g hg)
  · rw [hslot b]
    split
    · next hb => exact hb ▸ hgrow
    · exact .refl _

end Step

/-! ## Whole runs -/

/-- Before every step nothing touches the upload tables, and its entry is in time. -/
def UploadsInTime (c : Crypto) (s : Shard) (steps : List EntryStep) : Prop :=
  MeetsFrom (EntryStep.run c)
    (fun l t st => st.Quiet t ∧ st.entry.InTime c (l.map (·.entry)) (st.env t)) [] s steps

theorem Shard.generations_nil (hg : s.Good) (h : ∀ b, s.slot b = ⟨none, none⟩) :
    s.Generations [] := by
  refine ⟨hg, fun b p q hp => ?_, fun b g hg => ?_⟩
  · rw [h b] at hp
    cases hp
  rw [h b] at hg
  rcases hg with ⟨p, hp, -⟩ | ⟨q, hq, -⟩
  · cases hp
  · cases hq

theorem EntryStep.runAll_grows {steps before : List EntryStep} {s' : Shard}
    (hs : s.Generations (before.map (·.entry)))
    (hin : MeetsFrom (EntryStep.run c)
      (fun l t st => st.Quiet t ∧ st.entry.InTime c (l.map (·.entry)) (st.env t)) before s steps)
    (hrun : (runAll (EntryStep.run c) steps).run s = .ok () s') :
    s'.Generations ((before ++ steps).map (·.entry)) ∧ ∀ b, (s.slot b).Grows (s'.slot b) := by
  refine MeetsFrom.invariant (P := fun l t => t.Generations (l.map (·.entry)) ∧
    ∀ b, (s.slot b).Grows (t.slot b)) ?_ ⟨hs, fun _ => .refl _⟩ hin hrun
  rintro l st t t' ⟨hgen, hgrow⟩ ⟨hquiet, htime⟩ hstep
  obtain ⟨hgen', hgrow'⟩ := LogEntry.apply_grows (hgen.quiet hquiet) htime hstep
  refine ⟨by simpa using hgen', fun b => (hgrow b).trans ?_⟩
  exact congrFun hquiet.2 b ▸ hgrow' b

/-- In every run in time from an empty Shard no confirmed generation ever falls. -/
theorem confirmed_generation_grows (c : Crypto) {s t u : Shard} {steps rest : List EntryStep}
    (hg : s.Good) (hempty : ∀ b, s.slot b = ⟨none, none⟩)
    (hin : UploadsInTime c s (steps ++ rest))
    (hrun : (runAll (EntryStep.run c) steps).run s = .ok () t)
    (hrest : (runAll (EntryStep.run c) rest).run t = .ok () u)
    (b : UInt64) (q : ConfirmedUpload) (hq : t.idx.confirmedUploads b = some q) :
    ∃ q', u.idx.confirmedUploads b = some q' ∧ q.uploadGeneration ≤ q'.uploadGeneration := by
  obtain ⟨hin₁, hin₂⟩ := (meetsFrom_append hrun).mp hin
  have hnil : s.Generations (([] : List EntryStep).map (·.entry)) := Shard.generations_nil hg hempty
  have hgen := (EntryStep.runAll_grows hnil hin₁ hrun).1
  exact (EntryStep.runAll_grows hgen hin₂ hrest).2 b q hq

/-! ## A seal that comes late -/

/-- A Member without key material; the first byte of an envelope is its key version. -/
def keylessCrypto : Crypto where
  sha256 := fun _ => ⟨List.replicate 32 7, rfl⟩
  envelopeCiphertextLength := fun _ => none
  envelopePlaintextSHA256 := fun _ => .invalid
  enabled := false
  parseEnvelope := fun
    | v :: _ => some ⟨v.toNat, 8⟩
    | [] => none
  verifies := fun _ _ _ _ _ _ => false

def eightBytes : Payloads := ⟨[List.replicate 8 0], by simp⟩

/-- The Frames of two Documents of eight bytes are appended to Block `1`. -/
def receiveTwo (s : Shard) : Shard :=
  let docs : List Payloads := [eightBytes, eightBytes]
  { s with
    blocks := Function.update s.blocks 1 { s.blocks 1 with blk := some (blkOf docs) }
    blockWriter := some (writerAt 1 docs) }

def confirmOne (generation : Int) : RaftCommand :=
  .confirmUpload ⟨1, 1, 1, ⟨"blk", 120, "v"⟩, ⟨"idx", 200, "v"⟩, generation⟩

/-- Block `1` is sealed and uploaded before its second Document is applied, and uploaded again for
it. -/
def requeuedLog : List EntryStep :=
  [⟨receiveTwo, ⟨1, .commitDoc (docOfT "x" 1 40)⟩⟩, LogEntry.step ⟨2, .sealBlock ⟨1, 1, 120, 1⟩⟩,
    LogEntry.step ⟨3, confirmOne 0⟩,
    LogEntry.step ⟨4, .commitDoc (docOfT "y" 1 80)⟩,
    LogEntry.step ⟨5, confirmOne 4⟩]

/-- A second SealBlock of Block `1`, and the confirm of the upload that it asks for. -/
def lateSeal : List EntryStep :=
  [LogEntry.step ⟨6, .sealBlock ⟨1, 1, 120, 1⟩⟩, LogEntry.step ⟨7, confirmOne 0⟩]

theorem duplicate_seal_lowers_generation :
    (Shard.fresh 1 true).Good ∧ (∀ b, (Shard.fresh 1 true).slot b = ⟨none, none⟩) ∧ ∃ t u,
      (runAll (EntryStep.run keylessCrypto) requeuedLog).run (Shard.fresh 1 true) = .ok () t ∧
      (runAll (EntryStep.run keylessCrypto) lateSeal).run t = .ok () u ∧
      (t.idx.confirmedUploads 1).map (·.uploadGeneration) = some 4 ∧
      (u.idx.confirmedUploads 1).map (·.uploadGeneration) = some 0 :=
  ⟨(Shard.fresh_fresh 1 true).1, fun _ => rfl, _, _, outcome_ok_iff.mp (by decide +kernel),
    outcome_ok_iff.mp (by decide +kernel), by decide +kernel⟩

theorem receiveTwo_good : (receiveTwo (Shard.fresh 1 true)).Good := by
  refine (Shard.fresh_fresh 1 true).1.of_same rfl (fun b => ?_) fun b hb => ?_
  · by_cases hb : b = 1
    · subst hb
      rfl
    · simp [receiveTwo, hb]
  · simpa [receiveTwo, Shard.isOpen, writerAt, Shard.fresh, Shard.openNewBlock, Shard.emptyDir,
      newWriter] using hb

theorem requeuedLog_inTime : UploadsInTime keylessCrypto (Shard.fresh 1 true) requeuedLog := by
  have next : ∀ {s : Shard} {e : LogEntry}, s.Good → outcome (e.apply keylessCrypto) s = .ok () →
      (after (e.apply keylessCrypto) s).Good :=
    fun hg h => LogEntry.apply_good hg (outcome_ok_iff.mp h)
  have hg₁ := next (e := ⟨1, .commitDoc (docOfT "x" 1 40)⟩) receiveTwo_good (by decide +kernel)
  have hg₂ := next (e := ⟨2, .sealBlock ⟨1, 1, 120, 1⟩⟩) hg₁ (by decide +kernel)
  have hg₃ := next (e := ⟨3, confirmOne 0⟩) hg₂ (by decide +kernel)
  have hg₄ := next (e := ⟨4, .commitDoc (docOfT "y" 1 80)⟩) hg₃ (by decide +kernel)
  refine ⟨⟨⟨receiveTwo_good, rfl⟩, fun _ => .inl (by decide)⟩, ⟨⟨hg₁, rfl⟩, fun q hq => ?_⟩,
    ⟨⟨hg₂, rfl⟩, trivial⟩, ⟨⟨hg₃, rfl⟩, fun _ => .inl (by decide)⟩, ⟨⟨hg₄, rfl⟩, trivial⟩, trivial⟩
  have hnone : ((after (LogEntry.apply keylessCrypto ⟨1, .commitDoc (docOfT "x" 1 40)⟩)
      (receiveTwo (Shard.fresh 1 true))).slot 1).confirmed = none := by decide +kernel
  exact absurd (hnone.symm.trans hq) (by simp)

theorem confirmed_generation_grows_requeued :
    UploadsInTime keylessCrypto (Shard.fresh 1 true) requeuedLog ∧ ∃ t u q',
      (runAll (EntryStep.run keylessCrypto) (requeuedLog.take 3)).run (Shard.fresh 1 true) =
        .ok () t ∧
      (runAll (EntryStep.run keylessCrypto) (requeuedLog.drop 3)).run t = .ok () u ∧
      (t.idx.confirmedUploads 1).map (·.uploadGeneration) = some 0 ∧
      u.idx.confirmedUploads 1 = some q' ∧ 0 ≤ q'.uploadGeneration := by
  have hrun₁ := outcome_ok_iff.mp
    (show outcome (runAll (EntryStep.run keylessCrypto) (requeuedLog.take 3)) (Shard.fresh 1 true) =
      .ok () by decide +kernel)
  have hrun₂ := outcome_ok_iff.mp
    (show outcome (runAll (EntryStep.run keylessCrypto) (requeuedLog.drop 3))
      (after (runAll (EntryStep.run keylessCrypto) (requeuedLog.take 3)) (Shard.fresh 1 true)) =
      .ok () by decide +kernel)
  have hgen : ((after (runAll (EntryStep.run keylessCrypto) (requeuedLog.take 3))
      (Shard.fresh 1 true)).idx.confirmedUploads 1).map (·.uploadGeneration) = some 0 := by
    decide +kernel
  obtain ⟨q, hq, hzero⟩ := Option.map_eq_some_iff.mp hgen
  have hin : UploadsInTime keylessCrypto (Shard.fresh 1 true)
      (requeuedLog.take 3 ++ requeuedLog.drop 3) := requeuedLog_inTime
  obtain ⟨q', hq', hle⟩ := confirmed_generation_grows keylessCrypto (Shard.fresh_fresh 1 true).1
    (fun _ => rfl) hin hrun₁ hrun₂ 1 q hq
  exact ⟨requeuedLog_inTime, _, _, q', hrun₁, hrun₂, hgen, hq', hzero ▸ hle⟩

end Scrap
