/-
# What an eviction apply leaves, and what it goes by

A plan selects Blocks whose uploads are confirmed, and is applied later, Block by Block.

* A call that is skipped should leave the directory as it found it. The marker is written in front
  of the last two checks; the exit of a leader takes it back, the exit of an expired plan does not
  (`skipped_leaves_marker`, `skipped_keeps_files_iff`).
* The planner leaves out Blocks with a pending upload and Blocks in quarantine. The apply looks at
  neither, and an entry in between can queue the upload again (`pending_block_unlinked`).
-/
import Scrap.Eviction.Planner
import Scrap.Shard.EvictedAuthority

namespace Scrap

open Block Crash Fallible Function

/-! ## Skipped calls -/

section Skipped

variable {l : LocalBlock} {shardID : UInt64} {windowSeconds : Int} {plan : EvictionPlan}
  {selected : PlanBlock} {record : Option ConfirmedUpload} {r : ApplyReadings}

/-- The plan expires while the marker of a Hot Block is written. -/
def LocalBlock.ExpiresBehindMarker (l : LocalBlock) (shardID : UInt64) (windowSeconds : Int)
    (plan : EvictionPlan) (selected : PlanBlock) (record : Option ConfirmedUpload)
    (r : ApplyReadings) : Prop :=
  (∃ lc confirmed prepared,
    l.Admits shardID windowSeconds plan selected record r lc confirmed prepared ∧
      lc.lifecycle.state = .hot) ∧
    plan.expired r.nowUnlink = true

theorem unlinkEvictedBlock_skipped {lc : LocalLifecycle} {confirmed : ConfirmedUpload}
    {reason : SkipReason} (h : (unlinkEvictedBlock plan lc confirmed r).1 = .skipped reason) :
    (plan.expired r.nowUnlink = true ∧ (unlinkEvictedBlock plan lc confirmed r).2 = []) ∨
      (plan.expired r.nowUnlink = false ∧ (unlinkEvictedBlock plan lc confirmed r).2 =
        if lc.lifecycle.state = .hot then [.removeEvictionMarker] else []) := by
  unfold unlinkEvictedBlock at h ⊢
  by_cases hexpired : plan.expired r.nowUnlink = true
  · simp [hexpired]
  · cases hleader : r.leaderUnlink with
    | true => simp [hexpired]
    | false => simp [hexpired, hleader] at h

theorem LocalBlock.marker_taken_back {m : EvictionMarker} (h : l.files.evictionMarker = none) :
    runSteps FileStep.run [.writeEvictionMarker m, .removeEvictionMarker] l = l := by
  obtain ⟨⟨blk, idx, blkQuarantine, idxQuarantine, evictionMarker, authority⟩, marker, scan,
    restored⟩ := l
  obtain rfl : evictionMarker = none := h
  rfl

theorem LocalBlock.Admits.skipped_keeps {lc : LocalLifecycle} {confirmed : ConfirmedUpload}
    {prepared : List FileStep}
    (h : l.Admits shardID windowSeconds plan selected record r lc confirmed prepared)
    (hlate : ¬ (lc.lifecycle.state = .hot ∧ plan.expired r.nowUnlink = true)) {reason : SkipReason}
    (hskip : (unlinkEvictedBlock plan lc confirmed r).1 = .skipped reason) :
    runSteps FileStep.run (prepared ++ (unlinkEvictedBlock plan lc confirmed r).2) l = l := by
  obtain ⟨hcleanup, -, rfl⟩ | ⟨hcleanup, m, -, -, rfl⟩ := prepareEvictionMarkerForApply_ok h.marker
  · -- the marker was there before the call, and no exit removes it
    obtain ⟨-, hsteps⟩ | ⟨-, hsteps⟩ := unlinkEvictedBlock_skipped hskip
    · rw [hsteps]
      rfl
    · rw [hsteps, if_neg (by simp [hcleanup])]
      rfl
  · have hhot := (evictionApplySkipReason_none h.unskipped).resolve_right hcleanup
    obtain ⟨hexpired, -⟩ | ⟨-, hsteps⟩ := unlinkEvictedBlock_skipped hskip
    · exact absurd ⟨hhot, hexpired⟩ hlate
    · rw [hsteps, if_pos hhot]
      exact LocalBlock.marker_taken_back (LocalBlock.hot_files h.classified hhot).2

theorem LocalBlock.ExpiresBehindMarker.leaves_marker
    (h : l.ExpiresBehindMarker shardID windowSeconds plan selected record r) :
    (l.applyEvictionBlock shardID windowSeconds plan selected record r).1 = .skipped .planExpired ∧
      l.files.evictionMarker = none ∧ (runSteps FileStep.run
        (l.applyEvictionBlock shardID windowSeconds plan selected record r).2
          l).files.evictionMarker.isSome := by
  obtain ⟨⟨lc, confirmed, prepared, hadmits, hhot⟩, hexpired⟩ := h
  have hend : unlinkEvictedBlock plan lc confirmed r = (.skipped .planExpired, []) := by
    simp [unlinkEvictedBlock, hexpired]
  rw [hadmits.apply_eq, hend]
  refine ⟨rfl, (LocalBlock.hot_files hadmits.classified hhot).2, ?_⟩
  obtain ⟨hcleanup, -⟩ | ⟨-, m, -, -, rfl⟩ := prepareEvictionMarkerForApply_ok hadmits.marker
  · simp [hhot] at hcleanup
  · rfl

/-- **A skipped call leaves the Block's files and markers alone**, unless the plan expires between
the check in front of the marker and the one behind it. -/
theorem skipped_keeps_files_iff (l : LocalBlock) (shardID : UInt64) (windowSeconds : Int)
    (plan : EvictionPlan) (selected : PlanBlock) (record : Option ConfirmedUpload)
    (r : ApplyReadings) :
    ((∃ reason, (l.applyEvictionBlock shardID windowSeconds plan selected record r).1 =
        .skipped reason) →
      runSteps FileStep.run (l.applyEvictionBlock shardID windowSeconds plan selected record r).2 l =
        l) ↔
      ¬ l.ExpiresBehindMarker shardID windowSeconds plan selected record r := by
  constructor
  · intro hkeeps hlate
    obtain ⟨hskip, hnone, hsome⟩ := hlate.leaves_marker
    rw [hkeeps ⟨_, hskip⟩, hnone] at hsome
    cases hsome
  · rintro hlate ⟨reason, hskip⟩
    obtain ⟨lc, confirmed, prepared, hadmits⟩ | hnil :=
      l.applyEvictionBlock_cases shardID windowSeconds plan selected record r
    · rw [hadmits.apply_eq] at hskip ⊢
      exact hadmits.skipped_keeps
        (fun hboth => hlate ⟨⟨lc, confirmed, prepared, hadmits, hboth.1⟩, hboth.2⟩) hskip
    · rw [hnil]
      rfl

end Skipped

/-- The plan expires at `63`: the guard reads `61`, the last check `63`. -/
theorem skipped_leaves_marker :
    let call := uploadedBlock.applyEvictionBlock 7 0 ⟨63, ""⟩ ⟨1, 7, 40, "blocks/1.blk"⟩
      (some uploadedRecord) ⟨false, 60, false, 61, 62, 63, false⟩
    call.1 = .skipped .planExpired ∧ uploadedBlock.files.evictionMarker = none ∧
      (runSteps FileStep.run call.2 uploadedBlock).files.evictionMarker.isSome ∧
      runSteps FileStep.run call.2 uploadedBlock ≠ uploadedBlock := by
  decide +kernel

/-! ## Candidates -/

namespace EvictingMember

/-- `evictionCandidateLocked`: a Block that cannot be classified is passed over. -/
def evictionCandidate (m : EvictingMember) (upload : ConfirmedUpload) : Option PlanCandidate :=
  match (m.localBlock upload.blockID).classify upload.blockID with
  | .error _ => none
  | .ok lc =>
    if m.shard.quarantined upload.blockID then none
    else
      some ⟨upload.blockID, upload.shardID, upload.sealedSizeBytes, upload.blockObject.key,
        upload.confirmedAtUs, (lc.restoreMarker.map (·.restoredAtUs)).getD 0,
        lc.lifecycle.state = .hot⟩

/-- `evictionCandidatesLocked`, the catalog having the Block IDs `ids`: no Block with a pending
upload. -/
def evictionCandidates (m : EvictingMember) (ids : List UInt64) : List PlanCandidate :=
  (ids.filterMap m.shard.idx.confirmedUploads).filterMap fun upload =>
    if (m.shard.idx.pendingUploads upload.blockID).isSome then none else m.evictionCandidate upload

end EvictingMember

/-! ## Plans and applies -/

def FileStep.isUnlink : FileStep → Bool
  | .unlinkBlk => true
  | _ => false

/-- A `.blk` that an apply has unlinked, and what stood against it at that moment. -/
structure UnlinkedBlock where
  blockID : UInt64
  pending : Option PendingUpload
  quarantined : Bool
deriving DecidableEq

structure PlanningMember where
  member : EvictingMember
  plans : List StoredPlan
  unlinked : List UnlinkedBlock

inductive PlanningEvent where
  /-- `CreateEvictionPlan`; the catalog has the Block IDs `ids` -/
  | createPlan (ids : List UInt64) (x : PlanInput)
  | entry (e : LogEntry)
  /-- Block `k` of plan `p` is applied, up to the `n`-th file step -/
  | applyBlock (p k : Nat) (windowSeconds : Int) (r : ApplyReadings) (n : Nat)

namespace PlanningMember

/-- The first `n` file steps of the apply of one selected Block. -/
def applySteps (x : PlanningMember) (plan : EvictionPlan) (selected : PlanBlock)
    (windowSeconds : Int) (r : ApplyReadings) (n : Nat) : List FileStep :=
  ((FileOp.evict windowSeconds plan selected r).steps x.member.shard.shardID
    (x.member.localBlock selected.blockID)).take n

def applyBlock (x : PlanningMember) (plan : EvictionPlan) (selected : PlanBlock)
    (windowSeconds : Int) (r : ApplyReadings) (n : Nat) : PlanningMember :=
  let steps := x.applySteps plan selected windowSeconds r n
  let l := x.member.localBlock selected.blockID
  { x with
    member := x.member.setLocalBlock selected.blockID (runSteps FileStep.run steps l)
    unlinked :=
      if steps.any FileStep.isUnlink then
        x.unlinked ++ [⟨selected.blockID, x.member.shard.idx.pendingUploads selected.blockID,
          x.member.shard.quarantined selected.blockID⟩]
      else x.unlinked }

end PlanningMember

def PlanningEvent.run (c : Crypto) : PlanningEvent → EStateM ShardErr PlanningMember Unit
  | .createPlan ids input => modify fun x =>
    match buildPlan input (x.member.evictionCandidates ids) with
    | .error _ => x
    | .ok plan => { x with plans := x.plans ++ [plan] }
  | .entry e => fun x =>
    match (e.apply c).run x.member.shard with
    | .ok () s => .ok () { x with member := { x.member with shard := s } }
    | .error err s => .error err { x with member := { x.member with shard := s } }
  | .applyBlock p k windowSeconds r n => modify fun x =>
    match x.plans[p]? with
    | none => x
    | some plan =>
      match plan.selected[k]? with
      | none => x
      | some selected => x.applyBlock plan.plan selected windowSeconds r n

/-! ## Blocks that nothing claims -/

def Shard.Unclaimed (s : Shard) (b : UInt64) : Prop :=
  s.idx.pendingUploads b = none ∧ s.quarantined b = false

theorem EvictingMember.evictionCandidates_unclaimed {m : EvictingMember} {ids : List UInt64}
    {candidate : PlanCandidate} (h : candidate ∈ m.evictionCandidates ids) :
    m.shard.Unclaimed candidate.blockID := by
  obtain ⟨upload, -, hsome⟩ := List.mem_filterMap.mp h
  split_ifs at hsome with hpending
  unfold EvictingMember.evictionCandidate at hsome
  cases hc : (m.localBlock upload.blockID).classify upload.blockID with
  | error field => simp [hc] at hsome
  | ok lc => ?_
  simp only [hc] at hsome
  split_ifs at hsome with hquarantined
  cases hsome
  exact ⟨by simpa using hpending, by simpa using hquarantined⟩

section Entries

variable {c : Crypto} {s s' : Shard}

theorem Shard.nextSlot_pending {cmd : RaftCommand} {i : UInt64}
    (hnone : s.idx.pendingUploads cmd.blockID = none) (hrequeues : s.requeues c cmd = false)
    (hseal : ∀ sealed, cmd ≠ .sealBlock sealed) : (s.nextSlot c i cmd).pending = none := by
  have hslot : (s.slot cmd.blockID).pending = none := hnone
  cases cmd with
  | commitDoc doc =>
    rw [show s.nextSlot c i (.commitDoc doc) = s.slot doc.blockID from if_neg (by simp [hrequeues])]
    exact hslot
  | rewrapDoc cmd =>
    rw [show s.nextSlot c i (.rewrapDoc cmd) = s.slot cmd.blockID from if_neg (by simp [hrequeues])]
    exact hslot
  | sealBlock cmd => exact absurd rfl (hseal cmd)
  | confirmUpload cmd =>
    show ((s.slot cmd.blockID).onConfirm cmd).pending = none
    rw [show (s.slot cmd.blockID) = ⟨none, (s.slot cmd.blockID).confirmed⟩ from
      Slot.ext hslot rfl]
    unfold Slot.onConfirm
    simp only
    split
    · rfl
    · split_ifs <;> rfl

theorem Shard.quarantined_closeIfOpen (s : Shard) (b : UInt64) :
    (s.closeIfOpen b).quarantined = s.quarantined := by
  unfold Shard.closeIfOpen
  split
  · funext b'
    by_cases hb : b' = s.nextBlockID <;> simp [Shard.quarantined, Shard.openNewBlock, hb]
  · rfl

theorem Shard.SameFiles.quarantined {t : Shard} (h : s.SameFiles t) :
    t.quarantined = s.quarantined := by
  funext b
  have hb := congrArg BlockFiles.blkQuarantine (h b)
  exact congrArg Option.isSome hb

theorem LogEntry.apply_quarantined {e : LogEntry} (hrun : (e.apply c).run s = .ok () s') :
    s'.quarantined = s.quarantined := by
  obtain ⟨i, cmd⟩ := e
  cases cmd with
  | commitDoc doc =>
    obtain ⟨t, hdoc, rfl⟩ := applyCommitDocumentCommand_ok hrun
    exact (((applyCommitDocument_keeps (Shard.SameFiles.closed s) doc i).ok (fun _ => rfl)
      hdoc).wake _ _).quarantined
  | rewrapDoc cmd =>
    obtain ⟨t, key, r, rfl, ⟨rfl, -⟩ | hdoc⟩ := applyRewrapDocumentEnvelopeCommand_ok hrun
    · exact (Shard.SameFiles.wake (fun _ => rfl) _ _).quarantined
    · exact (((applyRewrapDocumentEnvelope_keeps (Shard.SameFiles.closed s) c cmd _).ok
        (fun _ => rfl) hdoc).wake _ _).quarantined
  | sealBlock cmd =>
    obtain ⟨idx, -, rfl⟩ := applySealBlock_ok hrun
    exact Shard.quarantined_closeIfOpen { s with idx := idx } cmd.blockID
  | confirmUpload cmd =>
    obtain ⟨t, hframe, hs'⟩ := applyConfirmUpload_ok hrun
    have ht : t.quarantined = s.quarantined := by
      funext b
      have hb := congrArg BlockFiles.blkQuarantine (hframe.files b)
      exact congrArg Option.isSome hb
    rcases hs' with rfl | rfl | ⟨p, rfl⟩
    · exact ht
    · exact (t.quarantined_closeIfOpen _).trans ht
    · exact (t.quarantined_closeIfOpen _).trans ht

theorem Shard.Unclaimed.entry {e : LogEntry} {b : UInt64} (h : s.Unclaimed b) (hg : s.Good)
    (hqueues : s.requeues c e.cmd = true ∨ (∃ cmd, e.cmd = .sealBlock cmd) → b ≠ e.cmd.blockID)
    (hrun : (e.apply c).run s = .ok () s') : s'.Unclaimed b := by
  refine ⟨?_, by rw [LogEntry.apply_quarantined hrun]; exact h.2⟩
  have hslot := congrArg Slot.pending (LogEntry.apply_slot hg hrun b)
  rw [show s'.idx.pendingUploads b = (s'.slot b).pending from rfl, hslot]
  split_ifs with hb
  · subst hb
    refine Shard.nextSlot_pending h.1 ?_ fun cmd hcmd => hqueues (.inr ⟨cmd, hcmd⟩) rfl
    by_contra hrequeues
    exact hqueues (.inl (by simpa using hrequeues)) rfl
  · exact h.1

end Entries

/-! ## Runs -/

/-- No entry queues the upload of a Block that a plan has selected. -/
def PlanningEvent.Undrifted (c : Crypto) (x : PlanningMember) : PlanningEvent → Prop
  | .entry e =>
    x.member.shard.requeues c e.cmd = true ∨ (∃ cmd, e.cmd = .sealBlock cmd) →
      ∀ plan ∈ x.plans, ∀ block ∈ plan.selected, block.blockID ≠ e.cmd.blockID
  | _ => True

structure PlanningMember.Settled (x : PlanningMember) : Prop where
  good : x.member.shard.Good
  planned : ∀ plan ∈ x.plans, ∀ block ∈ plan.selected, x.member.shard.Unclaimed block.blockID
  past : ∀ u ∈ x.unlinked, u.pending = none ∧ u.quarantined = false

section Runs

variable {c : Crypto} {x y : PlanningMember}

theorem EvictingMember.setLocalBlock_unclaimed {m : EvictingMember} {b b' : UInt64}
    {steps : List FileStep} (h : m.shard.Unclaimed b) :
    (m.setLocalBlock b' (runSteps FileStep.run steps (m.localBlock b'))).shard.Unclaimed b := by
  refine ⟨h.1, ?_⟩
  rw [← h.2]
  show (update m.shard.blocks b' _ b).blkQuarantine.isSome = _
  by_cases hb : b = b'
  · subst hb
    rw [update_self]
    have hrest := congrArg BlockFiles.blkQuarantine (runSteps_rest steps (m.localBlock b))
    exact congrArg Option.isSome hrest
  · rw [update_of_ne hb]
    rfl

theorem PlanningMember.Settled.applyBlock (h : x.Settled) (c : Crypto) {plan : StoredPlan}
    (hplan : plan ∈ x.plans) {selected : PlanBlock} (hsel : selected ∈ plan.selected)
    (windowSeconds : Int) (r : ApplyReadings) (n : Nat) :
    (x.applyBlock plan.plan selected windowSeconds r n).Settled := by
  refine ⟨?_, fun plan' hplan' block hblock => ?_, fun u hu => ?_⟩
  · exact EvictingMember.good_files h.good c (.evict windowSeconds plan.plan selected r) n
  · exact EvictingMember.setLocalBlock_unclaimed (h.planned plan' hplan' block hblock)
  unfold PlanningMember.applyBlock at hu
  simp only at hu
  split_ifs at hu
  · rcases List.mem_append.mp hu with hold | hnew
    · exact h.past u hold
    · rw [List.mem_singleton.mp hnew]
      exact h.planned plan hplan selected hsel
  · exact h.past u hu

theorem PlanningEvent.run_settled {event : PlanningEvent} (h : x.Settled)
    (hcond : event.Undrifted c x) (hrun : (event.run c).run x = .ok () y) : y.Settled := by
  cases event with
  | createPlan ids input =>
    cases hrun
    beta_reduce
    cases hplan : buildPlan input (x.member.evictionCandidates ids) with
    | error err => exact h
    | ok plan => ?_
    refine ⟨h.good, fun plan' hplan' block hblock => ?_, h.past⟩
    rcases List.mem_append.mp hplan' with hold | hnew
    · exact h.planned plan' hold block hblock
    · rw [List.mem_singleton.mp hnew] at hblock
      obtain ⟨candidate, hmem, rfl⟩ := buildPlan_selected hplan block hblock
      exact EvictingMember.evictionCandidates_unclaimed hmem
  | entry e =>
    simp only [PlanningEvent.run, EStateM.run] at hrun
    split at hrun
    next hres =>
      cases hrun
      refine ⟨LogEntry.apply_good h.good hres, fun plan hplan block hblock => ?_, h.past⟩
      exact (h.planned plan hplan block hblock).entry h.good
        (fun hqueues => hcond hqueues plan hplan block hblock) hres
    next => cases hrun
  | applyBlock p k windowSeconds r n =>
    cases hrun
    beta_reduce
    cases hp : x.plans[p]? with
    | none => exact h
    | some plan => ?_
    simp only
    cases hk : plan.selected[k]? with
    | none => exact h
    | some selected =>
      exact h.applyBlock c (List.mem_of_getElem? hp) (List.mem_of_getElem? hk)
        windowSeconds r n

end Runs

/-- In every run in which no entry queues the upload of a selected Block, a `.blk` is unlinked only
when its Block has no pending upload and is not in quarantine. -/
theorem planned_unlink_settled (c : Crypto) {m : EvictingMember} (hg : m.shard.Good)
    {events : List PlanningEvent} {x : PlanningMember}
    (hrun : (runAll (PlanningEvent.run c) events).run ⟨m, [], []⟩ = .ok () x)
    (hcond : Meets (PlanningEvent.run c) (fun y event => event.Undrifted c y) ⟨m, [], []⟩ events) :
    ∀ u ∈ x.unlinked, u.pending = none ∧ u.quarantined = false := by
  have hstart : PlanningMember.Settled ⟨m, [], []⟩ := ⟨hg, nofun, nofun⟩
  have hstep : ∀ event y y', PlanningMember.Settled y → PlanningEvent.Undrifted c y event →
      (PlanningEvent.run c event).run y = .ok () y' → y'.Settled :=
    fun _ _ _ h hc hr => PlanningEvent.run_settled h hc hr
  exact (Meets.invariant hstep hstart hcond hrun).past

/-! ## An upload that is queued again -/

/-- Block `1` is sealed with `x`, committed, and `y`, and its upload is confirmed; then a follower
plans its eviction. -/
def planUploaded : List PlanningEvent :=
  [.entry ⟨1, .commitDoc (docOfT "x" 1 40)⟩, .entry ⟨2, .sealBlock ⟨1, 1, 120, 1⟩⟩,
    .entry ⟨3, confirmOne 0⟩,
    .createPlan [1] ⟨⟨"node", none, none, none, ""⟩, ⟨0, 100, 10, 1000, 0⟩, "node", "m", 10, "p",
      false⟩]

def applyPlanned : PlanningEvent := .applyBlock 0 0 0 ⟨false, 20, false, 21, 22, 23, false⟩ 4

/-- The CommitDocument of `y` is an append to the closed Block and queues its upload again. -/
theorem pending_block_unlinked : ∃ x, receivingMember.shard.Good ∧
    (runAll (PlanningEvent.run keylessCrypto) (planUploaded ++
      [.entry ⟨4, .commitDoc (docOfT "y" 1 80)⟩, applyPlanned])).run ⟨receivingMember, [], []⟩ =
        .ok () x ∧
    (x.member.shard.blocks 1).blk = none ∧
    x.unlinked.map (fun u => (u.blockID, u.pending.map (·.uploadGeneration))) = [(1, some 4)] :=
  ⟨_, receiveTwo_good, outcome_ok_iff.mp (by decide +kernel), by decide +kernel⟩

theorem planned_unlink_settled_uploaded : ∃ x,
    (runAll (PlanningEvent.run keylessCrypto) (planUploaded ++ [applyPlanned])).run
      ⟨receivingMember, [], []⟩ = .ok () x ∧
    x.unlinked.map (·.blockID) = [1] ∧
    ∀ u ∈ x.unlinked, u.pending = none ∧ u.quarantined = false := by
  have hrun := outcome_ok_iff.mp
    (show outcome (runAll (PlanningEvent.run keylessCrypto) (planUploaded ++ [applyPlanned]))
      ⟨receivingMember, [], []⟩ = .ok () by decide +kernel)
  have hcond : Meets (PlanningEvent.run keylessCrypto)
      (fun y event => event.Undrifted keylessCrypto y) ⟨receivingMember, [], []⟩
      (planUploaded ++ [applyPlanned]) :=
    ⟨nofun, nofun, nofun, trivial, trivial, trivial⟩
  exact ⟨_, hrun, by decide +kernel, planned_unlink_settled keylessCrypto receiveTwo_good hrun hcond⟩

end Scrap
