/-
# Eviction plans

`BuildPlan` sorts the candidates by Block ID and goes through them once. A candidate that may not
be evicted is skipped with the reason, one that no longer fits the bounds too, and the others are
selected.

Sizes and times are `int64`, and both sums wrap: a size near `2^63` makes the sum of the selected
bytes negative, which is below every bound (`plan_exceeds_max_bytes`), and a window that ends behind
`2^63` has ended long ago.
-/
import Mathlib.Algebra.Ring.Int.Defs
import Scrap.Shard.LocalBlock

namespace Scrap

open Fallible

def addInt64 (a b : Int) : Int := (a + b).bmod UInt64.size

/-! ## Plans -/

structure PlanCandidate where
  blockID : UInt64
  shardID : UInt64
  sizeBytes : Int
  backendKey : String
  confirmedAtUs : Int
  restoredAtUs : Int
  localEvictable : Bool
deriving DecidableEq

structure PlanRequest where
  memberHostname : String
  shardID : Option UInt64
  maxBlocks : Option Int
  maxBytes : Option Int
  reason : String
deriving DecidableEq

/-- Durations are in microseconds. -/
structure PlanConfig where
  hotResidencyWindow : Int
  planTTL : Int
  recommendedMaxBlocks : Int
  recommendedMaxBytes : Int
  maxValidateSamples : Int
deriving DecidableEq

structure PlanInput where
  request : PlanRequest
  config : PlanConfig
  memberHostname : String
  memberID : String
  nowUs : Int
  planID : String
  isLeader : Bool
deriving DecidableEq

/-- `ErrInvalidPlanRequest`, by its text, and the two errors beside it. -/
inductive PlanErr where
  /-- `plan_id is required`, and so on -/
  | required (field : String)
  /-- `ErrTargetMemberMismatch` -/
  | targetMember (got want : String)
  /-- `unsupported reason %q` -/
  | unsupportedReason (reason : String)
  /-- `hot residency window must be >= 0`, and so on -/
  | bound (field : String)
  /-- `ErrPlanCapExceedsCeiling` -/
  | capExceedsCeiling (field : String)
deriving DecidableEq

inductive PlanSkipReason where
  | shardFilter
  | localStateNotHot
  | noDurableCopy
  | leaderHotCopyRequired
  | hotResidencyWindow
  | planBounds
deriving DecidableEq

def PlanSkipReason.all : List PlanSkipReason :=
  [.shardFilter, .localStateNotHot, .noDurableCopy, .leaderHotCopyRequired, .hotResidencyWindow,
    .planBounds]

structure PlanLists where
  selected : List PlanBlock
  selectedBytes : Int
  skipped : List (PlanBlock × PlanSkipReason)
  skipCountsByReason : PlanSkipReason → Nat

def PlanLists.empty : PlanLists := ⟨[], 0, [], fun _ => 0⟩

structure StoredPlan extends PlanLists where
  plan : EvictionPlan

def validatePlanIdentity (x : PlanInput) : Except PlanErr Unit :=
  if x.planID = "" then .error (.required "plan_id")
  else if x.memberHostname = "" then .error (.required "local member_hostname")
  else if x.memberID = "" then .error (.required "local member_id")
  else if x.request.memberHostname = "" then .error (.required "member_hostname")
  else if x.request.memberHostname ≠ x.memberHostname then
    .error (.targetMember x.request.memberHostname x.memberHostname)
  else .ok ()

def validatePlanRequest (x : PlanInput) : Except PlanErr Unit :=
  if x.request.reason ≠ "" ∧ x.request.reason ≠ "evidence_run" then
    .error (.unsupportedReason x.request.reason)
  else .ok ()

def validatePlanConfig (cfg : PlanConfig) : Except PlanErr Unit :=
  if cfg.hotResidencyWindow < 0 then .error (.bound "hot residency window")
  else if cfg.planTTL ≤ 0 then .error (.bound "plan ttl")
  else if cfg.recommendedMaxBlocks ≤ 0 then .error (.bound "recommended max_blocks")
  else if cfg.recommendedMaxBytes ≤ 0 then .error (.bound "recommended max_bytes")
  else if cfg.maxValidateSamples < 0 then .error (.bound "max validate samples")
  else .ok ()

def validatePlanInput (x : PlanInput) : Except PlanErr Unit := do
  validatePlanIdentity x
  validatePlanRequest x
  validatePlanConfig x.config

/-- One cap of `planBounds`: the request may lower the recommended value. -/
def planBound (field : String) (requested : Option Int) (recommended : Int) : Except PlanErr Int :=
  match requested with
  | none => .ok recommended
  | some n =>
    if n ≤ 0 then .error (.bound field)
    else if recommended < n then .error (.capExceedsCeiling field)
    else .ok n

def planBounds (x : PlanInput) : Except PlanErr (Int × Int) := do
  let maxBlocks ← planBound "max_blocks" x.request.maxBlocks x.config.recommendedMaxBlocks
  let maxBytes ← planBound "max_bytes" x.request.maxBytes x.config.recommendedMaxBytes
  return (maxBlocks, maxBytes)

def planEligibleAtUs (x : PlanInput) (candidate : PlanCandidate) : Int :=
  addInt64 (max candidate.confirmedAtUs candidate.restoredAtUs) x.config.hotResidencyWindow

def planSkipReason (x : PlanInput) (candidate : PlanCandidate) : Option PlanSkipReason :=
  if x.request.shardID ≠ none ∧ x.request.shardID ≠ some candidate.shardID then some .shardFilter
  else if !candidate.localEvictable then some .localStateNotHot
  else if candidate.backendKey = "" then some .noDurableCopy
  else if x.isLeader then some .leaderHotCopyRequired
  else if x.nowUs < planEligibleAtUs x candidate then some .hotResidencyWindow
  else none

def PlanCandidate.planBlock (candidate : PlanCandidate) : PlanBlock :=
  ⟨candidate.blockID, candidate.shardID, candidate.sizeBytes, candidate.backendKey⟩

def PlanLists.appendSkippedBlock (p : PlanLists) (block : PlanBlock) (reason : PlanSkipReason) :
    PlanLists :=
  { p with
    skipped := p.skipped ++ [(block, reason)]
    skipCountsByReason :=
      Function.update p.skipCountsByReason reason (p.skipCountsByReason reason + 1) }

/-- One candidate of the loop of `BuildPlan`. -/
def PlanLists.next (x : PlanInput) (bounds : Int × Int) (p : PlanLists)
    (candidate : PlanCandidate) : PlanLists :=
  match planSkipReason x candidate with
  | some reason => p.appendSkippedBlock candidate.planBlock reason
  | none =>
    if bounds.1 ≤ p.selected.length ∨ bounds.2 < addInt64 p.selectedBytes candidate.sizeBytes then
      p.appendSkippedBlock candidate.planBlock .planBounds
    else
      { p with
        selected := p.selected ++ [candidate.planBlock]
        selectedBytes := addInt64 p.selectedBytes candidate.sizeBytes }

def PlanInput.evictionPlan (x : PlanInput) : EvictionPlan :=
  ⟨x.nowUs + x.config.planTTL, if x.request.reason = "" then "evidence_run" else x.request.reason⟩

def sortCandidates (candidates : List PlanCandidate) : List PlanCandidate :=
  candidates.mergeSort fun a b => a.blockID ≤ b.blockID

def buildPlan (x : PlanInput) (candidates : List PlanCandidate) : Except PlanErr StoredPlan := do
  validatePlanInput x
  let bounds ← planBounds x
  return ⟨(sortCandidates candidates).foldl (PlanLists.next x bounds) .empty, x.evictionPlan⟩

/-! ## The loop -/

section Loop

variable {x : PlanInput} {bounds : Int × Int} {done : List PlanCandidate} {p : PlanLists}

theorem addInt64_of_le {a b : Int} (h : 0 ≤ a + b) (hle : a + b ≤ maxInt64) :
    addInt64 a b = a + b := by
  simp only [maxInt64] at hle
  exact Int.bmod_eq_of_le (by omega) (by simp only [UInt64.size]; omega)

def PlanLists.totalBytes (p : PlanLists) : Int := (p.selected.map PlanBlock.sizeBytes).sum

structure PlanLists.Covers (x : PlanInput) (bounds : Int × Int) (done : List PlanCandidate)
    (p : PlanLists) : Prop where
  perm : (p.selected ++ p.skipped.map Prod.fst).Perm (done.map PlanCandidate.planBlock)
  selected : p.selected.Sublist (done.map PlanCandidate.planBlock)
  skipped : (p.skipped.map Prod.fst).Sublist (done.map PlanCandidate.planBlock)
  blocks : p.selected.length ≤ bounds.1
  bytes : (∀ candidate ∈ done, 0 ≤ candidate.sizeBytes) → 0 ≤ p.totalBytes ∧
    (p.totalBytes ≤ maxInt64 → p.selectedBytes = p.totalBytes ∧ p.totalBytes ≤ bounds.2)
  eligible : ∀ block ∈ p.selected, ∃ candidate ∈ done, candidate.planBlock = block ∧
    planSkipReason x candidate = none
  counts : (PlanSkipReason.all.map p.skipCountsByReason).sum = p.skipped.length

theorem PlanLists.Covers.empty (hblocks : 0 ≤ bounds.1) (hbytes : 0 ≤ bounds.2) :
    PlanLists.Covers x bounds [] .empty where
  perm := .nil
  selected := List.nil_sublist _
  skipped := List.nil_sublist _
  blocks := hblocks
  bytes := fun _ => ⟨le_refl 0, fun _ => ⟨rfl, hbytes⟩⟩
  eligible := fun _ h => (List.not_mem_nil h).elim
  counts := rfl

theorem PlanLists.Covers.appendSkippedBlock (h : p.Covers x bounds done)
    (candidate : PlanCandidate) (reason : PlanSkipReason) :
    (p.appendSkippedBlock candidate.planBlock reason).Covers x bounds (done ++ [candidate]) where
  perm := by
    simp only [PlanLists.appendSkippedBlock, List.map_append, ← List.append_assoc]
    exact h.perm.append_right _
  selected := by
    rw [List.map_append]
    exact h.selected.trans (List.sublist_append_left _ _)
  skipped := by
    simp only [PlanLists.appendSkippedBlock, List.map_append]
    exact h.skipped.append_right _
  blocks := h.blocks
  bytes := fun hsize => h.bytes fun c hc => hsize c (List.mem_append_left _ hc)
  eligible := fun block hblock => by
    obtain ⟨c, hc, hrest⟩ := h.eligible block hblock
    exact ⟨c, List.mem_append_left _ hc, hrest⟩
  counts := by
    simp only [PlanLists.appendSkippedBlock, List.length_append, List.length_singleton, ← h.counts]
    simp only [PlanSkipReason.all, List.map_cons, List.map_nil, List.sum_cons, List.sum_nil,
      Function.update_apply]
    cases reason <;> simp only [reduceCtorEq, if_true, if_false] <;> omega

theorem PlanLists.Covers.next (h : p.Covers x bounds done) (candidate : PlanCandidate) :
    (PlanLists.next x bounds p candidate).Covers x bounds (done ++ [candidate]) := by
  unfold PlanLists.next
  cases hskip : planSkipReason x candidate with
  | some reason => exact h.appendSkippedBlock candidate reason
  | none => ?_
  by_cases hfull : bounds.1 ≤ p.selected.length ∨
      bounds.2 < addInt64 p.selectedBytes candidate.sizeBytes
  · simp only [if_pos hfull]
    exact h.appendSkippedBlock candidate .planBounds
  simp only [if_neg hfull]
  push Not at hfull
  refine ⟨?_, ?_, ?_, ?_, fun hsize => ?_, fun block hblock => ?_, h.counts⟩
  · rw [List.map_append, List.append_assoc]
    exact (List.perm_append_comm.append_left _).trans
      ((List.append_assoc _ _ _).symm ▸ h.perm.append_right _)
  · rw [List.map_append]
    exact h.selected.append_right _
  · rw [List.map_append]
    exact h.skipped.trans (List.sublist_append_left _ _)
  · rw [List.length_append, List.length_singleton]
    omega
  · obtain ⟨hnonneg, hsum⟩ := h.bytes fun c hc => hsize c (List.mem_append_left _ hc)
    have hpos := hsize candidate (by simp)
    have htotal : PlanLists.totalBytes { p with
        selected := p.selected ++ [candidate.planBlock]
        selectedBytes := addInt64 p.selectedBytes candidate.sizeBytes } =
          p.totalBytes + candidate.sizeBytes := by
      simp [PlanLists.totalBytes, PlanCandidate.planBlock]
    rw [htotal]
    refine ⟨Int.add_nonneg hnonneg hpos, fun hle => ?_⟩
    -- the sum before is smaller, so it has not wrapped either
    obtain ⟨hbytes, -⟩ := hsum (by omega)
    rw [hbytes, addInt64_of_le (by omega) hle] at hfull ⊢
    exact ⟨rfl, hfull.2⟩
  · rcases List.mem_append.mp hblock with hold | hnew
    · obtain ⟨c, hc, hrest⟩ := h.eligible block hold
      exact ⟨c, List.mem_append_left _ hc, hrest⟩
    · exact ⟨candidate, by simp, (List.mem_singleton.mp hnew).symm, hskip⟩

theorem PlanLists.Covers.foldl (rest : List PlanCandidate) :
    ∀ {done p}, p.Covers x bounds done →
      (rest.foldl (PlanLists.next x bounds) p).Covers x bounds (done ++ rest) := by
  induction rest with
  | nil =>
    intro done p h
    rwa [List.append_nil]
  | cons candidate rest ih =>
    intro done p h
    rw [List.append_cons]
    exact ih (h.next candidate)

end Loop

/-! ## Whole plans -/

section Plans

variable {x : PlanInput} {bounds : Int × Int} {candidates : List PlanCandidate} {plan : StoredPlan}

theorem planBound_pos {field : String} {requested : Option Int} {recommended n : Int}
    (hpos : 0 < recommended) (h : planBound field requested recommended = .ok n) : 0 < n := by
  unfold planBound at h
  cases requested with
  | none =>
    cases h
    exact hpos
  | some m =>
    simp only at h
    split_ifs at h with hle
    cases h
    omega

theorem validatePlanInput_ok (h : validatePlanInput x = .ok ()) :
    0 ≤ x.config.hotResidencyWindow ∧ 0 < x.config.recommendedMaxBlocks ∧
      0 < x.config.recommendedMaxBytes := by
  obtain ⟨-, -, h⟩ := except_bind_ok.mp h
  obtain ⟨-, -, h⟩ := except_bind_ok.mp h
  unfold validatePlanConfig at h
  split_ifs at h
  exact ⟨by omega, by omega, by omega⟩

theorem planBounds_pos (hvalid : validatePlanInput x = .ok ()) (h : planBounds x = .ok bounds) :
    0 < bounds.1 ∧ 0 < bounds.2 := by
  obtain ⟨-, hblocks, hbytes⟩ := validatePlanInput_ok hvalid
  obtain ⟨maxBlocks, h₁, h⟩ := except_bind_ok.mp h
  obtain ⟨maxBytes, h₂, h⟩ := except_bind_ok.mp h
  cases h
  exact ⟨planBound_pos hblocks h₁, planBound_pos hbytes h₂⟩

theorem buildPlan_covers (h : buildPlan x candidates = .ok plan) :
    validatePlanInput x = .ok () ∧ ∃ bounds, planBounds x = .ok bounds ∧
      plan.toPlanLists.Covers x bounds (sortCandidates candidates) := by
  obtain ⟨⟨⟩, hvalid, h⟩ := except_bind_ok.mp h
  obtain ⟨bounds, hbounds, h⟩ := except_bind_ok.mp h
  cases h
  obtain ⟨hblocks, hbytes⟩ := planBounds_pos hvalid hbounds
  exact ⟨hvalid, bounds, hbounds, (PlanLists.Covers.empty hblocks.le hbytes.le).foldl _⟩

theorem buildPlan_selected (h : buildPlan x candidates = .ok plan) :
    ∀ block ∈ plan.selected, ∃ candidate ∈ candidates, block = candidate.planBlock := by
  obtain ⟨-, bounds, -, hcovers⟩ := buildPlan_covers h
  intro block hblock
  obtain ⟨candidate, hmem, heq, -⟩ := hcovers.eligible block hblock
  exact ⟨candidate, List.mem_mergeSort.mp hmem, heq.symm⟩

end Plans

end Scrap
