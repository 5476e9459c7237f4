/-
# The checkpoint of the deep scrub

A run of the deep scrub lists the closed Blocks in the order of their IDs, drops those up to the
checkpoint, and saves the ID of each Block behind it. A run that comes to the end clears the
checkpoint; one that stops early leaves it to the next, also across a restart.

The runs from one that returns nil up to the next are a period, and it covers every Block that is
listed and Hot in each of its runs (`period_passes_hot_blocks`): behind the save of `b`, every
listed Block up to `b` has been taken up (`ScrubDisk.Covers`), and a Block that a later run drops
because of the checkpoint is one of these.

A run is cut behind any of its actions when the process dies. What the directory, the Block files,
the pauses and the context answer is given by a `RunEnv`; the checkpoint file is read and written
without an error.
-/
import Mathlib.Data.List.TakeWhile
import Scrap.Lib.Crash
import Scrap.Scrub.Deep

namespace Scrap

open Block Fallible Crash

/-! ## A run -/

structure BlockEnv where
  /-- the context is done when the Block is taken up -/
  canceled : Bool
  /-- `waitPressurePause` fails -/
  pauseErr : Bool
  /-- `ClassifyScrubBlock` -/
  state : Except String LifecycleState
  /-- `waitIOBudget` fails -/
  ioBudgetErr : Bool
  verify : Except VerifyErr VerifyResult
  /-- the second call, after a corrupt `.idx` -/
  verifyAgain : Except VerifyErr VerifyResult
  /-- `quarantineBlock` fails -/
  quarantineErr : Bool

structure ScrubListing where
  blkIDs : List UInt64
  markerIDs : List UInt64
  openBlockID : UInt64

/-- `ListSealedBlocks` of the block package. -/
def ScrubListing.sealedBlocks (l : ScrubListing) : List UInt64 :=
  (l.blkIDs.filter (· ≠ l.openBlockID)).insertionSort (· ≤ ·)

/-- `appendEvictedMarkerBlocks`. -/
def ScrubListing.blocks (l : ScrubListing) : List UInt64 :=
  (l.sealedBlocks ++
    (l.markerIDs.filter fun b => b ≠ l.openBlockID ∧ b ∉ l.sealedBlocks).dedup).insertionSort (· ≤ ·)

structure RunEnv where
  /-- `none` when the directory cannot be read -/
  listing : Option ScrubListing
  block : UInt64 → BlockEnv

inductive DeepErr where
  | listBlocks
  | canceled
  | pressurePause
  | classify (blockID : UInt64) (field : String)
  | ioBudget
  | verify (err : VerifyErr)
  | quarantine
deriving DecidableEq

/-- What a run does to the outside, as far as coverage is concerned. -/
inductive ScrubAction where
  | verifyBlock (b : UInt64)
  | saveCheckpoint (b : UInt64)
  | clearCheckpoint
deriving DecidableEq

def BlockEnv.quarantineBlock (e : BlockEnv) : Except DeepErr Bool :=
  if e.quarantineErr then .error .quarantine else .ok true

/-- What `verifyOneBlock` does with the answer of `VerifyBlock`. -/
def BlockEnv.settle (e : BlockEnv) : Except VerifyErr VerifyResult → Except DeepErr Bool
  | .error (.loadIdx .corruptTail) => e.quarantineBlock
  | .error err => .error (.verify err)
  | .ok result => if result.corruptFrames = [] then .ok false else e.quarantineBlock

/-- `verifyOneBlock`, with the calls of `VerifyBlock` it makes. -/
def verifyOneBlock (b : UInt64) (e : BlockEnv) : List ScrubAction × Except DeepErr Bool :=
  match e.verify with
  | .error (.loadIdx .corruptTail) => ([.verifyBlock b, .verifyBlock b], e.settle e.verifyAgain)
  | result => ([.verifyBlock b], e.settle result)

def scrubOneBlock (b : UInt64) (e : BlockEnv) : List ScrubAction × Except DeepErr Bool :=
  if e.pauseErr then ([], .error .pressurePause)
  else
    -- skipBlockByLifecycle
    match e.state with
    | .error field => ([], .error (.classify b field))
    | .ok .evicted => ([], .ok false)
    | .ok .metadataLoss => ([], .ok false)
    | .ok .unexpectedLoss => ([], .ok false)
    | .ok .hot => if e.ioBudgetErr then ([], .error .ioBudget) else verifyOneBlock b e
    | .ok .hotCleanupNeeded => if e.ioBudgetErr then ([], .error .ioBudget) else verifyOneBlock b e

def scrubBlocks (env : UInt64 → BlockEnv) : List UInt64 → List ScrubAction × Except DeepErr Unit
  | [] => ([], .ok ())
  | b :: rest =>
    if (env b).canceled then ([], .error .canceled)
    else
      match scrubOneBlock b (env b) with
      | (actions, .error err) => (actions, .error err)
      | (actions, .ok _) =>
        (actions ++ .saveCheckpoint b :: (scrubBlocks env rest).1, (scrubBlocks env rest).2)

/-- `RunOnce`, without its repair passes. -/
def runOnce (checkpoint : Option UInt64) (env : RunEnv) :
    List ScrubAction × Except DeepErr Unit :=
  match env.listing with
  | none => ([], .error .listBlocks)
  | some l =>
    match scrubBlocks env.block (filterFromCheckpoint checkpoint l.blocks) with
    | (actions, .error err) => (actions, .error err)
    | (actions, .ok ()) => (actions ++ [.clearCheckpoint], .ok ())

/-! ## Runs, one after the other -/

/-- The checkpoint file, and the Blocks that the present run has passed to `VerifyBlock`. -/
structure ScrubDisk where
  checkpoint : Option UInt64
  verified : List UInt64
deriving DecidableEq

def ScrubAction.run : ScrubAction → ScrubDisk → ScrubDisk
  | .verifyBlock b, d => { d with verified := b :: d.verified }
  | .saveCheckpoint b, d => { d with checkpoint := some b }
  | .clearCheckpoint, d => { d with checkpoint := none }

structure RunRecord where
  env : RunEnv
  verified : List UInt64

/-- In this run, unless it has no listing, `b` was listed and Hot. -/
def RunRecord.ListsHot (r : RunRecord) (b : UInt64) : Prop :=
  ∀ l, r.env.listing = some l → b ∈ l.blocks ∧
    ((r.env.block b).state = .ok .hot ∨ (r.env.block b).state = .ok .hotCleanupNeeded)

instance (r : RunRecord) (b : UInt64) : Decidable (r.ListsHot b) :=
  match h : r.env.listing with
  | none => isTrue fun l hl => by simp [h] at hl
  | some l =>
    decidable_of_iff (b ∈ l.blocks ∧
      ((r.env.block b).state = .ok .hot ∨ (r.env.block b).state = .ok .hotCleanupNeeded))
      (by simp [RunRecord.ListsHot, h])

structure ScrubHistory where
  checkpoint : Option UInt64
  /-- the runs since the last that returned nil, the latest first -/
  since : List RunRecord
  /-- the periods that a run returning nil ended -/
  periods : List (List RunRecord)

def ScrubHistory.start : ScrubHistory := ⟨none, [], []⟩

/-- A run, cut behind its first actions if the process dies in it. -/
structure DeepRun where
  env : RunEnv
  cut : Option Nat

def DeepRun.actions (run : DeepRun) (checkpoint : Option UInt64) : List ScrubAction :=
  match run.cut with
  | none => (runOnce checkpoint run.env).1
  | some n => (runOnce checkpoint run.env).1.take n

def DeepRun.returnsNil (run : DeepRun) (checkpoint : Option UInt64) : Bool :=
  run.cut.isNone && (runOnce checkpoint run.env).2.isOk

def DeepRun.disk (run : DeepRun) (checkpoint : Option UInt64) : ScrubDisk :=
  runSteps ScrubAction.run (run.actions checkpoint) ⟨checkpoint, []⟩

def DeepRun.record (run : DeepRun) (checkpoint : Option UInt64) : RunRecord :=
  ⟨run.env, (run.disk checkpoint).verified⟩

def DeepRun.step (run : DeepRun) (h : ScrubHistory) : ScrubHistory :=
  let period := run.record h.checkpoint :: h.since
  if run.returnsNil h.checkpoint then
    ⟨(run.disk h.checkpoint).checkpoint, [], period :: h.periods⟩
  else ⟨(run.disk h.checkpoint).checkpoint, period, h.periods⟩

def DeepRun.take (run : DeepRun) : EStateM ShardErr ScrubHistory Unit := modify run.step

/-! ## What a run covers -/

section OneRun

variable {b : UInt64} {e : BlockEnv}

theorem verifyOneBlock_actions (b : UInt64) (e : BlockEnv) :
    ScrubAction.verifyBlock b ∈ (verifyOneBlock b e).1 ∧
      ∀ a ∈ (verifyOneBlock b e).1, a = .verifyBlock b := by
  unfold verifyOneBlock
  split <;> simp

theorem scrubOneBlock_actions {a : ScrubAction} (ha : a ∈ (scrubOneBlock b e).1) :
    a = .verifyBlock b := by
  unfold scrubOneBlock at ha
  split at ha
  · cases ha
  split at ha
  all_goals first
    | cases ha
    | (split at ha
       · cases ha
       · exact (verifyOneBlock_actions b e).2 a ha)

theorem scrubOneBlock_hot {quarantined : Bool} (h : (scrubOneBlock b e).2 = .ok quarantined)
    (hhot : e.state = .ok .hot ∨ e.state = .ok .hotCleanupNeeded) :
    .verifyBlock b ∈ (scrubOneBlock b e).1 := by
  have hpause : e.pauseErr = false := by
    cases hp : e.pauseErr with
    | false => rfl
    | true => simp [scrubOneBlock, hp] at h
  have hbudget : e.ioBudgetErr = false := by
    cases hb : e.ioBudgetErr with
    | false => rfl
    | true => rcases hhot with hst | hst <;> simp [scrubOneBlock, hpause, hst, hb] at h
  have heq : scrubOneBlock b e = verifyOneBlock b e := by
    rcases hhot with hst | hst <;> simp [scrubOneBlock, hpause, hst, hbudget]
  rw [heq]
  exact (verifyOneBlock_actions b e).1

theorem runSteps_verify {actions : List ScrubAction} (h : ∀ a ∈ actions, a = .verifyBlock b)
    (d : ScrubDisk) :
    runSteps ScrubAction.run actions d =
      ⟨d.checkpoint, List.replicate actions.length b ++ d.verified⟩ := by
  induction actions generalizing d with
  | nil => rfl
  | cons a actions ih =>
    obtain rfl := h a List.mem_cons_self
    rw [runSteps_cons, ih (fun a' ha' => h a' (List.mem_cons_of_mem _ ha'))]
    simp [ScrubAction.run, List.replicate_succ']

end OneRun

variable {checkpoint : Option UInt64} {d : ScrubDisk} {b : UInt64}

section Coverage

/- `due` are the Blocks that must be covered, `before` those that earlier runs have passed. -/
variable {due before : UInt64 → Prop} {env : UInt64 → BlockEnv}

/-- Every due Block up to the checkpoint has been passed to `VerifyBlock`. -/
def ScrubDisk.Covers (due before : UInt64 → Prop) (d : ScrubDisk) : Prop :=
  ∀ last, d.checkpoint = some last → last ≠ 0 → ∀ b, b ≤ last → due b → before b ∨ b ∈ d.verified

/-- Every due Block has been passed, or is to come. -/
def ScrubDisk.Awaits (due before : UInt64 → Prop) (todo : List UInt64) (d : ScrubDisk) : Prop :=
  ∀ b, due b → b ∈ todo ∨ before b ∨ b ∈ d.verified

theorem ScrubDisk.Covers.more {d' : ScrubDisk} (h : d.Covers due before)
    (hcp : d'.checkpoint = d.checkpoint) (hsub : d.verified ⊆ d'.verified) :
    d'.Covers due before := by
  intro last hlast hne b hb hdue
  exact (h last (hcp ▸ hlast) hne b hb hdue).imp_right (fun hm => hsub hm)

theorem ScrubDisk.Covers.verify (h : d.Covers due before) {actions : List ScrubAction}
    (ha : ∀ a ∈ actions, a = .verifyBlock b) :
    Stands ScrubAction.run (ScrubDisk.Covers due before) actions d := by
  intro n
  rw [runSteps_verify (fun a hm => ha a (List.mem_of_mem_take hm))]
  exact h.more rfl (List.subset_append_right _ _)

/-- The step of the loop: behind the save of the first Block, the due Blocks up to it have been
passed, the others not being below it. -/
theorem ScrubDisk.Awaits.save {rest : List UInt64} (h : d.Awaits due before (b :: rest))
    (hsorted : ∀ x ∈ rest, b ≤ x) (hb : due b → b ∈ d.verified) :
    (ScrubAction.run (.saveCheckpoint b) d).Covers due before ∧
      (ScrubAction.run (.saveCheckpoint b) d).Awaits due before rest := by
  constructor
  · intro last hlast _ x hx hdue
    cases hlast
    rcases h x hdue with hx' | hdone
    · rcases List.mem_cons.mp hx' with rfl | hrest
      · exact .inr (hb hdue)
      · obtain rfl := UInt64.le_antisymm hx (hsorted x hrest)
        exact .inr (hb hdue)
    · exact hdone
  · intro x hdue
    rcases h x hdue with hx' | hdone
    · rcases List.mem_cons.mp hx' with rfl | hrest
      · exact .inr (.inr (hb hdue))
      · exact .inl hrest
    · exact .inr hdone

/-- The loop, by induction on the Blocks to go. -/
theorem scrubBlocks_covers
    (hhot : ∀ b, due b → (env b).state = .ok .hot ∨ (env b).state = .ok .hotCleanupNeeded) :
    ∀ (todo : List UInt64) (d : ScrubDisk), todo.Pairwise (· ≤ ·) → d.Covers due before →
      d.Awaits due before todo →
      Stands ScrubAction.run (ScrubDisk.Covers due before) (scrubBlocks env todo).1 d ∧
        ((scrubBlocks env todo).2 = .ok () →
          (runSteps ScrubAction.run (scrubBlocks env todo).1 d).Awaits due before [])
  | [], d, _, hcov, hawait => ⟨stands_nil.mpr hcov, fun _ => hawait⟩
  | b :: rest, d, hsorted, hcov, hawait => by
    obtain ⟨hfirst, hrest⟩ := List.pairwise_cons.mp hsorted
    rw [scrubBlocks]
    by_cases hctx : (env b).canceled = true
    · rw [if_pos hctx]
      exact ⟨stands_nil.mpr hcov, nofun⟩
    rw [if_neg hctx]
    have hverify : ∀ a ∈ (scrubOneBlock b (env b)).1, a = .verifyBlock b :=
      fun a ha => scrubOneBlock_actions ha
    cases hone : scrubOneBlock b (env b) with
    | mk actions result =>
      rw [hone] at hverify
      cases result with
      | error err => exact ⟨hcov.verify hverify, nofun⟩
      | ok quarantined => ?_
      -- the disk behind the Block, before its save
      have hpassed : due b → b ∈ (runSteps ScrubAction.run actions d).verified := by
        intro hdue
        have hmem := scrubOneBlock_hot (by rw [hone]) (hhot b hdue)
        rw [hone] at hmem
        rw [runSteps_verify hverify]
        exact List.mem_append_left _
          (List.mem_replicate.mpr ⟨List.length_pos_of_mem hmem |>.ne', rfl⟩)
      have hmid : (runSteps ScrubAction.run actions d).Awaits due before (b :: rest) := by
        intro x hdue
        rw [runSteps_verify hverify]
        exact (hawait x hdue).imp_right (·.imp_right (List.mem_append_right _))
      have hmidcov := hcov.verify hverify actions.length
      rw [List.take_length] at hmidcov
      obtain ⟨hsaved, hnext⟩ := hmid.save hfirst hpassed
      obtain ⟨hstands, hend⟩ := scrubBlocks_covers hhot rest _ hrest hsaved hnext
      refine ⟨stands_append (hcov.verify hverify) fun _ =>
        stands_cons.mpr ⟨hmidcov, hstands⟩, fun hok => ?_⟩
      rw [runSteps, List.foldl_append]
      exact hend hok

theorem filterFromCheckpoint_drops (checkpoint : Option UInt64) {blocks : List UInt64}
    (hb : b ∈ blocks) : b ∈ filterFromCheckpoint checkpoint blocks ∨
      ∃ last, checkpoint = some last ∧ last ≠ 0 ∧ b ≤ last := by
  cases checkpoint with
  | none => exact .inl hb
  | some last => ?_
  by_cases h0 : last = 0
  · left
    simpa [filterFromCheckpoint, h0] using hb
  rw [← List.takeWhile_append_dropWhile (p := fun b => decide (b ≤ last)) (l := blocks),
    List.mem_append] at hb
  rcases hb with htaken | hleft
  · have hle := List.mem_takeWhile_imp htaken
    exact .inr ⟨last, rfl, h0, of_decide_eq_true hle⟩
  · left
    simpa [filterFromCheckpoint, h0] using hleft

theorem filterFromCheckpoint_sublist (checkpoint : Option UInt64) (blocks : List UInt64) :
    (filterFromCheckpoint checkpoint blocks).Sublist blocks := by
  cases checkpoint with
  | none => exact List.Sublist.refl _
  | some last => ?_
  by_cases h0 : last = 0
  · simp [filterFromCheckpoint, h0]
  · simpa [filterFromCheckpoint, h0] using List.dropWhile_sublist _

theorem ScrubListing.blocks_sorted (l : ScrubListing) : l.blocks.Pairwise (· ≤ ·) :=
  List.pairwise_insertionSort _ _

theorem runOnce_cases (checkpoint : Option UInt64) (run : RunEnv) :
    (run.listing = none ∧ runOnce checkpoint run = ([], .error .listBlocks)) ∨
    ∃ l actions, run.listing = some l ∧
      ((∃ err, scrubBlocks run.block (filterFromCheckpoint checkpoint l.blocks) =
          (actions, .error err) ∧ runOnce checkpoint run = (actions, .error err)) ∨
        (scrubBlocks run.block (filterFromCheckpoint checkpoint l.blocks) = (actions, .ok ()) ∧
          runOnce checkpoint run = (actions ++ [.clearCheckpoint], .ok ()))) := by
  cases hl : run.listing with
  | none => exact .inl ⟨rfl, by simp only [runOnce, hl]⟩
  | some l => ?_
  right
  cases hblocks : scrubBlocks run.block (filterFromCheckpoint checkpoint l.blocks) with
  | mk actions result =>
    refine ⟨l, actions, rfl, ?_⟩
    cases result with
    | error err => exact .inl ⟨err, hblocks, by simp only [runOnce, hl, hblocks]⟩
    | ok u => exact .inr ⟨hblocks, by simp only [runOnce, hl, hblocks]⟩

theorem runOnce_clears {run : RunEnv} (h : (runOnce checkpoint run).2 = .ok ()) (d : ScrubDisk) :
    (runSteps ScrubAction.run (runOnce checkpoint run).1 d).checkpoint = none := by
  obtain ⟨-, heq⟩ | ⟨l, actions, -, ⟨err, -, heq⟩ | ⟨-, heq⟩⟩ := runOnce_cases checkpoint run
  · rw [heq] at h
    cases h
  · rw [heq] at h
    cases h
  · rw [heq, runSteps, List.foldl_append]
    rfl

/-- A run: wherever it is cut, the due Blocks up to the checkpoint have been passed; all of them, if
it returns nil. -/
theorem runOnce_covers {run : RunEnv} (hcov : ScrubDisk.Covers due before ⟨checkpoint, []⟩)
    (hdue : ∀ b l, due b → run.listing = some l → b ∈ l.blocks ∧
      ((run.block b).state = .ok .hot ∨ (run.block b).state = .ok .hotCleanupNeeded)) :
    Stands ScrubAction.run (ScrubDisk.Covers due before) (runOnce checkpoint run).1 ⟨checkpoint, []⟩ ∧
      ((runOnce checkpoint run).2 = .ok () →
        (runSteps ScrubAction.run (runOnce checkpoint run).1 ⟨checkpoint, []⟩).Awaits due before []) := by
  obtain ⟨-, heq⟩ | ⟨l, actions, hl, hrest⟩ := runOnce_cases checkpoint run
  · rw [heq]
    exact ⟨stands_nil.mpr hcov, nofun⟩
  have hawait : ScrubDisk.Awaits due before (filterFromCheckpoint checkpoint l.blocks)
      ⟨checkpoint, []⟩ := by
    intro b hb
    rcases filterFromCheckpoint_drops checkpoint (hdue b l hb hl).1 with
      htodo | ⟨last, hlast, hne, hle⟩
    · exact .inl htodo
    · exact .inr (hcov last hlast hne b hle hb)
  obtain ⟨hstands, hend⟩ := scrubBlocks_covers (fun b hb => (hdue b l hb hl).2) _ _
    (l.blocks_sorted.sublist (filterFromCheckpoint_sublist checkpoint l.blocks)) hcov hawait
  obtain ⟨err, hblocks, heq⟩ | ⟨hblocks, heq⟩ := hrest
  · rw [hblocks] at hstands
    rw [heq]
    exact ⟨hstands, nofun⟩
  · rw [hblocks] at hstands hend
    rw [heq]
    refine ⟨stands_append hstands fun hlast => stands_cons.mpr ⟨hlast, stands_nil.mpr ?_⟩,
      fun _ => ?_⟩
    · intro last hcleared
      exact absurd hcleared (by simp [ScrubAction.run])
    · rw [runSteps, List.foldl_append]
      exact hend rfl

end Coverage

/-! ## Periods -/

def Passed (runs : List RunRecord) (b : UInt64) : Prop := ∃ r ∈ runs, b ∈ r.verified

def AlwaysHot (runs : List RunRecord) (b : UInt64) : Prop := ∀ r ∈ runs, r.ListsHot b

instance (runs : List RunRecord) (b : UInt64) : Decidable (AlwaysHot runs b) :=
  inferInstanceAs (Decidable (∀ r ∈ runs, r.ListsHot b))

structure ScrubHistory.Covering (h : ScrubHistory) : Prop where
  checkpoint : ScrubDisk.Covers (AlwaysHot h.since) (Passed h.since) ⟨h.checkpoint, []⟩
  periods : ∀ period ∈ h.periods, ∀ b, AlwaysHot period b → Passed period b

section OneStep

variable {h : ScrubHistory} {run : DeepRun}

theorem ScrubHistory.Covering.runOnce (hc : h.Covering) (run : DeepRun) :
    Stands ScrubAction.run
        (ScrubDisk.Covers (AlwaysHot (run.record h.checkpoint :: h.since)) (Passed h.since))
        (runOnce h.checkpoint run.env).1 ⟨h.checkpoint, []⟩ ∧
      ((Scrap.runOnce h.checkpoint run.env).2 = .ok () →
        (runSteps ScrubAction.run (Scrap.runOnce h.checkpoint run.env).1 ⟨h.checkpoint, []⟩).Awaits
          (AlwaysHot (run.record h.checkpoint :: h.since)) (Passed h.since) []) := by
  apply runOnce_covers
  · intro last hlast hne b hle hb
    exact hc.checkpoint last hlast hne b hle (fun r hr => hb r (List.mem_cons_of_mem _ hr))
  · exact fun b l hb hl => hb _ List.mem_cons_self l hl

namespace DeepRun

theorem disk_covers (hc : h.Covering) (run : DeepRun) :
    (run.disk h.checkpoint).Covers (AlwaysHot (run.record h.checkpoint :: h.since))
      (Passed h.since) := by
  have hstands := (hc.runOnce run).1
  unfold disk actions
  cases run.cut with
  | none =>
    have hall := hstands (runOnce h.checkpoint run.env).1.length
    rwa [List.take_length] at hall
  | some n => exact hstands n

theorem of_returnsNil (hnil : run.returnsNil checkpoint = true) :
    (runOnce checkpoint run.env).2 = .ok () ∧ run.disk checkpoint =
        runSteps ScrubAction.run (runOnce checkpoint run.env).1 ⟨checkpoint, []⟩ := by
  obtain ⟨hcut, hok⟩ := (Bool.and_eq_true _ _).mp hnil
  constructor
  · cases hr : (runOnce checkpoint run.env).2 with
    | ok u => rfl
    | error err => simp [hr, Except.toBool] at hok
  · rw [disk, actions, Option.isNone_iff_eq_none.mp hcut]

theorem passed {since : List RunRecord}
    (hb : Passed since b ∨ b ∈ (run.disk checkpoint).verified) :
    Passed (run.record checkpoint :: since) b := by
  obtain ⟨r, hr, hrb⟩ | hb := hb
  · exact ⟨r, List.mem_cons_of_mem _ hr, hrb⟩
  · exact ⟨_, List.mem_cons_self, hb⟩

theorem step_covering (hc : h.Covering) (run : DeepRun) : (run.step h).Covering := by
  unfold step
  by_cases hnil : run.returnsNil h.checkpoint = true
  · rw [if_pos hnil]
    obtain ⟨hok, hdisk⟩ := of_returnsNil hnil
    have hall := (hc.runOnce run).2 hok
    rw [← hdisk] at hall
    have hclear : (run.disk h.checkpoint).checkpoint = none := hdisk ▸ runOnce_clears hok _
    refine ⟨fun last hlast => absurd (hclear.symm.trans hlast) (by simp), fun p hp => ?_⟩
    rcases List.mem_cons.mp hp with rfl | hp
    · intro b hb
      rcases hall b hb with hnone | hdone
      · cases hnone
      · exact passed hdone
    · exact hc.periods p hp
  · rw [if_neg hnil]
    refine ⟨fun last hlast hne b hle hb => ?_, hc.periods⟩
    exact .inl (passed (disk_covers hc run last hlast hne b hle hb))

end DeepRun

end OneStep

/-- In every sequence of runs, also cut and failing ones, the runs of a period that one returning
nil ended have passed every Block to `VerifyBlock` that was listed and Hot in all of them. -/
theorem period_passes_hot_blocks {runs : List DeepRun} {h : ScrubHistory}
    (hrun : (runAll DeepRun.take runs).run ScrubHistory.start = .ok () h) :
    ∀ period ∈ h.periods, ∀ b, AlwaysHot period b → Passed period b := by
  have hstart : ScrubHistory.start.Covering := ⟨nofun, nofun⟩
  have hinv : ScrubHistory.Covering h := by
    refine runAll_invariant (P := fun _ g => ScrubHistory.Covering g) hstart ?_ hrun
    intro l run g g' hg hstep
    cases hstep
    exact DeepRun.step_covering hg run
  exact hinv.periods

def cleanBlock : BlockEnv := ⟨false, false, .ok .hot, false, .ok ⟨[], 1⟩, .ok ⟨[], 1⟩, false⟩

def canceledAtTwo : RunEnv :=
  ⟨some ⟨[3, 1, 2, 4], [], 4⟩, fun b => if b = 2 then { cleanBlock with canceled := true } else cleanBlock⟩

/-- Block `4` is closed by now. -/
def cleanRun : RunEnv := ⟨some ⟨[1, 2, 3, 4, 5], [], 5⟩, fun _ => cleanBlock⟩

/-- A run canceled at Block `2`, one that dies behind its save, and one to the end, which takes up
only the Blocks behind the checkpoint. -/
def interruptedRuns : List DeepRun := [⟨canceledAtTwo, none⟩, ⟨cleanRun, some 2⟩, ⟨cleanRun, none⟩]

theorem period_passes_hot_blocks_resumed : ∃ h period,
    (runAll DeepRun.take interruptedRuns).run ScrubHistory.start = .ok () h ∧
    h.periods = [period] ∧ period.map (·.verified) = [[4, 3], [2], [1]] ∧
    (∀ b ∈ [1, 2, 3], AlwaysHot period b) ∧ ∀ b, AlwaysHot period b → Passed period b := by
  have hrun := outcome_ok_iff.mp
    (show outcome (runAll DeepRun.take interruptedRuns) ScrubHistory.start = .ok () from rfl)
  refine ⟨_, _, hrun, rfl, by decide +kernel, ?_,
    period_passes_hot_blocks hrun _ (List.mem_singleton_self _)⟩
  refine List.forall_mem_cons.mpr ⟨by decide +kernel, ?_⟩
  refine List.forall_mem_cons.mpr ⟨by decide +kernel, ?_⟩
  exact List.forall_mem_singleton.mpr (by decide +kernel)

end Scrap
