/-
# The files of a quarantined Block

Quarantine, Unquarantine and the two repairs move the files of a Block one at a time, and any of
them can be cut between two moves, or undo its first move when the second one fails.

* A Block is to be found at any time: listed for repair by its `.blk.quarantine`, or with both final
  files. Quarantine moves the `.blk` first for that. Unquarantine does so as well, and a crash
  behind it leaves a `.blk` that nothing knows of (`unquarantine_cut_loses_block`).
* A repair from the Backend removes the quarantined files before it writes the restore marker; in
  between the Block is neither listed nor pending for a scan (`repair_cut_unscanned`), unless an
  earlier restore of it is.
-/
import Scrap.Shard.Quarantine
import Scrap.Shard.RestoreScan

namespace Scrap

open Block Crash

inductive MoveStep where
  | quarantineBlk
  | quarantineIdx
  | unquarantineBlk
  | unquarantineIdx
  /-- a verified replacement is renamed into place -/
  | promoteBlk (f : BlkFile)
  | promoteIdx (g : IdxFile)
  | removeBlk
  | removeIdx
  | removeQuarantinedBlk
  | removeQuarantinedIdx
  | file (step : FileStep)

@[simp] def MoveStep.run : MoveStep → LocalBlock → LocalBlock
  | .quarantineBlk, l =>
    { l with files := { l.files with blk := none, blkQuarantine := l.files.blk } }
  | .quarantineIdx, l =>
    { l with files := { l.files with idx := none, idxQuarantine := l.files.idx } }
  | .unquarantineBlk, l =>
    { l with files := { l.files with blk := l.files.blkQuarantine, blkQuarantine := none } }
  | .unquarantineIdx, l =>
    { l with files := { l.files with idx := l.files.idxQuarantine, idxQuarantine := none } }
  | .promoteBlk f, l => { l with files := { l.files with blk := some f }, restored := true }
  | .promoteIdx g, l => { l with files := { l.files with idx := some g } }
  | .removeBlk, l => { l with files := { l.files with blk := none }, restored := false }
  | .removeIdx, l => { l with files := { l.files with idx := none } }
  | .removeQuarantinedBlk, l => { l with files := { l.files with blkQuarantine := none } }
  | .removeQuarantinedIdx, l => { l with files := { l.files with idxQuarantine := none } }
  | .file step, l => step.run l

/-! ## Quarantine, Unquarantine and the repair from a peer -/

def quarantineSteps (l : LocalBlock) : List MoveStep :=
  if l.files.blk = none then [] else
    if l.files.idx = none then [.quarantineBlk] else [.quarantineBlk, .quarantineIdx]

def unquarantineSteps (l : LocalBlock) : List MoveStep :=
  if l.files.blkQuarantine = none ∨ l.files.blk ≠ none ∨ l.files.idx ≠ none then [] else
    if l.files.idxQuarantine = none then [.unquarantineBlk]
    else [.unquarantineBlk, .unquarantineIdx]

/-- `repairFromPeer` from the promotion on; the marker is `none` when it could not be written. -/
def peerRepairSteps (f : BlkFile) (g : IdxFile) (marker : Option RestoreMarker) : List MoveStep :=
  [.promoteBlk f, .promoteIdx g] ++ marker.toList.map (.file ∘ .writeRestoreMarker) ++
    [.removeQuarantinedBlk, .removeQuarantinedIdx]

/-- The steps of an operation, also of one that undoes its first step as the second one fails. -/
inductive MoveOp (l : LocalBlock) : List MoveStep → Prop
  | quarantine : MoveOp l (quarantineSteps l)
  | quarantineUndone : l.files.blk ≠ none → l.files.idx ≠ none →
      MoveOp l [.quarantineBlk, .unquarantineBlk]
  | repair (f : BlkFile) (g : IdxFile) (marker : Option RestoreMarker) :
      l.files.blkQuarantine ≠ none → MoveOp l (peerRepairSteps f g marker)
  | repairUndone (f : BlkFile) : l.files.blkQuarantine ≠ none → MoveOp l [.promoteBlk f, .removeBlk]

/-- The states found when no Unquarantine is cut: one whose second rename fails is back where it
began. -/
inductive Moved (start : LocalBlock) : LocalBlock → Prop
  | start : Moved start start
  | cut {l : LocalBlock} {steps : List MoveStep} (n : Nat) : Moved start l → MoveOp l steps →
      Moved start (runSteps MoveStep.run (steps.take n) l)
  | unquarantine {l : LocalBlock} : Moved start l →
      Moved start (runSteps MoveStep.run (unquarantineSteps l) l)

@[simp] def LocalBlock.Found (l : LocalBlock) : Prop :=
  l.files.blkQuarantine ≠ none ∨ l.files.blk ≠ none ∧ l.files.idx ≠ none

/-- The Block is found, and it has an index on one side or the other. -/
@[simp] def LocalBlock.Kept (l : LocalBlock) : Prop :=
  l.Found ∧ (l.files.idx ≠ none ∨ l.files.idxQuarantine ≠ none)

section Moves

variable {l start : LocalBlock} {b : UInt64} {f : BlkFile} {g : IdxFile}

/-- Every prefix of an operation: the `.blk` leaves one place only when the other has it. -/
theorem MoveOp.kept {steps : List MoveStep} (h : MoveOp l steps) (hl : l.Kept) :
    Stands MoveStep.run LocalBlock.Kept steps l := by
  obtain ⟨⟨blk, idx, blkQ, idxQ, evicted, authority⟩, marker, scan, restored⟩ := l
  cases h with
  | quarantine =>
    unfold quarantineSteps
    cases blk <;> cases idx <;>
      simp_all [stands_cons, stands_nil]
  | quarantineUndone hblk hidx => simp_all [stands_cons, stands_nil]
  | repair f g marker hq =>
    cases marker <;> simp_all [peerRepairSteps, stands_cons, stands_nil, FileStep.run]
  | repairUndone f hq => simp_all [stands_cons, stands_nil]

theorem unquarantineSteps_kept (hl : l.Kept) :
    (runSteps MoveStep.run (unquarantineSteps l) l).Kept := by
  obtain ⟨⟨blk, idx, blkQ, idxQ, evicted, authority⟩, marker, scan, restored⟩ := l
  unfold unquarantineSteps
  cases blk <;> cases idx <;> cases blkQ <;> cases idxQ <;>
    simp_all

theorem Moved.kept (h : Moved start l) (hstart : start.Kept) : l.Kept := by
  induction h with
  | start => exact hstart
  | cut n _ hop ih => exact hop.kept ih n
  | unquarantine _ ih => exact unquarantineSteps_kept ih

theorem unquarantineSteps_free (h : unquarantineSteps l ≠ []) :
    l.files.blk = none ∧ l.files.idx = none := by
  unfold unquarantineSteps at h
  split at h
  · exact absurd rfl h
  · rename_i hfree
    push Not at hfree
    exact hfree.2

/-- A Block with both files is found at any time, unless an Unquarantine is cut; and an Unquarantine
takes a step only where neither final file is there. -/
theorem quarantined_block_found (hblk : start.files.blk ≠ none) (hidx : start.files.idx ≠ none)
    (h : Moved start l) :
    l.Found ∧ (unquarantineSteps l ≠ [] → l.files.blk = none ∧ l.files.idx = none) :=
  ⟨(h.kept ⟨.inr ⟨hblk, hidx⟩, .inl hidx⟩).1, unquarantineSteps_free⟩

end Moves

theorem quarantineSteps_whole {l : LocalBlock} {files : BlockFiles}
    (h : l.files.quarantine = .ok files) :
    runSteps MoveStep.run (quarantineSteps l) l = { l with files := files } := by
  obtain ⟨⟨blk, idx, blkQ, idxQ, evicted, authority⟩, marker, scan, restored⟩ := l
  cases blk <;> cases idx <;> cases h <;> rfl

theorem unquarantineSteps_whole {l : LocalBlock} {files : BlockFiles}
    (h : l.files.unquarantine = .ok files) :
    runSteps MoveStep.run (unquarantineSteps l) l = { l with files := files } := by
  obtain ⟨⟨blk, idx, blkQ, idxQ, evicted, authority⟩, marker, scan, restored⟩ := l
  cases blkQ <;> cases blk <;> cases idx <;> cases idxQ <;> cases h <;> rfl

def healthyBlock : LocalBlock :=
  ⟨{ BlockFiles.absent with blk := some ⟨[], 0⟩, idx := some ⟨[], false⟩ }, none, none, false⟩

def LocalBlock.quarantined (l : LocalBlock) : LocalBlock :=
  runSteps MoveStep.run (quarantineSteps l) l

theorem quarantined_block_found_cut :
    (runSteps MoveStep.run ((quarantineSteps healthyBlock).take 1) healthyBlock).Found :=
  (quarantined_block_found (by decide) (by decide) (Moved.start.cut 1 .quarantine)).1

/-- Behind the first rename of an Unquarantine the Block has a `.blk` and nothing else that names
it. -/
theorem unquarantine_cut_loses_block :
    healthyBlock.files.blk ≠ none ∧ healthyBlock.files.idx ≠ none ∧
      ¬ (runSteps MoveStep.run ((unquarantineSteps healthyBlock.quarantined).take 1)
        healthyBlock.quarantined).Found := by
  refine ⟨nofun, nofun, ?_⟩
  unfold LocalBlock.Found
  decide

/-! ## The repair from the Backend -/

section Repair

variable {l : LocalBlock} {b : UInt64} {f : BlkFile} {g : IdxFile} {nowUs : Int}

def backendRepairMarker (nowUs : Int) : RestoreMarker := ⟨markerVersion, 0, nowUs, "backend", "repair"⟩

/-- `publishVerifiedRepairRestore`, file by file. -/
def publishRepairedSteps (b : UInt64) (f : BlkFile) (g : IdxFile) (nowUs : Int) : List MoveStep :=
  [.promoteBlk f, .promoteIdx g, .removeQuarantinedBlk, .removeQuarantinedIdx] ++
    (recordSuccessfulRestore b (backendRepairMarker nowUs)).map .file

theorem publishRepairedSteps_whole : runSteps MoveStep.run (publishRepairedSteps b f g nowUs) l =
    runSteps RestoreStep.run (publishRepairRestore b f g (backendRepairMarker nowUs)) l := by
  unfold publishRepairedSteps publishRepairRestore recordSuccessfulRestore
  dsimp only
  split <;> rfl

/-- The Block is listed, and the next repair finds the files it demands. -/
@[simp] def LocalBlock.Repairable (l : LocalBlock) : Prop :=
  l.files.blkQuarantine ≠ none ∧ l.files.idxQuarantine ≠ none

/-- The Block has the verified files and is to be scanned. -/
def LocalBlock.Repaired (b : UInt64) (f : BlkFile) (g : IdxFile) (l : LocalBlock) : Prop :=
  l.files.blk = some f ∧ l.files.idx = some g ∧ l.restorePendingScan b = true

/-- No valid scan record is one of a restore at this time. -/
def LocalBlock.Unscanned (b : UInt64) (nowUs : Int) (l : LocalBlock) : Prop :=
  ∀ record, l.restoreScanRecord = some record → validateRestoreScanRecord record b = .ok () →
    record.restoredAtUs ≠ nowUs

theorem validateRestoreMarker_repair (b : UInt64) (nowUs : Int) :
    validateRestoreMarker { backendRepairMarker nowUs with blockID := b } b = .ok () ↔
      b ≠ 0 ∧ 0 < nowUs := by
  unfold validateRestoreMarker
  by_cases hb : b = 0 <;> by_cases hnow : nowUs ≤ 0 <;>
    simp [backendRepairMarker, hb, hnow, ← Int.not_le]

theorem restorePendingScan_marked (hvalid : b ≠ 0 ∧ 0 < nowUs)
    (hmarker : l.restoreMarker = some { backendRepairMarker nowUs with blockID := b }) :
    l.restorePendingScan b = true ↔ l.Unscanned b nowUs := by
  unfold LocalBlock.restorePendingScan LocalBlock.Unscanned
  simp only [hmarker, (validateRestoreMarker_repair b nowUs).mpr hvalid]
  cases l.restoreScanRecord with
  | none => simp
  | some record => ?_
  cases hrecord : validateRestoreScanRecord record b with
  | error err => simp [hrecord]
  | ok u =>
    simp only [hrecord, Option.some.injEq, forall_eq', forall_const]
    exact decide_eq_true_iff

theorem recordSuccessfulRestore_repair (b : UInt64) (nowUs : Int) :
    recordSuccessfulRestore b (backendRepairMarker nowUs) = if b ≠ 0 ∧ 0 < nowUs then
      [.writeRestoreMarker { backendRepairMarker nowUs with blockID := b }, .removeEvictionMarker]
      else [] := by
  have hiff := validateRestoreMarker_repair b nowUs
  unfold recordSuccessfulRestore
  dsimp only
  split
  next err herr => rw [if_neg fun h => nomatch herr.symm.trans (hiff.mpr h)]
  next hok => rw [if_pos (hiff.mp hok)]; rfl

/-- What a repair has done behind the removal of the first quarantined file. -/
theorem publishRepairedSteps_take (b : UInt64) (f : BlkFile) (g : IdxFile) (nowUs : Int)
    (l : LocalBlock) {n : Nat} (hn : 2 < n) :
    let t := runSteps MoveStep.run ((publishRepairedSteps b f g nowUs).take n) l
    t.files.blk = some f ∧ t.files.idx = some g ∧ t.files.blkQuarantine = none ∧
      t.restoreScanRecord = l.restoreScanRecord ∧
      t.restoreMarker = if b ≠ 0 ∧ 0 < nowUs ∧ 5 ≤ n then
        some { backendRepairMarker nowUs with blockID := b } else l.restoreMarker := by
  unfold publishRepairedSteps
  rw [recordSuccessfulRestore_repair]
  by_cases hvalid : b ≠ 0 ∧ 0 < nowUs
  · match n, hn with
    | 3, _ => simp
    | 4, _ => simp
    | 5, _ => simp [hvalid, FileStep.run]
    | n + 6, _ => simp [hvalid, FileStep.run]
  · match n, hn with
    | 3, _ => simp
    | n + 4, _ =>
      have hunmarked : ¬ (b ≠ 0 ∧ 0 < nowUs ∧ 5 ≤ n + 4) := fun h => hvalid ⟨h.1, h.2.1⟩
      rw [if_neg hvalid, if_neg hunmarked]
      simp

/-- A repair that ends behind `n` steps can be repeated until the first quarantined file is
removed. From there on it is complete if its marker is written and no scan record has the time of
it, and before that only if an earlier restore is still to be scanned. One that undoes its renames
can be repeated. -/
theorem repair_restore_ends (b : UInt64) (f : BlkFile) (g : IdxFile) (nowUs : Int)
    (hq : l.Repairable) :
    (∀ n, let t := runSteps MoveStep.run ((publishRepairedSteps b f g nowUs).take n) l
      (t.Repairable ↔ n ≤ 2) ∧
        (t.Repairable ∨ t.Repaired b f g ↔ n ≤ 2 ∨
          if b ≠ 0 ∧ 0 < nowUs ∧ 5 ≤ n then l.Unscanned b nowUs
          else l.restorePendingScan b = true)) ∧
      Stands MoveStep.run LocalBlock.Repairable [.promoteBlk f, .removeBlk] l ∧
      Stands MoveStep.run LocalBlock.Repairable
        [.promoteBlk f, .promoteIdx g, .removeIdx, .removeBlk] l := by
  refine ⟨fun n => ?_, stands_of_forall hq ?_, stands_of_forall hq ?_⟩
  · by_cases hn : n ≤ 2
    · have hrepairable : LocalBlock.Repairable
          (runSteps MoveStep.run ((publishRepairedSteps b f g nowUs).take n) l) := by
        match n, hn with
        | 0, _ => exact hq
        | 1, _ => exact hq
        | 2, _ => exact hq
      exact ⟨iff_of_true hrepairable hn, iff_of_true (.inl hrepairable) (.inl hn)⟩
    obtain ⟨hblk, hidx, hgone, hrecord, hmarker⟩ :=
      publishRepairedSteps_take b f g nowUs l (Nat.lt_of_not_le hn)
    have hnot : ¬ LocalBlock.Repairable
        (runSteps MoveStep.run ((publishRepairedSteps b f g nowUs).take n) l) := fun h => h.1 hgone
    refine ⟨iff_of_false hnot hn, ?_⟩
    simp only [hnot, hn, false_or, LocalBlock.Repaired, hblk, hidx, true_and]
    split_ifs at hmarker ⊢ with hmarked
    · rw [restorePendingScan_marked ⟨hmarked.1, hmarked.2.1⟩ hmarker, LocalBlock.Unscanned, hrecord]
      rfl
    · rw [LocalBlock.restorePendingScan, hmarker, hrecord]
      rfl
  · simp +contextual
  · simp +contextual

/-- Restored at `30` and quarantined again; the last scan is one of a restore at `20`. -/
def quarantinedAgain : LocalBlock :=
  { healthyBlock.quarantined with
    restoreMarker := some ⟨1, 1, 30, "backend", "repair"⟩
    restoreScanRecord := some ⟨1, 1, 20, 25⟩ }

theorem repair_restore_ends_whole :
    let cut := fun n => runSteps MoveStep.run
      ((publishRepairedSteps 1 ⟨[], 0⟩ ⟨[], false⟩ 50).take n) quarantinedAgain
    (cut 2).Repairable ∧ (cut 3).Repaired 1 ⟨[], 0⟩ ⟨[], false⟩ ∧
      (cut 6).Repaired 1 ⟨[], 0⟩ ⟨[], false⟩ := by
  have hq : quarantinedAgain.Repairable := ⟨nofun, nofun⟩
  have hall := (repair_restore_ends 1 ⟨[], 0⟩ ⟨[], false⟩ 50 hq).1
  refine ⟨(hall 2).1.mpr (by decide), ?_, ?_⟩
  · exact ((hall 3).2.mpr (.inr rfl)).resolve_left fun h => h.1 rfl
  · exact ((hall 6).2.mpr (.inr (by rintro record ⟨rfl⟩; decide))).resolve_left fun h => h.1 rfl

/-- Behind the removal of the quarantined `.blk` the Block is not listed, and not pending. -/
theorem repair_cut_unscanned :
    healthyBlock.quarantined.files.blkQuarantine ≠ none ∧
      let l := runSteps MoveStep.run ((publishRepairedSteps 1 ⟨[], 0⟩ ⟨[], false⟩ 50).take 3)
        healthyBlock.quarantined
      l.files.blkQuarantine = none ∧ l.restorePendingScan 1 = false := by
  decide

end Repair

end Scrap
