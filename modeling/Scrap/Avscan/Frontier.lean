/-
# What the frontier passes

The frontier of a scan run moves over the Block IDs that are completed and those that are not
listed. `C v b` is what the watermark is to say of Block `b` under version `v`, and
`Scheduler.Clears C` that it holds up to the durable watermark and of every completed Block. To
keep that, a run needs it of the unlisted IDs below the last listed one
(`Scheduler.Clears.startRun`) and of each Block whose scan succeeds (`Scheduler.Clears.scanNext`).
-/
import Scrap.Avscan.Scheduler

namespace Scrap.Avscan

def Scheduler.durable (s : Scheduler) : Progress := s.store.getD .zero

def Scheduler.version (s : Scheduler) : String := s.durable.lastSignatureVersionScanned

/-- `C` holds of what the scheduler has passed under the version `v`. -/
structure Scheduler.Passes (C : UInt64 → Prop) (v : String) (s : Scheduler) : Prop where
  enabled : s.enabled = true
  version : s.version = v
  passed : ∀ b, b ≤ s.durable.lastScannedBlockID → C b
  completed : ∀ b, s.completed b = true → C b

/-- The same of a run, which may be ahead of the durable watermark. -/
structure RunPasses (C : UInt64 → Prop) (v : String) (listing : Listing)
    (progress : RunProgressState) : Prop where
  enabled : progress.enabled = true
  version : progress.signatureVersion = v
  passed : ∀ b, b ≤ progress.frontier → C b
  unlisted : ∀ b, b ≤ maxListedBlockID listing.blocks → listing.listed b = false → C b

variable {blocks : List Block} {err : Option RunErr}

section Frontier

variable {C : UInt64 → Prop} {v : String} {s s' : Scheduler} {listing : Listing}
  {progress progress' : RunProgressState}

theorem Scheduler.Passes.withPhase (h : s.Passes C v) (phase : Phase) :
    Scheduler.Passes C v { s with phase } := { h with }

theorem Scheduler.Passes.clearIf (h : s.Passes C v) (progress : RunProgressState) :
    (s.clearIf progress).Passes C v := by
  unfold Scheduler.clearIf
  split
  · exact { h with completed := nofun }
  · exact h

theorem advanceFrontier_le (passes : UInt64 → Bool) (n : Nat) (f : UInt64) :
    (advanceFrontier passes n f).toNat ≤ f.toNat + n := by
  fun_induction advanceFrontier passes n f with
  | case1 => exact Nat.le_refl _
  | case2 n f _ ih =>
    have hsucc : (f + 1).toNat ≤ f.toNat + 1 := Nat.mod_le _ _
    omega
  | case3 => omega

/-- The frontier passes no ID behind the last listed one. -/
theorem Scheduler.advancedFrontier_passes (s : Scheduler) (listing : Listing) (f : UInt64)
    {b : UInt64} (hlt : f < b) (hb : b ≤ s.advancedFrontier listing f) :
    b ≤ maxListedBlockID listing.blocks ∧ (s.completed b = true ∨ listing.listed b = false) := by
  have hmax := (maxListedBlockID listing.blocks).toNat_lt
  have hf := f.toNat_lt
  have hend := advanceFrontier_le (fun next => s.completed next || !listing.listed next)
    ((maxListedBlockID listing.blocks).toNat - f.toNat) f
  obtain ⟨-, hall⟩ := advanceFrontier_spec (fun next => s.completed next || !listing.listed next)
    (n := (maxListedBlockID listing.blocks).toNat - f.toNat) (f := f) (by omega)
  refine ⟨?_, by simpa using hall b hlt hb⟩
  rw [UInt64.lt_iff_toNat_lt] at hlt
  rw [Scheduler.advancedFrontier, UInt64.le_iff_toNat_le] at hb
  rw [UInt64.le_iff_toNat_le]
  omega

theorem Scheduler.Passes.advance (h : s.Passes C v) (hrun : RunPasses C v listing progress)
    (fullPrune : Bool) :
    (s.advanceProgressFrontier listing progress fullPrune).2.Passes C v ∧
      RunPasses C v listing (s.advanceProgressFrontier listing progress fullPrune).1 := by
  refine ⟨{ h with completed := fun b hb => ?_ }, { hrun with passed := fun b hb => ?_ }⟩
  · simp only [Scheduler.advanceProgressFrontier, Scheduler.prune, Bool.and_eq_true] at hb
    exact h.completed b hb.1
  by_cases hold : b ≤ progress.frontier
  · exact hrun.passed b hold
  obtain ⟨hle, hdone | hnot⟩ := s.advancedFrontier_passes listing progress.frontier
    (UInt64.not_le.mp hold) hb
  · exact h.completed b hdone
  · exact hrun.unlisted b hle hnot

theorem Scheduler.Passes.save (h : s.Passes C v) {p : Progress}
    (hv : p.lastSignatureVersionScanned = v) (hf : ∀ b, b ≤ p.lastScannedBlockID → C b)
    (err : Option RunErr) : (s.save p err).2.Passes C v := by
  cases err with
  | some err => exact h
  | none => exact ⟨h.enabled, hv, hf, h.completed⟩

theorem Scheduler.Passes.persist (h : s.Passes C v) (hrun : RunPasses C v listing progress)
    {fullPrune : Bool} {saveErr : Option RunErr}
    (hr : s.persistAdvancedProgress listing progress fullPrune saveErr = (err, progress', s')) :
    s'.Passes C v ∧ RunPasses C v listing progress' := by
  unfold Scheduler.persistAdvancedProgress at hr
  rw [if_neg (by simp [hrun.enabled])] at hr
  obtain ⟨hs, hrun'⟩ := h.advance hrun fullPrune
  simp only at hr
  split at hr
  · cases hr
    exact ⟨hs, hrun'⟩
  · cases hr
    exact ⟨hs.save hrun'.version hrun'.passed saveErr, hrun'⟩

theorem Scheduler.Passes.scanOne (h : s.Passes C v) {env : BlockEnv} {block : Block}
    (hr : s.scanOne env block = (err, s')) (hC : err = none → C block.blockID) :
    s'.Passes C v := by
  unfold Scheduler.scanOne at hr
  split at hr
  · cases hr
    exact h
  split at hr
  · cases hr
    exact h
  cases hr
  refine { h with completed := fun b hb => ?_ }
  by_cases hblock : b = block.blockID
  · rw [hblock]
    exact hC rfl
  · simp only [Function.update_of_ne hblock] at hb
    exact h.completed b hb

theorem Scheduler.Passes.tryScanBlock (h : s.Passes C v) (hrun : RunPasses C v listing progress)
    {env : BlockEnv} {block : Block}
    (hr : s.tryScanBlock env listing progress block = (err, progress', s'))
    (hC : (s.scanOne env block).1 = none → C block.blockID) :
    s'.Passes C v ∧ RunPasses C v listing progress' := by
  unfold Scheduler.tryScanBlock at hr
  rcases hone : s.scanOne env block with ⟨err₁, s₁⟩
  have hs₁ := h.scanOne hone fun hnone => hC (by rw [hone, hnone])
  rw [hone] at hr
  cases err₁ with
  | some e =>
    cases hr
    exact ⟨hs₁, hrun⟩
  | none => exact hs₁.persist hrun hr

end Frontier

/-! ## The start of a run -/

section Start

variable {C : String → UInt64 → Prop} {s s' : Scheduler} {env : StartEnv} {listing : Listing}
  {progress : RunProgressState}

structure TakenOver (s : Scheduler) (progress : RunProgressState) : Prop where
  enabled : progress.enabled = true
  version : progress.signatureVersion = s.version
  frontier : progress.frontier = s.durable.lastScannedBlockID

@[simp] theorem Scheduler.clearIf_store (s : Scheduler) (progress : RunProgressState) :
    (s.clearIf progress).store = s.store := by
  unfold Scheduler.clearIf
  split <;> rfl

theorem Scheduler.version_of_store (h : s'.store = s.store) : s'.version = s.version := by
  rw [Scheduler.version, Scheduler.version, Scheduler.durable, Scheduler.durable, h]

theorem TakenOver.of_store (h : TakenOver s progress) (hstore : s'.store = s.store) :
    TakenOver s' progress := by
  refine ⟨h.enabled, h.version.trans (Scheduler.version_of_store hstore).symm, ?_⟩
  rw [h.frontier, Scheduler.durable, Scheduler.durable, hstore]

theorem TakenOver.runPasses (h : TakenOver s progress) (hs : s.Passes (C s.version) s.version)
    (hlist : ∀ b, b ≤ maxListedBlockID listing.blocks → listing.listed b = false →
      C s.version b) : RunPasses (C s.version) s.version listing progress :=
  ⟨h.enabled, h.version, fun b hb => hs.passed b (h.frontier ▸ hb), hlist⟩

theorem Scheduler.Passes.progressForRun (h : s.Passes (C s.version) s.version) (hzero : ∀ v, C v 0)
    {r : Except RunErr RunProgressState} (hr : s.progressForRun env = (r, s')) :
    (∀ err, r = .error err → s' = s) ∧ ∀ progress, r = .ok progress →
      (s'.clearIf progress).Passes (C s'.version) s'.version ∧ TakenOver s' progress := by
  rcases s.progressForRun_cases env with ⟨err, hc⟩ | ⟨hoff, -⟩ | ⟨-, current, -, ⟨heq, hc⟩ | hc⟩
  · cases hr.symm.trans hc
    exact ⟨fun _ _ => rfl, by simp⟩
  · rw [h.enabled] at hoff
    cases hoff
  · cases hr.symm.trans hc
    refine ⟨fun _ _ => rfl, fun progress hp => ?_⟩
    cases hp
    exact ⟨h.clearIf _, rfl, heq, rfl⟩
  · cases hr.symm.trans hc
    refine ⟨nofun, fun progress hp => ?_⟩
    cases hp
    refine ⟨⟨h.enabled, rfl, fun b hb => ?_, nofun⟩, rfl, rfl, rfl⟩
    obtain rfl : b = 0 := UInt64.le_antisymm hb UInt64.zero_le
    exact hzero _

theorem Scheduler.Passes.reconcile (h : s.Passes (C s.version) s.version) (hzero : ∀ v, C v 0)
    (htaken : TakenOver s progress) {r : Except RunErr RunProgressState}
    (hr : s.reconcileProgressWithBlocks env progress blocks = (r, s')) :
    s'.Passes (C s'.version) s'.version ∧ ∀ p, r = .ok p → TakenOver s' p := by
  unfold Scheduler.reconcileProgressWithBlocks at hr
  split at hr
  · cases hr
    exact ⟨h, fun p hp => Except.ok.inj hp ▸ htaken⟩
  split at hr
  · cases hr
    exact ⟨h, fun p hp => Except.ok.inj hp ▸ htaken⟩
  cases herr : env.reconcileErr with
  | some err =>
    simp only [herr] at hr
    cases hr
    exact ⟨h, by simp⟩
  | none =>
    simp only [herr] at hr
    cases hr
    have hsaved : Scheduler.version { s with
        store := some ⟨0, progress.signatureVersion⟩
        log := .saved ⟨0, progress.signatureVersion⟩ :: s.log } = s.version := htaken.version
    refine ⟨?_, fun p hp => ?_⟩
    · rw [hsaved]
      refine ⟨h.enabled, hsaved, fun b hb => ?_, h.completed⟩
      obtain rfl : b = 0 := UInt64.le_antisymm hb UInt64.zero_le
      exact hzero _
    · cases hp
      exact ⟨htaken.enabled, rfl, rfl⟩

theorem Scheduler.Passes.prepareScanRun (h : s.Passes (C s.version) s.version) (hzero : ∀ v, C v 0)
    {r : Except RunErr (RunProgressState × Listing)} (hr : s.prepareScanRun env = (r, s')) :
    s'.Passes (C s'.version) s'.version ∧
      ∀ progress listing, r = .ok (progress, listing) → TakenOver s' progress := by
  unfold Scheduler.prepareScanRun at hr
  rcases hpr : s.progressForRun env with ⟨r₁, s₁⟩
  obtain ⟨herr₁, hok₁⟩ := h.progressForRun hzero hpr
  rw [hpr] at hr
  cases r₁ with
  | error err =>
    cases hr
    obtain rfl := herr₁ err rfl
    exact ⟨h, nofun⟩
  | ok progress₁ =>
    obtain ⟨hs₁, htaken₁⟩ := hok₁ progress₁ rfl
    have hv₁ := Scheduler.version_of_store (s₁.clearIf_store progress₁)
    rw [← hv₁] at hs₁
    cases hlist : env.listing with
    | error err =>
      simp only [hlist] at hr
      cases hr
      exact ⟨hs₁, nofun⟩
    | ok listing =>
      simp only [hlist] at hr
      -- the listing of this run enters the log
      let s₂ : Scheduler := { s₁.clearIf progress₁ with
        log := .listed listing.blocks :: (s₁.clearIf progress₁).log }
      have hs₂ : s₂.Passes (C s₂.version) s₂.version := { hs₁ with }
      have htaken₂ : TakenOver s₂ progress₁ := htaken₁.of_store (s₁.clearIf_store progress₁)
      rcases hrec : s₂.reconcileProgressWithBlocks env progress₁ listing.blocks with ⟨r₃, s₃⟩
      obtain ⟨hs₃, hok₃⟩ := hs₂.reconcile hzero htaken₂ hrec
      rw [hrec] at hr
      cases r₃ with
      | error err =>
        cases hr
        exact ⟨hs₃, nofun⟩
      | ok progress₃ =>
        cases hr
        have hstore := s₃.clearIf_store progress₃
        refine ⟨?_, fun progress listing' hp => ?_⟩
        · rw [Scheduler.version_of_store hstore]
          exact hs₃.clearIf progress₃
        · cases Except.ok.inj hp
          exact (hok₃ progress₃ rfl).of_store hstore

theorem Scheduler.prepareScanRun_listing
    (h : s.prepareScanRun env = (.ok (progress, listing), s')) : env.listing = .ok listing := by
  unfold Scheduler.prepareScanRun at h
  split at h
  · cases h
  simp only at h
  split at h
  · cases h
  split at h
  · cases h
  · cases h
    assumption

theorem Scheduler.startRun_listing {env' : StartEnv}
    (h : (s.startRun env).phase = .scanning env' listing progress blocks err) :
    env.listing = .ok listing := by
  unfold Scheduler.startRun at h
  split at h
  · cases h
  split at h
  · cases h
  next hprep =>
    split at h
    · cases h
    · cases h
      exact Scheduler.prepareScanRun_listing hprep

theorem Scheduler.scanNext_listing {benv : BlockEnv}
    (h : (s.scanNext benv).phase = .scanning env listing progress blocks err) :
    ∃ progress' blocks' err', s.phase = .scanning env listing progress' blocks' err' := by
  unfold Scheduler.scanNext at h
  split at h
  next hphase => exact ⟨_, _, _, h⟩
  next hphase => exact ⟨_, _, _, h⟩
  next hphase => cases h
  next hphase =>
    split at h
    · cases h
    split at h
    · cases h
      exact ⟨_, _, _, hphase⟩
    simp only at h
    split at h
    · cases h
    · cases h
      exact ⟨_, _, _, hphase⟩

theorem Scheduler.eligibleFrom_subset (s : Scheduler) (progress : RunProgressState)
    (seen : List UInt64) (blocks : List Block) : s.eligibleFrom progress seen blocks ⊆ blocks := by
  fun_induction s.eligibleFrom progress seen blocks with
  | case1 => exact fun _ h => h
  | case2 _ _ _ _ ih | case3 _ _ _ _ _ ih | case4 _ _ _ _ _ _ ih =>
    exact List.subset_cons_of_subset _ ih
  | case5 _ _ _ _ _ _ ih => exact List.cons_subset_cons _ ih

end Start

/-! ## Steps -/

/-- `C` holds of what the scheduler has passed, and of what its run may still pass without a scan. -/
structure Scheduler.Clears (C : String → UInt64 → Prop) (s : Scheduler) : Prop where
  passes : s.Passes (C s.version) s.version
  run : ∀ env listing progress blocks firstErr,
    s.phase = .scanning env listing progress blocks firstErr →
      RunPasses (C s.version) s.version listing progress ∧ blocks ⊆ listing.blocks

/-- The ID is at or below a watermark or the last one listed, or its Block is completed. -/
def Scheduler.reaches (s : Scheduler) (b : UInt64) : Bool :=
  b ≤ s.durable.lastScannedBlockID || s.completed b ||
    match s.phase with
    | .scanning _ listing progress _ _ =>
      b ≤ progress.frontier || b ≤ maxListedBlockID listing.blocks
    | .idle | .returned _ _ => false

namespace Scheduler.Clears

variable {C C' : String → UInt64 → Prop} {s : Scheduler}

theorem mono (h : s.Clears C) (himp : ∀ b, s.reaches b = true → C s.version b → C' s.version b) :
    s.Clears C' := by
  refine ⟨⟨h.passes.enabled, rfl, fun b hb => himp b ?_ (h.passes.passed b hb),
    fun b hb => himp b ?_ (h.passes.completed b hb)⟩,
    fun env listing progress blocks err hphase => ?_⟩
  · simp [Scheduler.reaches, hb]
  · simp [Scheduler.reaches, hb]
  obtain ⟨hrun, hsub⟩ := h.run env listing progress blocks err hphase
  refine ⟨⟨hrun.enabled, hrun.version, fun b hb => himp b ?_ (hrun.passed b hb),
    fun b hb hnot => himp b ?_ (hrun.unlisted b hb hnot)⟩, hsub⟩
  · simp [Scheduler.reaches, hphase, hb]
  · simp [Scheduler.reaches, hphase, hb]

theorem of_reaches (h : s.Clears C) {b : UInt64} (hb : s.reaches b = true) :
    C s.version b ∨ ∃ env listing progress blocks firstErr,
      s.phase = .scanning env listing progress blocks firstErr ∧
        b ≤ maxListedBlockID listing.blocks := by
  simp only [Scheduler.reaches, Bool.or_eq_true, decide_eq_true_eq] at hb
  rcases hb with (hb | hb) | hb
  · exact .inl (h.passes.passed b hb)
  · exact .inl (h.passes.completed b hb)
  split at hb
  next env listing progress blocks err hphase =>
    simp only [Bool.or_eq_true, decide_eq_true_eq] at hb
    rcases hb with hb | hb
    · exact .inl ((h.run _ _ _ _ _ hphase).1.passed b hb)
    · exact .inr ⟨_, _, _, _, _, hphase, hb⟩
  next => cases hb
  next => cases hb

theorem stopped (h : s.Passes (C s.version) s.version)
    (hphase : ∀ env listing progress blocks firstErr,
      s.phase ≠ .scanning env listing progress blocks firstErr) : s.Clears C :=
  ⟨h, fun _ _ _ _ _ hscan => absurd hscan (hphase _ _ _ _ _)⟩

theorem startRun (h : s.Clears C) (env : StartEnv) (hzero : ∀ v, C v 0)
    (hlist : ∀ listing, env.listing = .ok listing → ∀ v b,
      b ≤ maxListedBlockID listing.blocks → listing.listed b = false → C v b) :
    (s.startRun env).Clears C := by
  unfold Scheduler.startRun
  split
  · exact stopped (h.passes.withPhase _) (by simp)
  rcases hprep : s.prepareScanRun env with ⟨r, s₁⟩
  obtain ⟨hs₁, hok⟩ := h.passes.prepareScanRun hzero hprep
  cases r with
  | error err => exact stopped (hs₁.withPhase _) (by simp)
  | ok prepared => ?_
  obtain ⟨progress, listing⟩ := prepared
  have htaken := hok progress listing rfl
  have henv := Scheduler.prepareScanRun_listing hprep
  simp only
  rcases hper : s₁.persistAdvancedProgress listing progress true env.saveErr
    with ⟨err, progress', s₂⟩
  obtain ⟨hs₂, hrun⟩ := hs₁.persist (htaken.runPasses hs₁ (hlist listing henv _)) hper
  have hv := hs₂.version
  rw [← hv] at hs₂ hrun
  cases err with
  | some e => exact stopped (hs₂.withPhase _) (by simp)
  | none => ?_
  refine ⟨hs₂.withPhase _, fun env' listing' progress'' blocks err hscan => ?_⟩
  cases hscan
  refine ⟨hrun, fun block hblock => ?_⟩
  exact listing.perm.mem_iff.mp (s₁.eligibleFrom_subset progress [] _ hblock)

theorem scanNext (h : s.Clears C) (benv : BlockEnv)
    (hscan : ∀ env listing progress block rest firstErr,
      s.phase = .scanning env listing progress (block :: rest) firstErr → benv.waitErr = none →
      (s.scanOne benv block).1 = none → C s.version block.blockID) :
    (s.scanNext benv).Clears C := by
  unfold Scheduler.scanNext
  split
  next => exact h
  next => exact h
  next => exact stopped (h.passes.withPhase _) (by simp)
  next start listing progress block rest firstErr hphase =>
    obtain ⟨hrun, hsub⟩ := h.run _ _ _ _ _ hphase
    cases hwait : benv.waitErr with
    | some err => exact stopped (h.passes.withPhase _) (by simp)
    | none => ?_
    rcases htry : s.tryScanBlock benv listing progress block with ⟨err, progress', s₁⟩
    obtain ⟨hs₁, hrun₁⟩ := h.passes.tryScanBlock hrun htry
      (hscan _ _ _ _ _ _ hphase hwait)
    have hv := hs₁.version
    rw [← hv] at hs₁ hrun₁
    have hrest : rest ⊆ listing.blocks := fun b hb => hsub (List.mem_cons_of_mem _ hb)
    have hgoes : ∀ first, Clears C { s₁ with
        phase := .scanning start listing progress' rest first } := by
      refine fun first => ⟨hs₁.withPhase _, fun env' listing' progress'' blocks err hnext => ?_⟩
      cases hnext
      exact ⟨hrun₁, hrest⟩
    cases err with
    | none => exact hgoes firstErr
    | some err => ?_
    simp only
    split
    · exact stopped (hs₁.withPhase _) (by simp)
    · exact hgoes _

theorem restart (h : s.Clears C) : (s.step (.restart true)).Clears C :=
  stopped ⟨rfl, rfl, h.passes.passed, nofun⟩ (by simp [Scheduler.step])

end Scheduler.Clears

end Scrap.Avscan
