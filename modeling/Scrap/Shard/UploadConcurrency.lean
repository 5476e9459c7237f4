/-
# The concurrency of the upload controller

Throttles lower the number of parallel uploads, successes in a row raise it by one, and the level of
the upload pressure doubles its target. `UploadHistory` runs the events and counts, beside the
controller's own counter, the successes since the last throttle, reset or change.
-/
import Mathlib.Data.List.Basic

namespace Scrap

def defaultUploadConcurrency : Int := 2
def successesToRestoreUpload : Nat := 5
def uploadPressureConcurrencyMultiplier : Int := 2
def uploadPressureLevelWarn : Int := 1

/-- The fields of `uploadController` that decide on the concurrency, 0 before its first use. -/
structure UploadController where
  currentConcurrency : Int := 0
  successes : Nat := 0
  pressureLevel : Int := 0

inductive ConcurrencyEvent where
  | throttle
  | success
  | reset
  | pressure (level : Int)
deriving DecidableEq

/-- A controller with the number of successes since the last throttle, reset or change of
concurrency. -/
structure UploadHistory where
  controller : UploadController := {}
  streak : Nat := 0

section Model

-- the concurrency of the configuration
variable (cfg : Int)

def configuredConcurrency : Int := if 0 < cfg then cfg else defaultUploadConcurrency

/-- The product is one of `int`. -/
def concurrencyTargetLocked (pressureLevel : Int) : Int :=
  if uploadPressureLevelWarn ≤ pressureLevel then
    (configuredConcurrency cfg * uploadPressureConcurrencyMultiplier).bmod UInt64.size
  else configuredConcurrency cfg

namespace UploadController

variable (c : UploadController)

def concurrency : Int :=
  if 0 < c.currentConcurrency then c.currentConcurrency else configuredConcurrency cfg

/-- `if c.currentConcurrency == 0`: the first use sets it. -/
def started : UploadController :=
  if c.currentConcurrency = 0 then { c with currentConcurrency := configuredConcurrency cfg } else c

def resetConcurrency : UploadController :=
  { c with currentConcurrency := configuredConcurrency cfg, successes := 0 }

def recordThrottle : UploadController :=
  let c := c.started cfg
  if 1 < c.currentConcurrency then
    { c with currentConcurrency := c.currentConcurrency - 1, successes := 0 }
  else { c with successes := 0 }

def recordSuccess : UploadController :=
  let c := c.started cfg
  if concurrencyTargetLocked cfg c.pressureLevel ≤ c.currentConcurrency then { c with successes := 0 }
  else if successesToRestoreUpload ≤ c.successes + 1 then
    { c with currentConcurrency := c.currentConcurrency + 1, successes := 0 }
  else { c with successes := c.successes + 1 }

def applyPressureConcurrencyLocked (previousLevel level : Int) : UploadController :=
  let c := c.started cfg
  if uploadPressureLevelWarn ≤ level then
    if c.currentConcurrency < concurrencyTargetLocked cfg c.pressureLevel then
      { c with currentConcurrency := concurrencyTargetLocked cfg c.pressureLevel, successes := 0 }
    else c
  else if uploadPressureLevelWarn ≤ previousLevel ∧
      configuredConcurrency cfg < c.currentConcurrency then
    { c with currentConcurrency := configuredConcurrency cfg, successes := 0 }
  else c

def setPressure (level : Int) : UploadController :=
  { c with pressureLevel := level }.applyPressureConcurrencyLocked cfg c.pressureLevel level

def apply : ConcurrencyEvent → UploadController
  | .throttle => c.recordThrottle cfg
  | .success => c.recordSuccess cfg
  | .reset => c.resetConcurrency cfg
  | .pressure level => c.setPressure cfg level

end UploadController

def UploadHistory.step (h : UploadHistory) (e : ConcurrencyEvent) : UploadHistory where
  controller := h.controller.apply cfg e
  streak :=
    if e = .throttle ∨ e = .reset ∨
        (h.controller.apply cfg e).concurrency cfg ≠ h.controller.concurrency cfg then 0
    else if e = .success then h.streak + 1
    else h.streak

def UploadHistory.run (events : List ConcurrencyEvent) : UploadHistory :=
  events.foldl (UploadHistory.step cfg) {}

end Model

/-! ## What an event keeps -/

variable {cfg : Int}

theorem configuredConcurrency_pos (cfg : Int) : 1 ≤ configuredConcurrency cfg := by
  unfold configuredConcurrency defaultUploadConcurrency
  split <;> omega

/-- Also when the product wraps. -/
theorem concurrencyTargetLocked_le (cfg level : Int) :
    concurrencyTargetLocked cfg level ≤ 2 * configuredConcurrency cfg ∧
      (level < uploadPressureLevelWarn →
        concurrencyTargetLocked cfg level = configuredConcurrency cfg) := by
  have hpos := configuredConcurrency_pos cfg
  unfold concurrencyTargetLocked uploadPressureConcurrencyMultiplier
  split
  · rw [Int.bmod_def]
    simp only [UInt64.size]
    exact ⟨by split <;> omega, by omega⟩
  · exact ⟨by omega, fun _ => rfl⟩

def Fits (cfg n level : Int) : Prop :=
  1 ≤ n ∧ n ≤ 2 * configuredConcurrency cfg ∧
    (level < uploadPressureLevelWarn → n ≤ configuredConcurrency cfg)

structure UploadController.Bounded (cfg : Int) (c : UploadController) : Prop where
  nonneg : 0 ≤ c.currentConcurrency
  fits : Fits cfg (c.concurrency cfg) c.pressureLevel

namespace UploadController

variable {c : UploadController}

theorem concurrency_of_pos {n level : Int} {k : Nat} (h : 1 ≤ n) :
    (⟨n, k, level⟩ : UploadController).concurrency cfg = n :=
  if_pos (by simp only; omega)

theorem started_eq (h : 0 ≤ c.currentConcurrency) :
    c.started cfg = ⟨c.concurrency cfg, c.successes, c.pressureLevel⟩ := by
  unfold started concurrency
  split
  · rw [if_neg (by omega)]
  · rw [if_pos (by omega)]

/-- What an event can do: the counter is set back unless the concurrency is as before. -/
theorem Bounded.apply_eq (h : c.Bounded cfg) (e : ConcurrencyEvent) :
    ∃ n k level, c.apply cfg e = ⟨n, k, level⟩ ∧ Fits cfg n level ∧
      (k = 0 ∨ n = c.concurrency cfg ∧ (e = .success ∧ k = c.successes + 1 ∨
        (∃ l, e = .pressure l) ∧ k = c.successes)) ∧
      (e = .success → c.concurrency cfg < n → successesToRestoreUpload ≤ c.successes + 1) := by
  have hconf := configuredConcurrency_pos cfg
  obtain ⟨hpos, htwice, hcalm⟩ := h.fits
  cases e with
  | throttle =>
    simp only [apply, recordThrottle, started_eq h.nonneg]
    split
    · exact ⟨_, _, _, rfl, ⟨by omega, by omega, by omega⟩, .inl rfl, nofun⟩
    · exact ⟨_, _, _, rfl, h.fits, .inl rfl, nofun⟩
  | reset => exact ⟨_, _, _, rfl, ⟨hconf, by omega, by omega⟩, .inl rfl, nofun⟩
  | success =>
    obtain ⟨ht, htcalm⟩ := concurrencyTargetLocked_le cfg c.pressureLevel
    simp only [apply, recordSuccess, started_eq h.nonneg]
    split
    · exact ⟨_, _, _, rfl, h.fits, .inl rfl, by omega⟩
    · split
      next hk => exact ⟨_, _, _, rfl, ⟨by omega, by omega, by omega⟩, .inl rfl, fun _ _ => hk⟩
      · exact ⟨_, _, _, rfl, h.fits, .inr ⟨rfl, .inl ⟨trivial, rfl⟩⟩, by omega⟩
  | pressure level =>
    obtain ⟨ht, -⟩ := concurrencyTargetLocked_le cfg level
    have hst : (⟨c.currentConcurrency, c.successes, level⟩ : UploadController).started cfg =
        ⟨c.concurrency cfg, c.successes, level⟩ := started_eq h.nonneg
    simp only [apply, setPressure, applyPressureConcurrencyLocked, hst]
    split
    · split
      · exact ⟨_, _, _, rfl, ⟨by omega, ht, by omega⟩, .inl rfl, nofun⟩
      · exact ⟨_, _, _, rfl, ⟨hpos, htwice, by omega⟩, .inr ⟨rfl, .inr ⟨⟨level, rfl⟩, rfl⟩⟩, nofun⟩
    · split
      · exact ⟨_, _, _, rfl, ⟨hconf, by omega, by omega⟩, .inl rfl, nofun⟩
      -- above the configured number only at a level that was not calm before
      · exact ⟨_, _, _, rfl, ⟨hpos, htwice, by omega⟩, .inr ⟨rfl, .inr ⟨⟨level, rfl⟩, rfl⟩⟩, nofun⟩

end UploadController

/-- The controller's counter never runs ahead of the history. -/
structure UploadHistory.Sound (cfg : Int) (h : UploadHistory) : Prop where
  bounded : h.controller.Bounded cfg
  counted : h.controller.successes ≤ h.streak

theorem UploadHistory.Sound.step {h : UploadHistory} (hs : h.Sound cfg) (e : ConcurrencyEvent) :
    (h.step cfg e).Sound cfg := by
  obtain ⟨n, k, level, heq, hfits, hk, -⟩ := hs.bounded.apply_eq e
  have hn : (⟨n, k, level⟩ : UploadController).concurrency cfg = n :=
    UploadController.concurrency_of_pos hfits.1
  have hcounted := hs.counted
  unfold UploadHistory.step
  rw [heq, hn]
  refine ⟨⟨Int.le_trans (by decide) hfits.1, hn.symm ▸ hfits⟩, ?_⟩
  rcases hk with rfl | ⟨rfl, ⟨rfl, rfl⟩ | ⟨⟨l, rfl⟩, rfl⟩⟩
  · exact Nat.zero_le _
  · simpa using hcounted
  · simpa using hcounted

theorem UploadHistory.run_sound (cfg : Int) (events : List ConcurrencyEvent) :
    (UploadHistory.run cfg events).Sound cfg := by
  have hconf := configuredConcurrency_pos cfg
  refine List.foldlRecOn events _ ⟨⟨Int.le_refl _, ?_⟩, Nat.le_refl _⟩ fun h hs e _ => hs.step e
  show Fits cfg (configuredConcurrency cfg) 0
  exact ⟨hconf, by omega, fun _ => Int.le_refl _⟩

/-- After any events the concurrency is between 1 and twice the configured number, at most that
number below the warn level, and a success raises it only as the last of
`successesToRestoreUpload` in a row. -/
theorem upload_concurrency (cfg : Int) (events : List ConcurrencyEvent) :
    let h := UploadHistory.run cfg events
    let n := h.controller.concurrency cfg
    (1 ≤ n ∧ n ≤ 2 * configuredConcurrency cfg) ∧
    (h.controller.pressureLevel < uploadPressureLevelWarn → n ≤ configuredConcurrency cfg) ∧
    (n < (h.controller.recordSuccess cfg).concurrency cfg →
      successesToRestoreUpload ≤ h.streak + 1) := by
  intro h n
  have hs := UploadHistory.run_sound cfg events
  obtain ⟨hpos, htwice, hcalm⟩ := hs.bounded.fits
  refine ⟨⟨hpos, htwice⟩, hcalm, fun hlt => ?_⟩
  obtain ⟨m, k, level, heq, hfits, -, hsucc⟩ := hs.bounded.apply_eq .success
  have hm : (h.controller.recordSuccess cfg).concurrency cfg = m :=
    (congrArg (·.concurrency cfg) heq).trans (UploadController.concurrency_of_pos hfits.1)
  exact Nat.le_trans (hsucc rfl (hm ▸ hlt)) (Nat.succ_le_succ hs.counted)

end Scrap
