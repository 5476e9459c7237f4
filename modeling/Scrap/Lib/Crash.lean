/-
# Operations that a crash can cut

An operation is a list of atomic steps on a state. A crash, or a step that fails, leaves the
state behind some prefix of the list, and whatever operation comes next starts from there.
`Stands I steps s` says that `I` holds behind every prefix; an invariant that stands through
every operation holds in every state that is ever found (`Reached.invariant`).
-/
import Mathlib.Data.List.Basic

namespace Scrap.Crash

variable {σ ι : Type} (run : ι → σ → σ)

def runSteps (steps : List ι) (s : σ) : σ := steps.foldl (fun s i => run i s) s

@[simp] theorem runSteps_nil (s : σ) : runSteps run [] s = s := rfl

@[simp] theorem runSteps_cons (i : ι) (steps : List ι) (s : σ) :
    runSteps run (i :: steps) s = runSteps run steps (run i s) := rfl

theorem runSteps_append (steps more : List ι) (s : σ) :
    runSteps run (steps ++ more) s = runSteps run more (runSteps run steps s) :=
  List.foldl_append

def Stands (I : σ → Prop) (steps : List ι) (s : σ) : Prop :=
  ∀ n, I (runSteps run (steps.take n) s)

variable {run} {I : σ → Prop} {s : σ}

theorem stands_nil : Stands run I [] s ↔ I s := by simp [Stands]

theorem stands_cons {i : ι} {steps : List ι} :
    Stands run I (i :: steps) s ↔ I s ∧ Stands run I steps (run i s) := by
  constructor
  · intro h
    exact ⟨h 0, fun n => h (n + 1)⟩
  rintro ⟨hs, h⟩ n
  cases n with
  | zero => exact hs
  | succ n => exact h n

theorem stands_append {steps more : List ι} (h : Stands run I steps s)
    (hmore : I (runSteps run steps s) → Stands run I more (runSteps run steps s)) :
    Stands run I (steps ++ more) s := by
  induction steps generalizing s with
  | nil => exact hmore (stands_nil.mp h)
  | cons i steps ih =>
    obtain ⟨hs, hrest⟩ := stands_cons.mp h
    exact stands_cons.mpr ⟨hs, ih hrest hmore⟩

theorem stands_of_forall {steps : List ι} (hs : I s) (h : ∀ i ∈ steps, ∀ t, I t → I (run i t)) :
    Stands run I steps s := by
  induction steps generalizing s with
  | nil => exact stands_nil.mpr hs
  | cons i steps ih =>
    exact stands_cons.mpr ⟨hs, ih (h i List.mem_cons_self s hs)
      fun j hj => h j (List.mem_cons_of_mem _ hj)⟩

/-- The states that can be found: `op s steps` says that an operation may start in `s` and would
take these steps; it may be cut anywhere. -/
inductive Reached (run : ι → σ → σ) (op : σ → List ι → Prop) (start : σ) : σ → Prop
  | start : Reached run op start start
  | cut {s : σ} {steps : List ι} (n : Nat) : Reached run op start s → op s steps →
      Reached run op start (runSteps run (steps.take n) s)

theorem Reached.invariant {op : σ → List ι → Prop} {start : σ} (hstart : I start)
    (hop : ∀ s steps, I s → op s steps → Stands run I steps s) (h : Reached run op start s) :
    I s := by
  induction h with
  | start => exact hstart
  | cut n _ hsteps ih => exact hop _ _ ih hsteps n

end Scrap.Crash
