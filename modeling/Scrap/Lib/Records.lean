/-
# Files of records

A file is read record by record until a call gives no record. `RecordReader` is one such call,
which takes at least one byte, and `walk` is the loop: the records, the reason it stopped and the
bytes it stopped at. What a writer put down is walked through again if the reader undoes the
encoding in front of whatever follows (`walk_encode`).
-/
import Mathlib.Data.List.Basic

namespace Scrap.Records

variable {α ρ ε : Type}

/-- One read at the start of what is left of a file; it takes something. -/
structure RecordReader (α ρ ε : Type) where
  next : List α → Except ε (ρ × List α)
  consumes : ∀ {bs rest : List α} {r : ρ}, next bs = .ok (r, rest) → rest.length < bs.length

structure Walk (α ρ ε : Type) where
  records : List ρ
  stop : ε
  left : List α

namespace RecordReader

variable (R : RecordReader α ρ ε) {bs rest : List α} {r : ρ} {e : ε}

def walk (bs : List α) : Walk α ρ ε :=
  match _h : R.next bs with
  | .error e => ⟨[], e, bs⟩
  | .ok (r, rest) => { walk rest with records := r :: (walk rest).records }
termination_by bs.length
decreasing_by all_goals exact R.consumes _h

theorem walk_of_error (h : R.next bs = .error e) : R.walk bs = ⟨[], e, bs⟩ := by
  rw [walk]
  split
  · rename_i heq
    rw [h] at heq
    rw [Except.error.inj heq]
  · rename_i heq
    rw [h] at heq
    cases heq

theorem walk_of_ok (h : R.next bs = .ok (r, rest)) :
    R.walk bs = { R.walk rest with records := r :: (R.walk rest).records } := by
  rw [walk]
  split
  · rename_i heq
    rw [h] at heq
    cases heq
  · rename_i heq
    rw [h] at heq
    cases Except.ok.inj heq
    rfl

theorem walk_encode {enc : ρ → List α} (tail : List α) : ∀ {rs : List ρ},
    (∀ r ∈ rs, ∀ rest, R.next (enc r ++ rest) = .ok (r, rest)) →
    R.walk (rs.flatMap enc ++ tail) = { R.walk tail with records := rs ++ (R.walk tail).records }
  | [], _ => by simp
  | r :: rs, h => by
    rw [List.flatMap_cons, List.append_assoc, R.walk_of_ok (h r List.mem_cons_self _),
      walk_encode tail fun r hr => h r (List.mem_cons_of_mem _ hr)]
    rfl

theorem forall_walk {P : ρ → Prop} (hnext : ∀ {bs rest r}, R.next bs = .ok (r, rest) → P r)
    (bs : List α) : ∀ r ∈ (R.walk bs).records, P r := by
  induction hn : bs.length using Nat.strongRecOn generalizing bs with
  | ind n ih =>
    cases h : R.next bs with
    | error e =>
      rw [R.walk_of_error h]
      exact fun r hr => absurd hr List.not_mem_nil
    | ok x =>
      obtain ⟨r, rest⟩ := x
      rw [R.walk_of_ok h]
      exact List.forall_mem_cons.mpr
        ⟨hnext h, ih rest.length (by have := R.consumes h; omega) rest rfl⟩

end RecordReader

end Scrap.Records
