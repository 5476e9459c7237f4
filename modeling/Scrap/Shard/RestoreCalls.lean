/-
# Readers that share a restore

The first reader of an evicted Block leads its restore, and later ones wait on the leader's record.
It leaves the map after `call.done` is closed, so a reader may join a restore that is over.

A record goes by the number of the call that made it. What is done under `restoreMu` is one step,
and so is a channel operation. The restore itself, with its wait for a slot, ends with any result.
-/
import Mathlib.Logic.Function.Basic
import Mathlib.Logic.Relation

namespace Scrap

open Function

inductive RestoreErr where
  /-- `ctx.Err()` -/
  | context
  | failed (reason : String)

abbrev RestoreResult := Except RestoreErr Unit

inductive RestorePhase where
  | idle
  /-- in `waitRestore` on that record -/
  | waiting (record : Nat)
  /-- in `restoreEvictedBlockOnce` -/
  | leading
  /-- `call.done` is closed, the record still in the map -/
  | closed
  | returned (r : RestoreResult)

structure RestoreCall where
  blockID : UInt64 := 0
  phase : RestorePhase := .idle
  /-- the reader's own context has ended -/
  ended : Bool := false
  /-- `call.err`, once `call.done` is closed -/
  done : Option RestoreResult := none

structure Restores where
  restores : UInt64 → Option Nat := fun _ => none
  calls : Nat → RestoreCall := fun _ => {}

/-- A leader whose own context has ended does not return nil. -/
def RestoreCall.leaderResult (c : RestoreCall) (r : RestoreResult) : RestoreResult :=
  if r.isOk && c.ended then .error .context else r

namespace Restores

def put (s : Restores) (k : Nat) (c : RestoreCall) : Restores :=
  { s with calls := update s.calls k c }

def beginRestore (s : Restores) (k : Nat) (b : UInt64) : Restores :=
  match s.restores b with
  | some j => s.put k { s.calls k with blockID := b, phase := .waiting j }
  | none => { s.put k { s.calls k with blockID := b, phase := .leading } with
      restores := update s.restores b (some k) }

inductive Step (s : Restores) : Restores → Prop
  | start (k b) : (s.calls k).phase = .idle → Step s (s.beginRestore k b)
  | close (k r) : (s.calls k).phase = .leading →
      Step s (s.put k { s.calls k with phase := .closed, done := some r })
  | forget (k r) : (s.calls k).phase = .closed → (s.calls k).done = some r →
      Step s { s.put k { s.calls k with phase := .returned ((s.calls k).leaderResult r) } with
        restores := update s.restores (s.calls k).blockID none }
  | wake (k j r) : (s.calls k).phase = .waiting j → (s.calls j).done = some r →
      Step s (s.put k { s.calls k with phase := .returned r })
  | giveUp (k j) : (s.calls k).phase = .waiting j → (s.calls k).ended = true →
      Step s (s.put k { s.calls k with phase := .returned (.error .context) })
  | cancel (k) : Step s (s.put k { s.calls k with ended := true })

end Restores

namespace RestoreCall

/-- The map has the call's record for the Block. -/
def Leads (b : UInt64) (c : RestoreCall) : Prop :=
  c.blockID = b ∧ (c.phase = .leading ∨ c.phase = .closed)

/-- Its restore of the Block has ended with `r`. -/
def Gave (b : UInt64) (r : RestoreResult) (c : RestoreCall) : Prop :=
  c.blockID = b ∧ c.done = some r

/-- A call that waits has its leader or the leader's result, and one that returned has a result of
a restore of its Block, unless its context has ended. -/
structure Ok (calls : Nat → RestoreCall) (c : RestoreCall) : Prop where
  unset : c.phase = .idle ∨ c.phase = .leading → c.done = none
  waits : ∀ j, c.phase = .waiting j → (calls j).Leads c.blockID ∨ ∃ r, (calls j).Gave c.blockID r
  returned : ∀ r, c.phase = .returned r →
    r = .error .context ∧ c.ended = true ∨ ∃ j, (calls j).Gave c.blockID r

variable {calls : Nat → RestoreCall} {k : Nat} {c d : RestoreCall}

theorem Ok.update (hd : d.Ok calls) (hgave : ∀ b r, (calls k).Gave b r → c.Gave b r)
    (hleads : ∀ b, (calls k).Leads b → c.Leads b ∨ ∃ r, c.Gave b r) : d.Ok (update calls k c) := by
  have hkept : ∀ j b r, (calls j).Gave b r → (Function.update calls k c j).Gave b r := by
    intro j b r hj
    rcases eq_or_ne j k with rfl | hne
    · simpa using hgave b r hj
    · rwa [update_of_ne hne]
  refine ⟨hd.unset, fun j hj => ?_, fun r hr => ?_⟩
  · rcases hd.waits j hj with hl | ⟨r, hr⟩
    · rcases eq_or_ne j k with rfl | hne
      · simpa using hleads _ hl
      · exact .inl (by rwa [update_of_ne hne])
    · exact .inr ⟨r, hkept j _ r hr⟩
  · exact (hd.returned r hr).imp_right fun ⟨j, hj⟩ => ⟨j, hkept j _ r hj⟩

end RestoreCall

namespace Restores

open RestoreCall

structure Sound (s : Restores) : Prop where
  record : ∀ b k, s.restores b = some k ↔ (s.calls k).Leads b
  call : ∀ k, (s.calls k).Ok s.calls

variable {s t : Restores} {k : Nat} {c : RestoreCall}

/-- One call goes on, and the map has its record while it leads. -/
theorem Sound.put (h : s.Sound) {m : UInt64 → Option Nat}
    (hm : ∀ b j, m b = some j ↔ if j = k then c.Leads b else s.restores b = some j)
    (hleads : ∀ b, (s.calls k).Leads b → c.Leads b ∨ ∃ r, c.Gave b r)
    (hgave : ∀ b r, (s.calls k).Gave b r → c.Gave b r) (hok : c.Ok s.calls) :
    Sound { s.put k c with restores := m } := by
  refine ⟨fun b j => (hm b j).trans ?_, fun j => ?_⟩
  · rcases eq_or_ne j k with rfl | hne
    · simp [Restores.put]
    · simp [Restores.put, hne, h.record]
  · rcases eq_or_ne j k with rfl | hne
    · simpa [Restores.put] using hok.update hgave hleads
    · simpa [Restores.put, hne] using (h.call j).update hgave hleads

theorem Sound.putSame (h : s.Sound) (hlead : ∀ b, c.Leads b ↔ (s.calls k).Leads b)
    (hgave : ∀ b r, (s.calls k).Gave b r → c.Gave b r) (hok : c.Ok s.calls) :
    (s.put k c).Sound := by
  refine h.put (fun b j => ?_) (fun b hb => .inl ((hlead b).mpr hb)) hgave hok
  split
  · subst_vars
    rw [h.record, hlead]
  · rfl

theorem Sound.step (h : s.Sound) (hstep : s.Step t) : t.Sound := by
  cases hstep with
  | start k b hk =>
    have hdone := (h.call k).unset (.inl hk)
    unfold beginRestore
    split
    next j hj =>
      refine h.putSame (by simp [Leads, hk]) (by simp [Gave, hdone]) ?_
      refine ⟨by simp, fun i hi => .inl ?_, by simp⟩
      cases hi
      exact (h.record b j).mp hj
    next hnone =>
      refine h.put (fun b' j => ?_) (by simp [Leads, hk])
        (by simp [Gave, hdone]) ⟨fun _ => hdone, by simp, by simp⟩
      have hk' : s.restores b' ≠ some k := by simp [h.record, Leads, hk]
      rcases eq_or_ne b' b with rfl | hb
      · simp [Leads, hnone, eq_comm]
      · split <;> simp_all [Leads, update_of_ne, Ne.symm]
  | close k r hk =>
    have hdone := (h.call k).unset (.inr hk)
    exact h.putSame (by simp [Leads, hk]) (by simp [Gave, hdone])
      ⟨by simp, by simp, by simp⟩
  | forget k r hk hr =>
    refine h.put (fun b j => ?_) (fun b hb => .inr ⟨r, hb.1, hr⟩) (fun _ _ h => h)
      ⟨by simp, by simp, fun r' hr' => ?_⟩
    · have hown : s.restores (s.calls k).blockID = some k := (h.record _ k).mpr ⟨rfl, .inr hk⟩
      rcases eq_or_ne b (s.calls k).blockID with rfl | hb
      · simp [Leads, hown, eq_comm]
      · have hne : s.restores b ≠ some k := by simp [h.record, Leads, Ne.symm hb]
        split <;> simp_all [Leads, update_of_ne]
    · cases hr'
      unfold leaderResult
      split
      next hended => exact .inl ⟨rfl, (Bool.and_eq_true_iff.mp hended).2⟩
      next => exact .inr ⟨k, rfl, hr⟩
  | wake k j r hk hr =>
    refine h.putSame (by simp [Leads, hk]) (fun _ _ h => h) ⟨by simp, by simp, ?_⟩
    intro r' hr'
    cases hr'
    rcases (h.call k).waits j hk with ⟨hb, -⟩ | ⟨-, hb, -⟩ <;> exact .inr ⟨j, hb, hr⟩
  | giveUp k j hk hended =>
    refine h.putSame (by simp [Leads, hk]) (fun _ _ h => h) ⟨by simp, by simp, ?_⟩
    intro r hr
    cases hr
    exact .inl ⟨rfl, hended⟩
  | cancel k =>
    have hok := h.call k
    refine h.putSame (fun _ => Iff.rfl) (fun _ _ h => h) ⟨hok.unset, hok.waits, fun r hr => ?_⟩
    exact (hok.returned r hr).imp_left fun hc => ⟨hc.1, rfl⟩

end Restores

/-- In every run a Block has at most one leader, and every call is `Ok`. -/
theorem restores_shared {s : Restores} (hrun : Relation.ReflTransGen Restores.Step {} s) :
    (∀ b j k, (s.calls j).Leads b → (s.calls k).Leads b → j = k) ∧
      ∀ k, (s.calls k).Ok s.calls := by
  have h : s.Sound := by
    induction hrun with
    | refl => exact ⟨by simp [RestoreCall.Leads], fun _ => ⟨fun _ => rfl, by simp, by simp⟩⟩
    | tail _ hstep ih => exact ih.step hstep
  refine ⟨fun b j k hj hk => ?_, h.call⟩
  exact Option.some.inj (((h.record b j).mpr hj).symm.trans ((h.record b k).mpr hk))

/-- Call `1` joins a restore after its end, and has its result. -/
theorem restores_shared_late : ∃ s, Relation.ReflTransGen Restores.Step {} s ∧
    (s.calls 1).phase = .returned (.ok ()) ∧ ∃ j, (s.calls j).Gave 7 (.ok ()) := by
  have hjoin : Relation.ReflTransGen Restores.Step {} _ :=
    ((Relation.ReflTransGen.single (.start 0 7 rfl)).tail (.close 0 (.ok ()) rfl)).tail
      (.start 1 7 rfl)
  have hlate := hjoin.tail (.wake 1 0 (.ok ()) rfl rfl)
  obtain ⟨hctx, -⟩ | hgave := ((restores_shared hlate).2 1).returned (.ok ()) rfl
  · cases hctx
  · exact ⟨_, hlate, rfl, hgave⟩

end Scrap
