/-
# The byte budget

`Acquire` waits on a condition variable until its bytes fit, and starts a goroutine that wakes all
waiters when its context ends. `BudgetRun` runs any number of calls, each by one event at a time: what
a call does under the lock is one event, but for the end of its context, which may come between the
check of `ctx.Err` and `cond.Wait` (`Phase.checked`). `outstanding` is a ghost, kept by `step` from
what the calls return and release.
-/
import Mathlib.Algebra.Order.BigOperators.Group.List
import Mathlib.Algebra.Order.Group.Int
import Mathlib.Algebra.Ring.Int.Defs

namespace Scrap.Admission

def defaultCapacityBytes : Int := 256 * 1024 * 1024

def addInt64 (a b : Int) : Int := (a + b).bmod UInt64.size

inductive Phase where
  | idle
  /-- before the lock, at first or after a wake-up -/
  | ready
  /-- under the lock, between the check of the context and `cond.Wait` -/
  | checked
  | asleep
  /-- `Acquire` has returned nil, with its bytes reserved -/
  | granted
  | returned
deriving DecidableEq

inductive Watcher where
  | absent
  | watching
  /-- it has seen the end of the context; the broadcast is next -/
  | fired
  | gone
deriving DecidableEq

structure Call where
  n : Int := 0
  phase : Phase := .idle
  ended : Bool := false
  watcher : Watcher := .absent

def Call.woken (c : Call) : Call := if c.phase = .asleep then { c with phase := .ready } else c

structure BudgetRun where
  capacity : Int
  used : Int := 0
  /-- the call that holds the lock over two events -/
  lock : Option Nat := none
  calls : Nat → Call := fun _ => {}
  /-- what was acquired and not released -/
  outstanding : List Int := []

inductive BudgetEvent where
  | acquire (k : Nat) (n : Int)
  /-- the call gets the lock -/
  | enter (k : Nat)
  | wait (k : Nat)
  | cancel (k : Nat)
  | fire (k : Nat)
  | broadcast (k : Nat)
  /-- the goroutine sees that the call has returned -/
  | stop (k : Nat)
  | release (n : Int)

namespace BudgetRun

def start (capacity : Int) : BudgetRun :=
  { capacity := if capacity ≤ 0 then defaultCapacityBytes else capacity }

variable (b : BudgetRun)

def put (k : Nat) (c : Call) : BudgetRun := { b with calls := Function.update b.calls k c }

def wakeAll : BudgetRun := { b with calls := fun k => (b.calls k).woken }

def enter (k : Nat) : BudgetRun :=
  let c := b.calls k
  let n := min c.n b.capacity
  if addInt64 b.used n > b.capacity then
    if c.ended then b.put k { c with phase := .returned }
    else { b.put k { c with phase := .checked } with lock := some k }
  else
    { b.put k { c with phase := .granted } with used := addInt64 b.used n }

def release (n : Int) : BudgetRun :=
  if n ≤ 0 then b else { b with used := max 0 (b.used - min n b.capacity) }.wakeAll

/-- The grant of a call is outstanding as it returns with it. -/
def noteGrant (k : Nat) : BudgetRun :=
  if (b.calls k).phase = .granted then { b with outstanding := (b.calls k).n :: b.outstanding } else b

def step : BudgetEvent → BudgetRun
  | .acquire k n =>
    let c := b.calls k
    if c.phase ≠ .idle then b
    else if n ≤ 0 then b.put k { c with n := n, phase := .returned }
    else b.put k { c with n := n, phase := .ready, watcher := .watching }
  | .enter k => if (b.calls k).phase = .ready ∧ b.lock = none then (b.enter k).noteGrant k else b
  | .wait k =>
    if (b.calls k).phase = .checked then
      { b.put k { b.calls k with phase := .asleep } with lock := none }
    else b
  | .cancel k => b.put k { b.calls k with ended := true }
  | .fire k =>
    if (b.calls k).watcher = .watching ∧ (b.calls k).ended then
      b.put k { b.calls k with watcher := .fired }
    else b
  | .broadcast k =>
    if (b.calls k).watcher = .fired ∧ b.lock = none then
      (b.put k { b.calls k with watcher := .gone }).wakeAll
    else b
  | .stop k =>
    if (b.calls k).watcher = .watching ∧
        ((b.calls k).phase = .granted ∨ (b.calls k).phase = .returned) then
      b.put k { b.calls k with watcher := .gone }
    else b
  | .release n =>
    if n ∈ b.outstanding ∧ b.lock = none then
      { b.release n with outstanding := b.outstanding.erase n }
    else b

def run (events : List BudgetEvent) : BudgetRun := events.foldl step b

end BudgetRun

/-! ## The invariant -/

def Phase.waits (p : Phase) : Bool := p = .checked ∨ p = .asleep

/-- A call that has not returned is watched, or its context has ended. -/
structure Call.Watched (c : Call) : Prop where
  positive : c.phase = .ready ∨ c.phase.waits = true → 0 < c.n
  watched : c.phase = .ready ∨ c.phase.waits = true →
    c.watcher = .watching ∨ c.watcher = .fired ∨ c.ended = true
  fired : c.watcher = .fired → c.ended = true

/-- A call that waits does not fit, and its goroutine is still there. -/
structure Call.Ok (capacity used : Int) (c : Call) : Prop extends c.Watched where
  full : c.phase.waits = true → capacity < used + min c.n capacity
  guarded : c.phase.waits = true → c.watcher = .watching ∨ c.watcher = .fired

structure BudgetRun.Sound (b : BudgetRun) : Prop where
  capacity : 0 < b.capacity ∧ b.capacity < 2 ^ 62
  used : b.used = (b.outstanding.map (min · b.capacity)).sum
  fits : b.used ≤ b.capacity
  positive : ∀ n ∈ b.outstanding, 0 < n
  lock : ∀ k, (b.calls k).phase = .checked → b.lock = some k
  call : ∀ k, (b.calls k).Ok b.capacity b.used

variable {b : BudgetRun} {k : Nat} {c : Call} {capacity used : Int}

theorem Call.Watched.ok (h : c.Watched) (hw : c.phase.waits = false) : c.Ok capacity used :=
  { h with full := by simp [hw], guarded := by simp [hw] }

theorem Call.Ok.returned (h : c.watcher = .fired → c.ended = true)
    (hp : c.phase = .granted ∨ c.phase = .returned) : c.Ok capacity used := by
  have hw : c.phase.waits = false := by rcases hp with hp | hp <;> simp [hp, Phase.waits]
  have hready : c.phase ≠ .ready := by rcases hp with hp | hp <;> simp [hp]
  exact Call.Watched.ok ⟨by simp [hw, hready], by simp [hw, hready], h⟩ hw

/-- A broadcast wakes the call, when nobody has the lock. -/
theorem Call.Watched.woken (h : c.Watched) (hfree : c.phase ≠ .checked) :
    c.woken.phase.waits = false ∧ c.woken.Watched := by
  unfold Call.woken
  split
  next hasleep =>
    have hw : c.phase = .ready ∨ c.phase.waits = true := by simp [hasleep, Phase.waits]
    exact ⟨rfl, fun _ => h.positive hw, fun _ => h.watched hw, h.fired⟩
  next hawake => exact ⟨by simp [hawake, hfree, Phase.waits], h⟩

namespace BudgetRun.Sound

theorem sum_nonneg {grants : List Int} (hcap : 0 < capacity) (hpos : ∀ n ∈ grants, 0 < n) :
    0 ≤ (grants.map (min · capacity)).sum := by
  refine List.sum_nonneg fun x hx => ?_
  obtain ⟨n, hn, rfl⟩ := List.mem_map.mp hx
  exact le_min (hpos n hn).le hcap.le

theorem not_checked (h : b.Sound) (hfree : b.lock = none) (j : Nat) : (b.calls j).phase ≠ .checked := by
  intro hj
  cases hfree.symm.trans (h.lock j hj)

/-- One call goes on; the lock goes to it, or nobody else has it. -/
theorem put (h : b.Sound) (lock : Option Nat) (hc : c.Ok b.capacity b.used)
    (hown : c.phase = .checked → lock = some k)
    (hother : ∀ j ≠ k, (b.calls j).phase = .checked → lock = some j) :
    Sound { b.put k c with lock := lock } :=
  { h with
    lock := (Function.forall_update_iff b.calls fun j c => c.phase = .checked → lock = some j).mpr
      ⟨hown, hother⟩
    call := (Function.forall_update_iff b.calls fun _ c => c.Ok b.capacity b.used).mpr
      ⟨hc, fun j _ => h.call j⟩ }

theorem putFree (h : b.Sound) (hc : c.Ok b.capacity b.used)
    (hown : c.phase = .checked → (b.calls k).phase = .checked) : (b.put k c).Sound :=
  h.put b.lock hc (fun hp => h.lock k (hown hp)) fun j _ => h.lock j

theorem noteGrant_of_ne (h : (b.calls k).phase ≠ .granted) : b.noteGrant k = b := if_neg h

theorem enter (h : b.Sound) (hready : (b.calls k).phase = .ready) (hfree : b.lock = none) :
    ((b.enter k).noteGrant k).Sound := by
  have hk := h.call k
  have hpos := hk.positive (.inl hready)
  have hsum : addInt64 b.used (min (b.calls k).n b.capacity) =
      b.used + min (b.calls k).n b.capacity := by
    have hused := h.used ▸ sum_nonneg h.capacity.1 h.positive
    have hfits := h.fits
    have hcap := h.capacity
    refine Int.bmod_eq_of_le ?_ ?_ <;> simp only [UInt64.size] <;> omega
  unfold BudgetRun.enter
  simp only [hsum]
  split
  next hfull =>
    split
    · rw [noteGrant_of_ne (by simp [BudgetRun.put])]
      exact h.putFree (.returned hk.fired (.inr rfl)) nofun
    next hended =>
      rw [noteGrant_of_ne (by simp [BudgetRun.put])]
      have hwatch : (b.calls k).watcher = .watching ∨ (b.calls k).watcher = .fired := by
        simpa [hended] using hk.watched (.inl hready)
      exact h.put (some k) ⟨⟨fun _ => hpos, fun _ => hwatch.imp_right .inl, hk.fired⟩, fun _ => hfull,
        fun _ => hwatch⟩ (fun _ => rfl) fun j _ hj => absurd hj (h.not_checked hfree j)
  next hfits =>
    have hput := h.putFree (k := k) (c := { b.calls k with phase := .granted })
      (.returned hk.fired (.inl rfl)) nofun
    have hself : (b.put k { b.calls k with phase := .granted }).calls k =
        { b.calls k with phase := .granted } := Function.update_self ..
    simp only [BudgetRun.noteGrant, hself, if_true]
    refine { hput with
      used := by simp [BudgetRun.put, h.used, Int.add_comm]
      fits := Int.not_lt.mp hfits
      positive := List.forall_mem_cons.mpr ⟨hpos, h.positive⟩
      call := fun j => { hput.call j with full := fun hw => ?_ } }
    have hcap := h.capacity.1
    have hj := (hput.call j).full hw
    simp only [BudgetRun.put] at hj ⊢
    omega

theorem wakeAll (hcap : 0 < b.capacity ∧ b.capacity < 2 ^ 62)
    (hused : b.used = (b.outstanding.map (min · b.capacity)).sum) (hfits : b.used ≤ b.capacity)
    (hpositive : ∀ n ∈ b.outstanding, 0 < n)
    (hcalls : ∀ k, (b.calls k).Watched ∧ (b.calls k).phase ≠ .checked) : b.wakeAll.Sound := by
  have hwoken := fun k => (hcalls k).1.woken (hcalls k).2
  refine ⟨hcap, hused, hfits, hpositive, fun k hk => ?_, fun k => (hwoken k).2.ok (hwoken k).1⟩
  have hw := (hwoken k).1
  rw [show (b.calls k).woken.phase = .checked from hk] at hw
  cases hw

theorem release (h : b.Sound) {n : Int} (hn : n ∈ b.outstanding) (hfree : b.lock = none) :
    Sound { b.release n with outstanding := b.outstanding.erase n } := by
  have hsum : b.used = min n b.capacity + ((b.outstanding.erase n).map (min · b.capacity)).sum := by
    rw [h.used, ((List.perm_cons_erase hn).map _).sum_eq, List.map_cons, List.sum_cons]
  have hpositive : ∀ m ∈ b.outstanding.erase n, 0 < m := fun m hm =>
    h.positive m (List.mem_of_mem_erase hm)
  have hcap := h.capacity.1
  have hrest := sum_nonneg hcap hpositive
  have hn := h.positive n hn
  have hfits := h.fits
  have hused : max 0 (b.used - min n b.capacity) =
      ((b.outstanding.erase n).map (min · b.capacity)).sum := by omega
  rw [BudgetRun.release, if_neg (Int.not_le.mpr hn)]
  have hle : max 0 (b.used - min n b.capacity) ≤ b.capacity := by omega
  exact wakeAll (b := { b with
      used := max 0 (b.used - min n b.capacity), outstanding := b.outstanding.erase n })
    h.capacity hused hle hpositive fun k => ⟨(h.call k).toWatched, h.not_checked hfree k⟩

theorem broadcast (h : b.Sound) (hfired : (b.calls k).watcher = .fired) (hfree : b.lock = none) :
    (b.put k { b.calls k with watcher := .gone }).wakeAll.Sound := by
  refine wakeAll h.capacity h.used h.fits h.positive ?_
  refine (Function.forall_update_iff b.calls fun _ c => c.Watched ∧ c.phase ≠ .checked).mpr
    ⟨⟨⟨(h.call k).positive, fun _ => ?_, nofun⟩, h.not_checked hfree k⟩,
      fun j _ => ⟨(h.call j).toWatched, h.not_checked hfree j⟩⟩
  exact .inr (.inr ((h.call k).fired hfired))

theorem ite (h : b.Sound) {p : Prop} [Decidable p] {b' : BudgetRun} (h' : p → b'.Sound) :
    (if p then b' else b).Sound := by
  split
  next hp => exact h' hp
  next => exact h

theorem step (h : b.Sound) (e : BudgetEvent) : (b.step e).Sound := by
  cases e with
  | acquire k n =>
    simp only [BudgetRun.step]
    split_ifs with hidle hn
    · exact h
    · exact h.putFree (.returned (h.call k).fired (.inr rfl)) nofun
    · exact h.putFree (Call.Watched.ok ⟨fun _ => Int.not_le.mp hn, fun _ => .inl rfl, nofun⟩ rfl) nofun
  | enter k => exact h.ite fun hk => h.enter hk.1 hk.2
  | wait k =>
    refine h.ite fun hk => ?_
    have hcall := h.call k
    have hw : (b.calls k).phase.waits = true := by simp [hk, Phase.waits]
    exact h.put none ⟨⟨fun _ => hcall.positive (.inr hw), fun _ => hcall.watched (.inr hw), hcall.fired⟩,
      fun _ => hcall.full hw, fun _ => hcall.guarded hw⟩ nofun
      fun j hjk hj => absurd ((h.lock j hj).symm.trans (h.lock k hk)) (by simp [hjk])
  | cancel k =>
    exact h.putFree { h.call k with watched := fun _ => .inr (.inr rfl), fired := fun _ => rfl } id
  | fire k =>
    refine h.ite fun hk => ?_
    exact h.putFree { h.call k with
      watched := fun _ => .inr (.inl rfl), fired := fun _ => hk.2, guarded := fun _ => .inr rfl } id
  | broadcast k => exact h.ite fun hk => h.broadcast hk.1 hk.2
  | stop k => exact h.ite fun hk => h.putFree (.returned nofun hk.2) id
  | release n => exact h.ite fun hn => h.release hn.1 hn.2

theorem run (h : b.Sound) (events : List BudgetEvent) : (b.run events).Sound := by
  induction events generalizing b with
  | nil => exact h
  | cons e events ih => exact ih (h.step e)

end BudgetRun.Sound

theorem start_sound {capacity : Int} (hcap : capacity < 2 ^ 62) : (BudgetRun.start capacity).Sound where
  capacity := by
    simp only [BudgetRun.start, defaultCapacityBytes]
    split <;> omega
  used := rfl
  fits := by
    simp only [BudgetRun.start, defaultCapacityBytes]
    split <;> omega
  positive := nofun
  lock := nofun
  call _ := Call.Watched.ok ⟨nofun, nofun, nofun⟩ rfl

/-- The used bytes are those of the grants, within the capacity. A call that sleeps does not fit,
and once its context has ended its goroutine is there to wake it. -/
theorem budget_invariant {capacity : Int} (hcap : capacity < 2 ^ 62) (events : List BudgetEvent) :
    let b := (BudgetRun.start capacity).run events
    b.used = (b.outstanding.map (min · b.capacity)).sum ∧ b.used ≤ b.capacity ∧
      ∀ k, (b.calls k).phase = .asleep →
        b.capacity < b.used + min (b.calls k).n b.capacity ∧
        ((b.calls k).ended = true →
          (b.calls k).watcher = .watching ∨ (b.calls k).watcher = .fired) := by
  intro b
  have h : b.Sound := (start_sound hcap).run events
  refine ⟨h.used, h.fits, fun k hk => ?_⟩
  have hw : (b.calls k).phase.waits = true := by simp [hk, Phase.waits]
  exact ⟨(h.call k).full hw, fun _ => (h.call k).guarded hw⟩

/-- The release of the first grant wakes the second call, and a third one sleeps when its context
ends. -/
def threeCalls : List BudgetEvent :=
  [.acquire 0 7, .enter 0, .acquire 1 20, .enter 1, .wait 1, .release 7, .enter 1, .acquire 2 5,
    .enter 2, .wait 2, .cancel 2]

theorem budget_invariant_two :
    let b := (BudgetRun.start 10).run threeCalls
    b.outstanding = [20] ∧ b.used = 10 ∧ (b.calls 2).phase = .asleep ∧
      ((b.calls 2).watcher = .watching ∨ (b.calls 2).watcher = .fired) := by
  have h := @budget_invariant 10 (by decide) threeCalls
  exact ⟨rfl, h.1, rfl, (h.2.2 2 rfl).2 rfl⟩

end Scrap.Admission
