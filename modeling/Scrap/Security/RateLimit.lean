/-
# The rate limit of a surface

A surface counts the calls of each key in windows that start with a call. `rateLimitKey` maps the
key of a call to the one that is counted, and a caller without a key shares the window of one whose
key is the text `anonymous` (`anonymous_key_is_shared`).

`SurfaceRun` keeps beside the budget, for every counted key, the window it is in and the calls
allowed in it, whatever the budget has pruned.
-/
import Scrap.Encryption.Document

namespace Scrap.Security

open Encryption Function Text

def rateLimitReasonExceeded : String := "rate_limited"
def rateLimitUnknownOp : String := "unknown"
def rateLimitAnonymousKey : String := "anonymous"
def maxRateLimitKeyLen : Nat := 64

/-- The budget of a surface that `NewRateLimiter` accepts. -/
structure RateLimitSurfacePolicy where
  limit : Nat
  window : Nat
  limit_pos : 0 < limit
  window_pos : 0 < window

/-- Times count from the zero time, which is `0`. -/
structure WindowCounter where
  count : Nat
  reset : Nat
deriving DecidableEq

structure SurfaceBudget where
  nextPrune : Nat := 0
  keys : String → Option WindowCounter := fun _ => none

structure RateLimitDecision where
  operation : String
  reason : String := ""
  retryAfter : Nat := 0
  limited : Bool := false
deriving DecidableEq

structure AllowCall where
  now : Nat
  key : String
  operation : List String := []

def hexEncode (bytes : List UInt8) : String :=
  String.ofList (bytes.flatMap fun b => [(b.toNat / 16).digitChar, (b.toNat % 16).digitChar])

section Model

-- `sha256.Sum256`, and the policy of the surface
variable (sum256 : List UInt8 → List UInt8) (policy : RateLimitSurfacePolicy)

def rateLimitKey (key : String) : String :=
  let key := trimBy isSpace key
  if key = "" then rateLimitAnonymousKey
  else if key.utf8ByteSize ≤ maxRateLimitKeyLen then key
  else "sha256:" ++ hexEncode ((sum256 (utf8 key)).take 8)

def SurfaceBudget.pruneExpired (b : SurfaceBudget) (now : Nat) : SurfaceBudget :=
  if b.nextPrune ≠ 0 ∧ now < b.nextPrune then b
  else
    { nextPrune := now + policy.window
      keys := fun key => (b.keys key).filter fun c => ¬ (c.reset ≠ 0 ∧ ¬ now < c.reset) }

def SurfaceBudget.counter (b : SurfaceBudget) (now : Nat) (cleanKey : String) : WindowCounter :=
  let counter := (b.keys cleanKey).getD ⟨0, 0⟩
  if counter.reset = 0 ∨ ¬ now < counter.reset then ⟨0, now + policy.window⟩ else counter

def SurfaceBudget.allow (b : SurfaceBudget) (call : AllowCall) : RateLimitDecision × SurfaceBudget :=
  let op := match call.operation with
    | operation :: _ =>
      if trimBy isSpace operation ≠ "" then trimBy isSpace operation else rateLimitUnknownOp
    | [] => rateLimitUnknownOp
  let b := b.pruneExpired policy call.now
  let cleanKey := rateLimitKey sum256 call.key
  let counter := b.counter policy call.now cleanKey
  if policy.limit ≤ counter.count then
    (⟨op, rateLimitReasonExceeded, counter.reset - call.now, true⟩,
      { b with keys := update b.keys cleanKey (some counter) })
  else
    (⟨op, "", 0, false⟩,
      { b with keys := update b.keys cleanKey (some ⟨counter.count + 1, counter.reset⟩) })

/-- A window of a key, with the calls that were allowed in it. -/
structure KeyWindow where
  start : Nat
  allowed : Nat
deriving DecidableEq

/-- The window of a call: the one of the key, unless it has ended. -/
def KeyWindow.at (w : Option KeyWindow) (now : Nat) : KeyWindow :=
  match w with
  | some w => if now < w.start + policy.window then w else ⟨now, 0⟩
  | none => ⟨now, 0⟩

structure SurfaceRun where
  budget : SurfaceBudget := {}
  windows : String → Option KeyWindow := fun _ => none

def SurfaceRun.step (r : SurfaceRun) (call : AllowCall) : SurfaceRun :=
  let (decision, budget) := r.budget.allow sum256 policy call
  let cleanKey := rateLimitKey sum256 call.key
  let w := KeyWindow.at policy (r.windows cleanKey) call.now
  { budget := budget
    windows := update r.windows cleanKey
      (some ⟨w.start, w.allowed + if decision.limited then 0 else 1⟩) }

def SurfaceRun.run (calls : List AllowCall) : SurfaceRun :=
  calls.foldl (SurfaceRun.step sum256 policy) {}

end Model

/-! ## The budget keeps the windows -/

variable {sum256 : List UInt8 → List UInt8} {policy : RateLimitSurfacePolicy}

/-- What the budget has for a key at `now`: the counter of its window, which may be gone once that
has ended. -/
def Held (policy : RateLimitSurfacePolicy) (now : Nat) :
    Option KeyWindow → Option WindowCounter → Prop
  | none, c => c = none
  | some w, c => w.allowed ≤ policy.limit ∧
      (c = some ⟨w.allowed, w.start + policy.window⟩ ∨ c = none ∧ w.start + policy.window ≤ now)

variable {now : Nat} {w : Option KeyWindow} {b : SurfaceBudget} {k : String}

theorem Held.later {c : Option WindowCounter} (h : Held policy now w c) {later : Nat}
    (hle : now ≤ later) : Held policy later w c := by
  cases w with
  | none => exact h
  | some w => exact ⟨h.1, h.2.imp_right fun ⟨hc, hend⟩ => ⟨hc, hend.trans hle⟩⟩

theorem Held.prune (h : Held policy now w (b.keys k)) {later : Nat} (hle : now ≤ later) :
    Held policy later w ((b.pruneExpired policy later).keys k) := by
  have hkeys : (b.pruneExpired policy later).keys k = b.keys k ∨
      (b.pruneExpired policy later).keys k = none ∧ ∀ c, b.keys k = some c → c.reset ≤ later := by
    unfold SurfaceBudget.pruneExpired
    split
    · exact .inl rfl
    cases hc : b.keys k with
    | none => exact .inl (by simp [hc])
    | some c =>
      simp only [hc, Option.filter_some]
      split
      · exact .inl rfl
      · exact .inr ⟨rfl, by simp_all⟩
  rcases hkeys with heq | ⟨heq, hreset⟩ <;> rw [heq]
  · exact h.later hle
  · cases w with
    | none => rfl
    | some w => exact ⟨h.1, .inr ⟨rfl, h.2.elim (hreset _) fun hend => hend.2.trans hle⟩⟩

theorem Held.at_le {c : Option WindowCounter} (h : Held policy now w c) (t : Nat) :
    (KeyWindow.at policy w t).allowed ≤ policy.limit := by
  cases w with
  | none => exact Nat.zero_le _
  | some w => ?_
  unfold KeyWindow.at
  split
  next heq => split <;> simp_all [Held]
  · exact Nat.zero_le _

theorem Held.counter (h : Held policy now w (b.keys k)) :
    b.counter policy now k = ⟨(KeyWindow.at policy w now).allowed,
      (KeyWindow.at policy w now).start + policy.window⟩ := by
  have hpos := policy.window_pos
  unfold SurfaceBudget.counter KeyWindow.at
  cases w with
  | none => simp [show b.keys k = none from h]
  | some w => ?_
  rcases h.2 with hc | ⟨hc, hend⟩
  · simp only [hc, Option.getD_some]
    by_cases hlt : now < w.start + policy.window
    · rw [if_neg (by omega), if_pos hlt]
    · rw [if_pos (.inr hlt), if_neg hlt]
  · simp [hc, not_lt.mpr hend]

def SurfaceRun.Sound (policy : RateLimitSurfacePolicy) (r : SurfaceRun) (now : Nat) : Prop :=
  ∀ k, Held policy now (r.windows k) (r.budget.keys k)

theorem SurfaceRun.Sound.allow_eq {r r' : SurfaceRun} {call : AllowCall}
    (h : r.Sound policy call.now) (h' : r'.Sound policy call.now)
    (hw : r'.windows (rateLimitKey sum256 call.key) = r.windows (rateLimitKey sum256 call.key)) :
    (r'.budget.allow sum256 policy call).1 = (r.budget.allow sum256 policy call).1 := by
  simp only [SurfaceBudget.allow, ((h _).prune le_rfl).counter, ((h' _).prune le_rfl).counter, hw,
    apply_ite Prod.fst]

theorem SurfaceRun.Sound.step {r : SurfaceRun} (h : r.Sound policy now) {call : AllowCall}
    (hle : now ≤ call.now) : (r.step sum256 policy call).Sound policy call.now := by
  intro k
  have hcounter := ((h (rateLimitKey sum256 call.key)).prune hle).counter
  have hmax := (h (rateLimitKey sum256 call.key)).at_le call.now
  simp only [SurfaceRun.step, SurfaceBudget.allow, hcounter]
  generalize rateLimitKey sum256 call.key = key at hmax ⊢
  generalize KeyWindow.at policy (r.windows key) call.now = w at hmax ⊢
  by_cases hk : k = key
  · subst hk
    split
    next => simpa only [update_self] using ⟨hmax, .inl rfl⟩
    next hlt => simpa only [update_self] using ⟨Nat.lt_of_not_le hlt, .inl rfl⟩
  · split <;> simpa only [update_of_ne hk] using (h k).prune hle

theorem SurfaceRun.run_concat (calls : List AllowCall) (call : AllowCall) :
    SurfaceRun.run sum256 policy (calls ++ [call]) =
      (SurfaceRun.run sum256 policy calls).step sum256 policy call := List.foldl_concat ..

theorem SurfaceRun.run_sound {calls : List AllowCall} (hsorted : calls.Pairwise (·.now ≤ ·.now)) :
    ∀ {t}, (∀ c ∈ calls, c.now ≤ t) → (SurfaceRun.run sum256 policy calls).Sound policy t := by
  induction calls using List.reverseRecOn with
  | nil => intro t _ k; rfl
  | append_singleton calls call ih =>
    intro t ht k
    obtain ⟨hcalls, -, hlast⟩ := List.pairwise_append.mp hsorted
    rw [run_concat]
    have hcall : ∀ c ∈ calls, c.now ≤ call.now := fun c hc => hlast c hc call (by simp)
    have hk := @SurfaceRun.Sound.step sum256 policy call.now _ (ih hcalls hcall) call le_rfl k
    generalize (run sum256 policy calls).step sum256 policy call = r at hk ⊢
    exact hk.later (ht call (by simp))

def ownCalls (sum256 : List UInt8 → List UInt8) (k : String) (calls : List AllowCall) :
    List AllowCall := calls.filter (rateLimitKey sum256 ·.key = k)

/-- They alone decide on the window of the key, and so on its calls. -/
theorem SurfaceRun.windows_ownCalls {calls : List AllowCall}
    (hsorted : calls.Pairwise (·.now ≤ ·.now)) (k : String) :
    (SurfaceRun.run sum256 policy (ownCalls sum256 k calls)).windows k =
      (SurfaceRun.run sum256 policy calls).windows k := by
  induction calls using List.reverseRecOn with
  | nil => rfl
  | append_singleton calls call ih =>
    obtain ⟨hcalls, -, hlast⟩ := List.pairwise_append.mp hsorted
    rw [ownCalls, List.filter_append, run_concat]
    by_cases hk : rateLimitKey sum256 call.key = k
    · subst hk
      have hle : ∀ c ∈ calls, c.now ≤ call.now := fun c hc => hlast c hc call (by simp)
      have hallow : ((run sum256 policy (ownCalls sum256 _ calls)).budget.allow sum256 policy call).1 =
          ((run sum256 policy calls).budget.allow sum256 policy call).1 :=
        (run_sound hcalls hle).allow_eq (run_sound (hcalls.sublist List.filter_sublist)
          fun c hc => hle c (List.mem_of_mem_filter hc)) (ih hcalls)
      rw [List.filter_cons_of_pos (by simp), List.filter_nil, run_concat, ← ownCalls]
      simp only [SurfaceRun.step, hallow, update_self, ih hcalls]
    · rw [List.filter_cons_of_neg (by simpa using hk), List.filter_nil, List.append_nil, ← ownCalls,
        ih hcalls]
      simp only [SurfaceRun.step, update_of_ne (Ne.symm hk)]

/-- In calls at times that do not decrease, no window of a key has more than the limit, a window
that has not ended keeps its counter through a pruning, and calls under another key do not change a
decision. -/
theorem rate_limit (sum256 : List UInt8 → List UInt8) (policy : RateLimitSurfacePolicy)
    {calls : List AllowCall} (hsorted : calls.Pairwise (·.now ≤ ·.now)) :
    let r := SurfaceRun.run sum256 policy calls
    (∀ k w, r.windows k = some w → w.allowed ≤ policy.limit) ∧
    (∀ k w t, r.windows k = some w → (∀ c ∈ calls, c.now ≤ t) → t < w.start + policy.window →
      (r.budget.pruneExpired policy t).keys k = some ⟨w.allowed, w.start + policy.window⟩) ∧
    (∀ call, (∀ c ∈ calls, c.now ≤ call.now) →
      ((SurfaceRun.run sum256 policy
          (ownCalls sum256 (rateLimitKey sum256 call.key) calls)).budget.allow sum256 policy call).1 =
        (r.budget.allow sum256 policy call).1) := by
  intro r
  have hsound : ∀ {t}, (∀ c ∈ calls, c.now ≤ t) → r.Sound policy t := SurfaceRun.run_sound hsorted
  refine ⟨fun k w hw => ?_, fun k w t hw ht hlt => ?_, fun call hle => ?_⟩
  · have h := hsound (fun c hc => List.le_max?_getD_of_mem (k := 0) (List.mem_map_of_mem hc)) k
    rw [hw] at h
    exact h.1
  · have h := (hsound ht k).prune le_rfl
    rw [hw] at h
    exact h.2.resolve_right fun hend => absurd hlt (not_lt.mpr hend.2)
  · exact (hsound hle).allow_eq (SurfaceRun.run_sound (hsorted.sublist List.filter_sublist)
      fun c hc => hle c (List.mem_of_mem_filter hc)) (SurfaceRun.windows_ownCalls hsorted _)

/-- A second key between two calls of the first, with a limit of one call in ten. -/
theorem rate_limit_two_keys :
    let policy : RateLimitSurfacePolicy := ⟨1, 10, by decide, by decide⟩
    let calls : List AllowCall := [⟨1, "a", []⟩, ⟨2, "b", []⟩]
    (SurfaceRun.run (fun _ => []) policy calls).windows "a" = some ⟨1, 1⟩ ∧
      ((SurfaceRun.run (fun _ => []) policy calls).budget.pruneExpired policy 10).keys "a" =
        some ⟨1, 11⟩ := by
  intro policy calls
  have hw : (SurfaceRun.run (fun _ => []) policy calls).windows "a" = some ⟨1, 1⟩ := by decide
  have h := (@rate_limit (fun _ => []) policy calls (by decide)).2.1 "a" ⟨1, 1⟩ 10 hw
  exact ⟨hw, h (by decide) (by decide)⟩

/-- A call without a key is limited by a call whose key is `anonymous`. -/
theorem anonymous_key_is_shared :
    let policy : RateLimitSurfacePolicy := ⟨1, 10, by decide, by decide⟩
    trimBy isSpace "" ≠ trimBy isSpace "anonymous" ∧
    ((SurfaceRun.run (fun _ => []) policy [⟨1, "anonymous", []⟩]).budget.allow (fun _ => []) policy
      ⟨2, "", []⟩).1.limited = true ∧
    ((SurfaceRun.run (fun _ => []) policy []).budget.allow (fun _ => []) policy
      ⟨2, "", []⟩).1.limited = false := by
  decide

end Scrap.Security
