/-
# Fallible steps that keep their state

A state machine whose steps can fail, and where a failed step leaves the state it had reached, is
`EStateM ε σ`. Its rules:

* `bind_ok`, `bind_of_ok`, `bind_of_error`: peel one step off a composed computation;
* `runAll`: run a list of steps up to the first error, with the induction rule `runAll_invariant`
  (an invariant may speak about the steps taken so far);
* `Keeps`: an invariant that a computation keeps whether it succeeds or fails, with a rule for each
  way to compose computations, and `attempt`, a computation whose error goes to its caller;
* `Meets`: a condition met before every step of a run, and `runAll_ok_iff_meets`, which reduces
  "every step of the run succeeds" to one lemma about one step; in `MeetsFrom` the condition may
  speak about the steps taken so far;
* `both`: two machines that take their steps side by side.
-/
import Mathlib.Data.List.Basic

namespace Scrap.Fallible

variable {ε σ α β ι : Type}

/-- The result of a computation without the state. -/
def outcome (m : EStateM ε σ α) (s : σ) : Except ε α :=
  match m.run s with
  | .ok a _ => .ok a
  | .error e _ => .error e

/-- The state a computation leaves, whether it succeeded or not. -/
def after (m : EStateM ε σ α) (s : σ) : σ :=
  match m.run s with
  | .ok _ s' => s'
  | .error _ s' => s'

variable {m : EStateM ε σ α} {s s' s'' : σ} {a : α} {f : α → EStateM ε σ β} {is js : List ι}
  {P : List ι → σ → Prop} {cond : σ → ι → Prop}

theorem after_of_ok (h : m.run s = .ok a s') :
    after m s = s' := by
  rw [after, h]

theorem outcome_ok_iff :
    outcome m s = .ok a ↔ m.run s = .ok a (after m s) := by
  unfold outcome after
  cases m.run s with
  | ok b s' => simp
  | error e s' => simp

theorem outcome_error_iff {e : ε} :
    outcome m s = .error e ↔ m.run s = .error e (after m s) := by
  unfold outcome after
  cases m.run s with
  | ok b s' => simp
  | error e' s' => simp

theorem toOption_eq_some {x : Except ε α} : x.toOption = some a ↔ x = .ok a := by
  cases x with
  | ok b => simp [Except.toOption]
  | error e => simp [Except.toOption]

theorem bind_ok {b : β} :
    (m >>= f).run s = .ok b s'' ↔ ∃ a s', m.run s = .ok a s' ∧ (f a).run s' = .ok b s'' := by
  rw [EStateM.run_bind]
  cases m.run s with
  | ok a s' => simp
  | error e s' => simp

theorem bind_of_ok (h : m.run s = .ok a s') : (m >>= f).run s = (f a).run s' := by
  rw [EStateM.run_bind, h]

theorem bind_of_error {e : ε}
    (h : m.run s = .error e s') : (m >>= f).run s = .error e s' := by
  rw [EStateM.run_bind, h]

theorem except_bind_ok {m : Except ε α} {f : α → Except ε β} {b : β} :
    (m >>= f) = .ok b ↔ ∃ a, m = .ok a ∧ f a = .ok b := by
  cases m with
  | ok a => simp [bind, Except.bind]
  | error e => simp [bind, Except.bind]

theorem get_bind (f : σ → EStateM ε σ α) (s : σ) :
    ((get : EStateM ε σ σ) >>= f).run s = (f s).run s := rfl

theorem set_bind (t : σ) (f : Unit → EStateM ε σ α) (s : σ) :
    ((set t : EStateM ε σ Unit) >>= f).run s = (f ()).run t := rfl

theorem modify_bind (g : σ → σ) (f : Unit → EStateM ε σ α) (s : σ) :
    ((modify g : EStateM ε σ Unit) >>= f).run s = (f ()).run (g s) := rfl

@[simp] theorem throw_run (e : ε) (s : σ) :
    (throw e : EStateM ε σ α).run s = .error e s := rfl

/-! ## What holds after a computation, however it ends -/

section Keeps

variable {I : σ → Prop} {m : EStateM ε σ α} {f : α → EStateM ε σ β}

/-- `I` holds after `m` if it held before, also when `m` fails. -/
def Keeps (I : σ → Prop) (m : EStateM ε σ α) : Prop := ∀ s, I s → I (after m s)

@[simp] theorem after_pure (a : α) (s : σ) : after (pure a : EStateM ε σ α) s = s := rfl

@[simp] theorem after_throw (e : ε) (s : σ) : after (throw e : EStateM ε σ α) s = s := rfl

@[simp] theorem after_set (s t : σ) : after (set t : EStateM ε σ Unit) s = t := rfl

@[simp] theorem after_modify (g : σ → σ) (s : σ) : after (modify g : EStateM ε σ Unit) s = g s :=
  rfl

@[simp] theorem after_get_bind (g : σ → EStateM ε σ α) (s : σ) : after (get >>= g) s = after (g s) s :=
  rfl

@[simp] theorem after_set_bind (t : σ) (g : Unit → EStateM ε σ α) (s : σ) :
    after (set t >>= g) s = after (g ()) t := rfl

@[simp] theorem after_modify_bind (h : σ → σ) (g : Unit → EStateM ε σ α) (s : σ) :
    after (modify h >>= g) s = after (g ()) (h s) := rfl

theorem Keeps.pure (a : α) : Keeps I (pure a : EStateM ε σ α) := fun _ h => h

theorem Keeps.throw (e : ε) : Keeps I (throw e : EStateM ε σ α) := fun _ h => h

theorem Keeps.modify {g : σ → σ} (hg : ∀ s, I s → I (g s)) :
    Keeps I (modify g : EStateM ε σ PUnit) := hg

theorem Keeps.after_bind (hf : ∀ a, Keeps I (f a)) (hm : I (after m s)) :
    I (after (m >>= f) s) := by
  unfold after at hm ⊢
  rw [EStateM.run_bind]
  cases hrun : m.run s with
  | ok a s' =>
    simp only [hrun] at hm ⊢
    exact hf a s' hm
  | error e s' => simpa only [hrun] using hm

theorem Keeps.bind (hm : Keeps I m) (hf : ∀ a, Keeps I (f a)) : Keeps I (m >>= f) :=
  fun s hs => Keeps.after_bind hf (hm s hs)

theorem Keeps.get {g : σ → EStateM ε σ α} (hg : ∀ s, I s → I (after (g s) s)) :
    Keeps I ((get : EStateM ε σ σ) >>= g) := hg

theorem Keeps.tryCatch {g : ε → EStateM ε σ α} (hm : Keeps I m) (hg : ∀ e, Keeps I (g e)) :
    Keeps I (tryCatch m g) := by
  intro s hs
  have hms := hm s hs
  show I (match EStateM.tryCatch m g s with | .ok _ s' => s' | .error _ s' => s')
  unfold after EStateM.run at hms
  unfold EStateM.tryCatch
  cases hrun : m s with
  | ok a s' => simpa only [hrun] using hms
  | error e s' =>
    simp only [hrun] at hms ⊢
    exact hg e s' hms

theorem Keeps.ok (h : Keeps I m) (hs : I s) (hrun : m.run s = .ok a s') : I s' :=
  after_of_ok hrun ▸ h s hs

def attempt (m : EStateM ε σ α) : EStateM ε σ Unit := fun s => .ok () (after m s)

@[simp] theorem attempt_run (m : EStateM ε σ α) (s : σ) : (attempt m).run s = .ok () (after m s) :=
  rfl

end Keeps

/-! ## Runs -/

def runAll (step : ι → EStateM ε σ Unit) : List ι → EStateM ε σ Unit
  | [] => pure ()
  | i :: is => do
      step i
      runAll step is

variable {step : ι → EStateM ε σ Unit}

@[simp] theorem runAll_nil (s : σ) : (runAll step []).run s = .ok () s := rfl

theorem runAll_cons_ok {i : ι} :
    (runAll step (i :: is)).run s = .ok () s'' ↔
      ∃ s', (step i).run s = .ok () s' ∧ (runAll step is).run s' = .ok () s'' := by
  rw [runAll, bind_ok]
  constructor
  · rintro ⟨⟨⟩, s', h, h'⟩
    exact ⟨s', h, h'⟩
  · rintro ⟨s', h, h'⟩
    exact ⟨(), s', h, h'⟩

theorem runAll_append_ok :
    (runAll step (is ++ js)).run s = .ok () s'' ↔
      ∃ s', (runAll step is).run s = .ok () s' ∧ (runAll step js).run s' = .ok () s'' := by
  induction is generalizing s with
  | nil => simp
  | cons i is ih =>
    rw [List.cons_append, runAll_cons_ok]
    constructor
    · rintro ⟨t, hi, hrest⟩
      obtain ⟨s', his, hjs⟩ := ih.mp hrest
      exact ⟨s', runAll_cons_ok.mpr ⟨t, hi, his⟩, hjs⟩
    · rintro ⟨s', hcons, hjs⟩
      obtain ⟨t, hi, his⟩ := runAll_cons_ok.mp hcons
      exact ⟨t, hi, ih.mpr ⟨s', his, hjs⟩⟩

theorem runAll_append_of_ok {t : σ} (h : (runAll step is).run s = .ok () t) :
    (runAll step (is ++ js)).run s = (runAll step js).run t := by
  induction is generalizing s with
  | nil => cases h; rfl
  | cons i is ih =>
    obtain ⟨u, hi, hrest⟩ := runAll_cons_ok.mp h
    rw [List.cons_append, runAll, bind_of_ok hi]
    exact ih hrest

/-- The invariant rule. `P l s` may mention the steps `l` taken so far. -/
theorem runAll_invariant_from (hstep : ∀ l i t t', P l t → (step i).run t = .ok () t' → P (l ++ [i]) t') :
    ∀ (is : List ι) (l : List ι) (s s' : σ), P l s → (runAll step is).run s = .ok () s' →
      P (l ++ is) s'
  | [], l, s, s', hP, hrun => by
    cases hrun
    simpa using hP
  | i :: is, l, s, s', hP, hrun => by
    obtain ⟨t, hi, hrest⟩ := runAll_cons_ok.mp hrun
    have hnext := runAll_invariant_from hstep is (l ++ [i]) t s' (hstep l i s t hP hi) hrest
    simpa using hnext

theorem runAll_invariant (h0 : P [] s)
    (hstep : ∀ l i t t', P l t → (step i).run t = .ok () t' → P (l ++ [i]) t')
    (hrun : (runAll step is).run s = .ok () s') : P is s' := by
  have h := runAll_invariant_from hstep is [] s s' h0 hrun
  simpa using h

/-- `cond` holds before every step of the run. -/
def Meets (step : ι → EStateM ε σ Unit) (cond : σ → ι → Prop) : σ → List ι → Prop
  | _, [] => True
  | s, i :: is => cond s i ∧ Meets step cond (after (step i) s) is

theorem Meets.of_append :
    ∀ {is : List ι} {s : σ}, Meets step cond s (is ++ js) → Meets step cond s is
  | [], _, _ => trivial
  | _ :: _, _, ⟨h, hrest⟩ => ⟨h, Meets.of_append hrest⟩

theorem meets_append {cond : σ → ι → Prop} {js : List ι} {s' : σ} :
    ∀ {is : List ι} {s : σ}, (runAll step is).run s = .ok () s' →
      (Meets step cond s (is ++ js) ↔ Meets step cond s is ∧ Meets step cond s' js)
  | [], s, hrun => by
    cases hrun
    simp [Meets]
  | i :: is, s, hrun => by
    obtain ⟨t, hi, hrest⟩ := runAll_cons_ok.mp hrun
    simp only [List.cons_append, Meets, after_of_ok hi, meets_append hrest, and_assoc]

theorem Meets.invariant {P : σ → Prop}
    (hstep : ∀ i t t', P t → cond t i → (step i).run t = .ok () t' → P t') :
    ∀ {is : List ι} {s s' : σ}, P s → Meets step cond s is →
      (runAll step is).run s = .ok () s' → P s'
  | [], s, s', hP, _, hrun => by
    cases hrun
    exact hP
  | i :: is, s, s', hP, ⟨hcond, hmeets⟩, hrun => by
    obtain ⟨t, hi, hrest⟩ := runAll_cons_ok.mp hrun
    rw [after_of_ok hi] at hmeets
    exact Meets.invariant hstep (hstep i s t hP hcond hi) hmeets hrest

def MeetsFrom (step : ι → EStateM ε σ Unit) (cond : List ι → σ → ι → Prop) :
    List ι → σ → List ι → Prop
  | _, _, [] => True
  | l, s, i :: is => cond l s i ∧ MeetsFrom step cond (l ++ [i]) (after (step i) s) is

theorem MeetsFrom.invariant {cond : List ι → σ → ι → Prop}
    (hstep : ∀ l i t t', P l t → cond l t i → (step i).run t = .ok () t' → P (l ++ [i]) t') :
    ∀ {is : List ι} {l : List ι} {s s' : σ}, P l s → MeetsFrom step cond l s is →
      (runAll step is).run s = .ok () s' → P (l ++ is) s'
  | [], l, s, s', hP, _, hrun => by
    cases hrun
    simpa using hP
  | i :: is, l, s, s', hP, ⟨hcond, hmeets⟩, hrun => by
    obtain ⟨t, hi, hrest⟩ := runAll_cons_ok.mp hrun
    rw [after_of_ok hi] at hmeets
    have hnext := MeetsFrom.invariant hstep (hstep l i s t hP hcond hi) hmeets hrest
    simpa using hnext

theorem meetsFrom_append {cond : List ι → σ → ι → Prop} :
    ∀ {is l : List ι} {s : σ}, (runAll step is).run s = .ok () s' →
      (MeetsFrom step cond l s (is ++ js) ↔
        MeetsFrom step cond l s is ∧ MeetsFrom step cond (l ++ is) s' js)
  | [], l, s, hrun => by
    cases hrun
    simp [MeetsFrom]
  | i :: is, l, s, hrun => by
    obtain ⟨t, hi, hrest⟩ := runAll_cons_ok.mp hrun
    simp only [List.cons_append, MeetsFrom, after_of_ok hi, meetsFrom_append hrest, and_assoc,
      List.append_assoc, List.nil_append]

/-- If under an invariant one step succeeds exactly when `cond` holds, a run succeeds exactly when
`cond` holds before each of its steps. -/
theorem runAll_ok_iff_meets {Inv : σ → Prop}
    (hstep : ∀ s i, Inv s → ((∃ s', (step i).run s = .ok () s') ↔ cond s i))
    (hinv : ∀ s i s', Inv s → (step i).run s = .ok () s' → Inv s') :
    ∀ (is : List ι) (s : σ), Inv s →
      ((∃ s', (runAll step is).run s = .ok () s') ↔ Meets step cond s is)
  | [], s, _ => by simp [Meets]
  | i :: is, s, hs => by
    constructor
    · rintro ⟨s'', hrun⟩
      obtain ⟨s', hi, hrest⟩ := runAll_cons_ok.mp hrun
      refine ⟨(hstep s i hs).mp ⟨s', hi⟩, ?_⟩
      rw [after_of_ok hi]
      exact (runAll_ok_iff_meets hstep hinv is s' (hinv s i s' hs hi)).mp ⟨s'', hrest⟩
    · rintro ⟨hcond, hmeets⟩
      obtain ⟨s', hi⟩ := (hstep s i hs).mpr hcond
      rw [after_of_ok hi] at hmeets
      obtain ⟨s'', hrest⟩ := (runAll_ok_iff_meets hstep hinv is s' (hinv s i s' hs hi)).mpr hmeets
      exact ⟨s'', runAll_cons_ok.mpr ⟨s', hi, hrest⟩⟩

/-! ## Two machines side by side -/

section Both

variable {τ : Type} {m : EStateM ε σ Unit} {n : EStateM ε τ Unit}

def both (m : EStateM ε σ Unit) (n : EStateM ε τ Unit) : EStateM ε (σ × τ) Unit := fun p =>
  match m.run p.1 with
  | .error e s => .error e (s, p.2)
  | .ok () s =>
    match n.run p.2 with
    | .error e t => .error e (s, t)
    | .ok () t => .ok () (s, t)

theorem both_ok {p q : σ × τ} :
    (both m n).run p = .ok () q ↔ m.run p.1 = .ok () q.1 ∧ n.run p.2 = .ok () q.2 := by
  show both m n p = _ ↔ _
  unfold both
  cases m.run p.1 with
  | error e s => simp
  | ok a s => ?_
  cases n.run p.2 with
  | error e t => simp
  | ok b t => simp [Prod.ext_iff]

theorem runAll_both_ok {l : ι → EStateM ε σ Unit} {r : ι → EStateM ε τ Unit} {p q : σ × τ} :
    (runAll (fun i => both (l i) (r i)) is).run p = .ok () q ↔
      (runAll l is).run p.1 = .ok () q.1 ∧ (runAll r is).run p.2 = .ok () q.2 := by
  induction is generalizing p with
  | nil => simp [Prod.ext_iff]
  | cons i is ih =>
    simp only [runAll_cons_ok, both_ok, ih, Prod.exists]
    constructor
    · rintro ⟨s, t, ⟨hl, hr⟩, hls, hrs⟩
      exact ⟨⟨s, hl, hls⟩, ⟨t, hr, hrs⟩⟩
    · rintro ⟨⟨s, hl, hls⟩, ⟨t, hr, hrs⟩⟩
      exact ⟨s, t, ⟨hl, hr⟩, hls, hrs⟩

theorem Meets.both_cons {l : ι → EStateM ε σ Unit} {r : ι → EStateM ε τ Unit}
    {cond : σ × τ → ι → Prop} {i : ι} {t : τ}
    (hl : outcome (l i) s = .ok ()) (hr : outcome (r i) t = .ok ()) (hcond : cond (s, t) i)
    (hrest : Meets (fun i => both (l i) (r i)) cond (after (l i) s, after (r i) t) is) :
    Meets (fun i => both (l i) (r i)) cond (s, t) (i :: is) := by
  have hafter : after (both (l i) (r i)) (s, t) = (after (l i) s, after (r i) t) :=
    after_of_ok (both_ok.mpr ⟨outcome_ok_iff.mp hl, outcome_ok_iff.mp hr⟩)
  exact ⟨hcond, hafter ▸ hrest⟩

end Both

end Scrap.Fallible
