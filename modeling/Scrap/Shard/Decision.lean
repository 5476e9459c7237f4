/-
# What the decision on a CommitDocument depends on

The apply looks for the Document's name among the records in sight: those of its Transaction in the
`.idx` files of the Blocks the Transaction lists. There is no such record, exactly one, or more
than one, and the place of the one record against the Transaction's count tells a settled Document
from one whose count is still to come. `View.Takes` states what the view must be for the apply to
succeed, and `applyCommitDocument_nil_iff` that this is exactly when it does.
-/
import Scrap.Shard.Settled

namespace Scrap

open Block Fallible

/-! ## The scan of the visible records -/

section Scan

variable {doc : CommitDocument} {c : UInt16}

theorem scanVisible_of_exists : ∀ {l : List ResolvedDocument} {n : Nat}
    {state : CommitProjectionState} {r : CommitProjectionState × Nat},
      state.targetExists = true → scanVisible doc c n state l = .ok r →
      ∀ d ∈ l, d.2.docName ≠ doc.documentName
  | [], _, _, _, _, _ => by simp
  | (b, e) :: l, n, state, r, hex, hok => by
    rw [scanVisible] at hok
    by_cases he : e.docName ≠ doc.documentName
    · rw [if_pos he] at hok
      have ih := scanVisible_of_exists hex hok
      simpa [he] using ih
    · rw [if_neg he, if_pos hex] at hok
      cases hok

/-- The Document is not among the visible records, or it is exactly once. -/
theorem scanVisible_ok : ∀ {l : List ResolvedDocument} {n : Nat}
    {r : CommitProjectionState × Nat}, scanVisible doc c n .zero l = .ok r →
      (∀ d ∈ l, d.2.docName ≠ doc.documentName) ∨
        ∃ l₁ d l₂, l = l₁ ++ d :: l₂ ∧ d.2.docName = doc.documentName ∧
          ∀ x ∈ l₁ ++ l₂, x.2.docName ≠ doc.documentName
  | [], _, _, _ => .inl (by simp)
  | (b, e) :: l, n, r, hok => by
    rw [scanVisible] at hok
    by_cases he : e.docName ≠ doc.documentName
    · rw [if_pos he] at hok
      rcases scanVisible_ok hok with hnone | ⟨l₁, d, l₂, rfl, hd, hother⟩
      · exact .inl (by simpa [he] using hnone)
      · exact .inr ⟨(b, e) :: l₁, d, l₂, rfl, hd, by simpa [he] using hother⟩
    · rw [if_neg he, if_neg (by simp [CommitProjectionState.zero,
        CommitProjectionState.targetExists])] at hok
      have hrest := scanVisible_of_exists (by simp [CommitProjectionState.targetExists]) hok
      exact .inr ⟨[], (b, e), l, rfl, not_ne_iff.mp he, by simpa using hrest⟩

end Scan

/-! ## In sight and counted -/

/-- Among the records in sight that the Transaction counts is the Document's. -/
def View.Sees (v : View) (doc : CommitDocument) : Prop :=
  ∃ r, v.tx doc.transactionID = some r ∧
    ∃ d ∈ (v.visible doc.transactionID r.blockIDs).take r.docCount.toNat,
      d.2.docName = doc.documentName

/-- The Document is taken as counted: its Block is listed and the count is ahead of what is in
sight. -/
def View.CountAhead (v : View) (doc : CommitDocument) (r : Entry) : Prop :=
  doc.blockID ∈ r.blockIDs ∧ (v.visible doc.transactionID r.blockIDs).length < r.docCount.toNat

instance (v : View) (doc : CommitDocument) (r : Entry) : Decidable (v.CountAhead doc r) :=
  inferInstanceAs (Decidable (_ ∧ _))

variable {o : Bool} {r : Entry} {d : ResolvedDocument}

section Views

variable {v w : View} {doc : CommitDocument}

theorem exists_mem_take_iff {α : Type} {P : α → Prop} {l₁ l₂ : List α} {d : α} (hd : P d)
    (hother : ∀ x ∈ l₁ ++ l₂, ¬ P x) (n : Nat) :
    (∃ x ∈ (l₁ ++ d :: l₂).take n, P x) ↔ l₁.length < n := by
  constructor
  · rintro ⟨x, hx, hP⟩
    by_contra hle
    rw [List.take_append_of_le_length (Nat.le_of_not_lt hle)] at hx
    exact hother x (List.mem_append_left _ (List.mem_of_mem_take hx)) hP
  · intro hlt
    refine ⟨d, ?_, hd⟩
    rw [List.take_append]
    obtain ⟨k, hk⟩ : ∃ k, n - l₁.length = k + 1 := ⟨n - l₁.length - 1, by omega⟩
    rw [hk]
    exact List.mem_append_right _ (by simp)

theorem View.action_unnamed (hr : v.tx doc.transactionID = some r)
    (hno : ∀ d ∈ v.visible doc.transactionID r.blockIDs, d.2.docName ≠ doc.documentName) :
    v.action doc = .write false (decide (v.CountAhead doc r)) := by
  simp only [View.action, View.commitState, hr, scanVisible_none _ _ _ hno]
  simp only [Nat.zero_add]
  congr 1

theorem View.action_cases (hr : v.tx doc.transactionID = some r) :
    (∃ err, v.action doc = .reject err) ∨
      (∀ d ∈ v.visible doc.transactionID r.blockIDs, d.2.docName ≠ doc.documentName) ∨
      ∃ l₁ d l₂, v.visible doc.transactionID r.blockIDs = l₁ ++ d :: l₂ ∧
        d.2.docName = doc.documentName ∧ ∀ x ∈ l₁ ++ l₂, x.2.docName ≠ doc.documentName := by
  cases hs : scanVisible doc r.docCount 0 .zero (v.visible doc.transactionID r.blockIDs) with
  | error err => exact .inl ⟨err, by simp [View.action, View.commitState, hr, hs]⟩
  | ok p => exact .inr (scanVisible_ok hs)

theorem View.not_sees (hr : v.tx doc.transactionID = some r)
    (hno : ∀ d ∈ v.visible doc.transactionID r.blockIDs, d.2.docName ≠ doc.documentName) :
    ¬ v.Sees doc := by
  rintro ⟨r', hr', d, hd, hname⟩
  obtain rfl : r = r' := by simpa using hr.symm.trans hr'
  exact hno d (List.mem_of_mem_take hd) hname

theorem View.sees_iff (hr : v.tx doc.transactionID = some r) {l₁ l₂ : List ResolvedDocument}
    (hvis : v.visible doc.transactionID r.blockIDs = l₁ ++ d :: l₂)
    (hd : d.2.docName = doc.documentName)
    (hother : ∀ x ∈ l₁ ++ l₂, x.2.docName ≠ doc.documentName) :
    v.Sees doc ↔ l₁.length + 1 ≤ r.docCount.toNat := by
  unfold View.Sees
  rw [hr]
  simp only [Option.some.injEq, exists_eq_left']
  rw [hvis]
  exact exists_mem_take_iff (P := fun x : ResolvedDocument => x.2.docName = doc.documentName) hd hother _

/-- A record is found and not rejected: the content is the same, and if it is not counted it is in
the command's own Block. -/
theorem commitAction_found {counted : Bool}
    (h : ∀ err, commitAction doc ⟨some d, counted⟩ ≠ .reject err) :
    commitDocumentMatchesExisting doc d.2 = true ∧ (counted = false → d.1 = doc.blockID) := by
  unfold commitAction at h
  cases counted with
  | true =>
    simp only [if_true] at h
    by_cases hm : commitDocumentMatchesExisting doc d.2 = true
    · exact ⟨hm, by simp⟩
    · rw [if_neg hm] at h
      exact absurd rfl (h _)
  | false =>
    simp only [Bool.false_eq_true] at h
    by_cases hm : d.1 ≠ doc.blockID ∨ (!commitDocumentMatchesExisting doc d.2) = true
    · rw [if_pos hm] at h
      exact absurd rfl (h _)
    · push Not at hm
      exact ⟨by simpa using hm.2, fun _ => hm.1⟩

namespace View

theorem commit_not_reject (hw : ∃ w', w.commit o doc = some w') (err : ShardErr) :
    w.action doc ≠ .reject err := by
  rintro herr
  obtain ⟨w', hw'⟩ := hw
  simp [commit, herr] at hw'

/-! ## When the apply succeeds -/

theorem commitWrite_iff {a c : Bool} :
    (∃ v', v.commitWrite o doc a c = some v') ↔
      ∃ entry es, doc.indexEntry? = some entry ∧ v.idx doc.blockID = some es ∧
        (FieldsFit entry ∨ (if o then a else hasRecord es doc) = true) ∧
        (c = true ∨ (v.hasRoom doc.transactionID ∧ v.listFits doc.transactionID doc.blockID)) := by
  simp only [commitWrite_some]
  constructor
  · rintro ⟨v', entry, v₁, hentry, hw, hcount⟩
    obtain ⟨es, hes, hfit⟩ := writeIdx_some.mp hw
    refine ⟨entry, es, hentry, hes, hfit.elim (fun h => .inr h.1) (fun h => .inl h.2.1), ?_⟩
    refine hcount.imp And.left fun h => ?_
    obtain ⟨hroom, -⟩ := count_some.mp h.2
    unfold hasRoom listFits at hroom
    rwa [writeIdx_tx hw] at hroom
  · rintro ⟨entry, es, hentry, hes, hfit, hroom⟩
    obtain ⟨v₁, hw⟩ : ∃ v₁, v.writeIdx o doc entry a = some v₁ := by
      simp only [writeIdx_some, hes, Option.some.injEq, exists_eq_left']
      cases hrec : (if o then a else hasRecord es doc) with
      | true => exact ⟨v, .inl ⟨rfl, rfl⟩⟩
      | false => exact ⟨_, .inr ⟨rfl, hfit.resolve_right (by simp [hrec]), rfl⟩⟩
    cases hc : c with
    | true => exact ⟨v₁, entry, v₁, hentry, hw, .inl ⟨rfl, rfl⟩⟩
    | false => ?_
    refine ⟨_, entry, v₁, hentry, hw, .inr ⟨rfl, count_some.mpr ⟨?_, rfl⟩⟩⟩
    unfold hasRoom listFits
    rw [writeIdx_tx hw]
    exact hroom.resolve_left (by simp [hc])

/-- A command that commits is settled exactly when its record is in sight. -/
theorem sees_iff_done (hv : ∃ v', v.commit o doc = some v') :
    v.Sees doc ↔ v.action doc = .done := by
  cases hr : v.tx doc.transactionID with
  | none =>
    refine iff_of_false ?_ ?_
    · rintro ⟨r, hr', -⟩
      exact absurd (hr.symm.trans hr') (by simp)
    · simp [action, commitState, hr, commitAction, CommitProjectionState.zero]
  | some r =>
    obtain ⟨err, herr⟩ | hno | ⟨l₁, d, l₂, hvis, hd, hother⟩ := action_cases hr
    · exact absurd herr (commit_not_reject hv err)
    · exact iff_of_false (not_sees hr hno) (by simp [action_unnamed hr hno])
    have hact := action_of_match hr hvis hd hother
    have hreject := commit_not_reject hv
    rw [hact] at hreject ⊢
    obtain ⟨hmatch, hown⟩ := commitAction_found hreject
    rw [sees_iff hr hvis hd hother]
    by_cases hcounted : l₁.length + 1 ≤ r.docCount.toNat
    · simp [commitAction, hcounted, hmatch]
    · have hb : d.1 = doc.blockID := hown (by simpa using hcounted)
      simp [commitAction, hmatch, hb]

theorem writes_iff (hv : ∃ v', v.commit o doc = some v') :
    v.Writes doc ↔ ¬ v.Sees doc := by
  rw [sees_iff_done hv]
  cases hact : v.action doc with
  | done => simp [Writes, hact]
  | write a c => simp [Writes, hact]
  | reject err => exact absurd hact (commit_not_reject hv err)

def named (v : View) (doc : CommitDocument) : List ResolvedDocument :=
  match v.tx doc.transactionID with
  | none => []
  | some r => (v.visible doc.transactionID r.blockIDs).filter (·.2.docName = doc.documentName)

/-- The Block's `.idx` is there, and the record is in it or fits. -/
def Recordable (v : View) (o a : Bool) (doc : CommitDocument) : Prop :=
  ∃ entry es, doc.indexEntry? = some entry ∧ v.idx doc.blockID = some es ∧
    (FieldsFit entry ∨ (if o then a else hasRecord es doc) = true)

def Countable (v : View) (doc : CommitDocument) : Prop :=
  v.hasRoom doc.transactionID ∧ v.listFits doc.transactionID doc.blockID

inductive Takes (v : View) (o : Bool) (doc : CommitDocument) : Prop where
  /-- committed before with the same content -/
  | settled (d : ResolvedDocument) : v.named doc = [d] → v.Sees doc →
      commitDocumentMatchesExisting doc d.2 = true → Takes v o doc
  /-- the record is there, the count is not -/
  | indexed (d : ResolvedDocument) : v.named doc = [d] → ¬ v.Sees doc →
      commitDocumentMatchesExisting doc d.2 = true → d.1 = doc.blockID →
      v.Recordable o true doc → v.Countable doc → Takes v o doc
  | unnamed : v.named doc = [] → v.Recordable o false doc →
      ((∃ r, v.tx doc.transactionID = some r ∧ v.CountAhead doc r) ∨ v.Countable doc) →
      Takes v o doc

theorem commitWrite_iff' {a c : Bool} :
    (∃ v', v.commitWrite o doc a c = some v') ↔
      v.Recordable o a doc ∧ (c = true ∨ v.Countable doc) := by
  rw [commitWrite_iff]
  constructor
  · rintro ⟨entry, es, hentry, hes, hfit, hcount⟩
    exact ⟨⟨entry, es, hentry, hes, hfit⟩, hcount⟩
  · rintro ⟨⟨entry, es, hentry, hes, hfit⟩, hcount⟩
    exact ⟨entry, es, hentry, hes, hfit, hcount⟩

theorem named_of_tx (hr : v.tx doc.transactionID = some r) :
    v.named doc =
      (v.visible doc.transactionID r.blockIDs).filter (·.2.docName = doc.documentName) := by
  simp only [named, hr]

theorem commit_iff_unnamed (hno : v.named doc = []) :
    (∃ v', v.commit o doc = some v') ↔ v.Recordable o false doc ∧
      ((∃ r, v.tx doc.transactionID = some r ∧ v.CountAhead doc r) ∨ v.Countable doc) := by
  cases hr : v.tx doc.transactionID with
  | none =>
    have hact : v.action doc = .write false false := by
      simp [action, commitState, hr, commitAction, CommitProjectionState.zero]
    simp [commit, hact, commitWrite_iff']
  | some r =>
    rw [named_of_tx hr] at hno
    have hno' : ∀ d ∈ v.visible doc.transactionID r.blockIDs, d.2.docName ≠ doc.documentName := by
      simpa using hno
    simp [commit, action_unnamed hr hno', commitWrite_iff']

theorem named_split (hone : v.named doc = [d]) :
    ∃ r l₁ l₂, v.tx doc.transactionID = some r ∧
      v.visible doc.transactionID r.blockIDs = l₁ ++ d :: l₂ ∧
      d.2.docName = doc.documentName ∧ ∀ x ∈ l₁ ++ l₂, x.2.docName ≠ doc.documentName := by
  cases hr : v.tx doc.transactionID with
  | none => simp [named, hr] at hone
  | some r => ?_
  rw [named_of_tx hr] at hone
  obtain ⟨l₁, l₂, hvis, hl₁, hd, hl₂⟩ := List.filter_eq_cons_iff.mp hone
  refine ⟨r, l₁, l₂, rfl, hvis, by simpa using hd, fun x hx => ?_⟩
  rcases List.mem_append.mp hx with hx | hx
  · simpa using hl₁ x hx
  · simpa using List.filter_eq_nil_iff.mp hl₂ x hx

theorem commit_iff_named (hone : v.named doc = [d]) :
    (∃ v', v.commit o doc = some v') ↔ commitDocumentMatchesExisting doc d.2 = true ∧
      (v.Sees doc ∨ (d.1 = doc.blockID ∧ v.Recordable o true doc ∧ v.Countable doc)) := by
  obtain ⟨r, l₁, l₂, hr, hvis, hd, hother⟩ := named_split hone
  have hact := action_of_match hr hvis hd hother
  rw [sees_iff hr hvis hd hother, commit, hact]
  by_cases hm : commitDocumentMatchesExisting doc d.2 = true
  · by_cases hcounted : l₁.length + 1 ≤ r.docCount.toNat
    · simp [commitAction, hcounted, hm]
    · by_cases hb : d.1 = doc.blockID <;> simp [commitAction, hcounted, hb, hm, commitWrite_iff']
  · by_cases hcounted : l₁.length + 1 ≤ r.docCount.toNat <;> simp [commitAction, hcounted, hm]

theorem action_of_sees (hone : v.named doc = [d]) (hsees : v.Sees doc) :
    v.action doc = if commitDocumentMatchesExisting doc d.2 then .done
      else .reject .duplicateDocumentConflict := by
  obtain ⟨r, l₁, l₂, hr, hvis, hd, hother⟩ := named_split hone
  have hcounted := (sees_iff hr hvis hd hother).mp hsees
  rw [action_of_match hr hvis hd hother]
  simp [commitAction, hcounted]

/-- All counted records of the Transaction are in sight. -/
def InSight (v : View) (t : String) : Prop :=
  ∀ r, v.tx t = some r → r.docCount.toNat ≤ (v.visible t r.blockIDs).length

theorem action_of_new (hno : v.named doc = []) (hsight : v.InSight doc.transactionID) :
    v.action doc = .write false false := by
  cases hr : v.tx doc.transactionID with
  | none => simp [action, commitState, hr, commitAction, CommitProjectionState.zero]
  | some r => ?_
  rw [named_of_tx hr] at hno
  rw [action_unnamed hr (by simpa using hno)]
  have hle := hsight r hr
  have hno : ¬ v.CountAhead doc r := fun hc => absurd hc.2 (by omega)
  rw [decide_eq_false hno]

theorem commit_named_twice {d' : ResolvedDocument} {l : List ResolvedDocument}
    (htwo : v.named doc = d :: d' :: l) : v.commit o doc = none := by
  cases hr : v.tx doc.transactionID with
  | none => simp [named, hr] at htwo
  | some r => ?_
  rw [named_of_tx hr] at htwo
  obtain ⟨err, herr⟩ | hno | ⟨l₁, x, l₂, hvis, hx, hother⟩ := action_cases hr
  · simp [commit, herr]
  · rw [List.filter_eq_nil_iff.mpr (by simpa using hno)] at htwo
    cases htwo
  have hl₁ : l₁.filter (·.2.docName = doc.documentName) = [] :=
    List.filter_eq_nil_iff.mpr fun y hy => by simpa using hother y (List.mem_append_left _ hy)
  have hl₂ : l₂.filter (·.2.docName = doc.documentName) = [] :=
    List.filter_eq_nil_iff.mpr fun y hy => by simpa using hother y (List.mem_append_right _ hy)
  rw [hvis, List.filter_append, List.filter_cons, hl₁, hl₂] at htwo
  simp [hx] at htwo

theorem commit_iff_takes :
    (∃ v', v.commit o doc = some v') ↔ v.Takes o doc := by
  match hnamed : v.named doc with
  | [] =>
    rw [commit_iff_unnamed hnamed]
    constructor
    · rintro ⟨hrec, hcount⟩
      exact .unnamed hnamed hrec hcount
    rintro (⟨d, hd, -, -⟩ | ⟨d, hd, -, -, -, -, -⟩ | ⟨-, hrec, hcount⟩)
    · exact absurd (hnamed.symm.trans hd) (by simp)
    · exact absurd (hnamed.symm.trans hd) (by simp)
    · exact ⟨hrec, hcount⟩
  | [d] =>
    rw [commit_iff_named hnamed]
    constructor
    · rintro ⟨hm, hcase⟩
      by_cases hsees : v.Sees doc
      · exact .settled d hnamed hsees hm
      · obtain ⟨hb, hrec, hcount⟩ := hcase.resolve_left hsees
        exact .indexed d hnamed hsees hm hb hrec hcount
    · rintro (⟨d', hd, hsees, hm⟩ | ⟨d', hd, -, hm, hb, hrec, hcount⟩ | ⟨hd, -, -⟩)
      · obtain rfl : d = d' := by simpa using hnamed.symm.trans hd
        exact ⟨hm, .inl hsees⟩
      · obtain rfl : d = d' := by simpa using hnamed.symm.trans hd
        exact ⟨hm, .inr ⟨hb, hrec, hcount⟩⟩
      · exact absurd (hnamed.symm.trans hd) (by simp)
  | d :: d' :: l =>
    rw [commit_named_twice hnamed]
    refine iff_of_false (by simp) ?_
    rintro (⟨x, hx, -, -⟩ | ⟨x, hx, -, -, -, -, -⟩ | ⟨hx, -, -⟩) <;>
      exact absurd (hnamed.symm.trans hx) (by simp)

end View

end Views

/-- When an apply returns nil: the view takes the command and, unless it is settled, a closed
Block can be requeued. -/
theorem applyCommitDocument_nil_iff {s : Shard} (hg : s.Good) (doc : CommitDocument) (i : UInt64) :
    (∃ s', (applyCommitDocument doc i).run s = .ok () s') ↔
      s.view.Takes (s.isOpen doc.blockID) doc ∧ (s.view.Sees doc ∨ s.CanRequeue doc i) := by
  rw [applyCommitDocument_ok_iff hg, ← View.commit_iff_takes]
  constructor
  · rintro ⟨hv, hrequeue⟩
    exact ⟨hv, or_iff_not_imp_left.mpr fun hns => hrequeue ((View.writes_iff hv).mpr hns)⟩
  · rintro ⟨hv, hcase⟩
    exact ⟨hv, fun hw => hcase.resolve_left ((View.writes_iff hv).mp hw)⟩

end Scrap
