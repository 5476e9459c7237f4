/-
# What an apply sees and writes: the view

The outcome of a CommitDocument command depends on the `.idx` records, the Transaction records and
whether its Block is open. `View` is that part of the state, and `View.commit` is the apply on it,
as one pure function. `applyCommitDocument_ok_iff` is the refinement, for every state whose open
`.idx` is intact and whose Transaction records are well formed (`Shard.Good`). The `.idx` of a
closed Block may have a torn tail: the apply cuts it off when it reads the file (`Shard.Mends`),
which the view does not show.
-/
import Scrap.Shard.Projection

namespace Scrap

open Block Fallible Function

structure View where
  idx : UInt64 → Option (List IndexEntry)
  tx : String → Option Entry

/-! ## The decision on a view -/

/-- The Transaction's records in one Block; none when the Block has no `.idx`. -/
def View.entriesOf (v : View) (txID : String) (blockID : UInt64) : List IndexEntry :=
  findByTransaction ((v.idx blockID).getD []) txID

/-- The Transaction's records in the order of a Block list, each with its Block. -/
def View.visible (v : View) (txID : String) (blockIDs : List UInt64) :
    List (UInt64 × IndexEntry) :=
  blockIDs.flatMap (fun b => (v.entriesOf txID b).map (Prod.mk b))

variable {s : Shard} {t : String} {b : UInt64}

theorem View.mem_entriesOf {v : View} {e : IndexEntry} (h : e ∈ v.entriesOf t b) :
    e ∈ (v.idx b).getD [] ∧ e.transactionID = t := by
  simpa [View.entriesOf, findByTransaction] using h

theorem View.mem_visible {v : View} {ids : List UInt64} {e : IndexEntry} :
    (b, e) ∈ v.visible t ids ↔ b ∈ ids ∧ e ∈ v.entriesOf t b := by
  simp only [View.visible, List.mem_flatMap, List.mem_map, Prod.mk.injEq]
  constructor
  · rintro ⟨c, hc, e', he', rfl, rfl⟩
    exact ⟨hc, he'⟩
  · rintro ⟨hb, he⟩
    exact ⟨b, hb, e, he, rfl, rfl⟩

/-- The loops of the inspection as one loop over the visible records. -/
def scanVisible (doc : CommitDocument) (docCount : UInt16) :
    Nat → CommitProjectionState → List (UInt64 × IndexEntry) →
      Except ShardErr (CommitProjectionState × Nat)
  | resolved, state, [] => .ok (state, resolved)
  | resolved, state, (b, e) :: rest =>
    if e.docName ≠ doc.documentName then
      scanVisible doc docCount (resolved + 1) state rest
    else if state.targetExists then .error .corruptDuplicateMetadata
    else
      scanVisible doc docCount (resolved + 1)
        ⟨some (b, e), decide (resolved + 1 ≤ docCount.toNat)⟩ rest

def View.commitState (v : View) (doc : CommitDocument) :
    Except ShardErr CommitProjectionState :=
  match v.tx doc.transactionID with
  | none => .ok .zero
  | some entry =>
    match scanVisible doc entry.docCount 0 .zero
        (v.visible doc.transactionID entry.blockIDs) with
    | .error err => .error err
    | .ok (state, resolved) => .ok (finishInspection doc entry state resolved)

/-! ## The writes on a view -/

def View.hasRecord (es : List IndexEntry) (doc : CommitDocument) : Bool :=
  (find es doc.transactionID doc.documentName).isOk

/-- Append the record to the Block's `.idx`, unless it is taken as there: by the decision for the
open Block, by a search for a closed one. -/
def View.writeIdx (v : View) (isOpen : Bool) (doc : CommitDocument) (entry : IndexEntry)
    (alreadyIndexed : Bool) : Option View :=
  match v.idx doc.blockID with
  | none => none
  | some es =>
    if (if isOpen then alreadyIndexed else View.hasRecord es doc) then some v
    else if FieldsFit entry then
      some { v with idx := update v.idx doc.blockID (some (es ++ [entry])) }
    else none

def Entry.addDocument (e : Entry) (blockID : UInt64) : Entry :=
  { e with
    blockIDs := if e.blockIDs.getLast? = some blockID then e.blockIDs
      else e.blockIDs ++ [blockID]
    docCount := e.docCount + 1 }

/-- Count the Document in its Transaction's record, if the count and the number of Blocks
stay below `65536`. -/
def View.count (v : View) (txID : String) (blockID : UInt64) : Option View :=
  match v.tx txID with
  | none => some { v with tx := update v.tx txID (some ⟨[blockID], 1, false⟩) }
  | some e =>
    if e.docCount = maxDocCount ∨ 65536 ≤ (e.addDocument blockID).blockIDs.length then none
    else some { v with tx := update v.tx txID (some (e.addDocument blockID)) }

def View.hasRoom (v : View) (txID : String) : Prop :=
  ∀ e, v.tx txID = some e → e.docCount ≠ maxDocCount

def View.listFits (v : View) (txID : String) (blockID : UInt64) : Prop :=
  ∀ e, v.tx txID = some e → (e.addDocument blockID).blockIDs.length < 65536

inductive CommitAction where
  /-- committed before with the same content -/
  | done
  /-- write the record and, unless counted, count it -/
  | write (alreadyIndexed counted : Bool)
  | reject (err : ShardErr)
deriving DecidableEq

def CommitAction.isWrite : CommitAction → Bool
  | .write _ _ => true
  | _ => false

def commitAction (doc : CommitDocument) (state : CommitProjectionState) : CommitAction :=
  match state.existing with
  | none => .write false state.targetCounted
  | some (b, existing) =>
    if state.targetCounted then
      if commitDocumentMatchesExisting doc existing then .done
      else .reject .duplicateDocumentConflict
    else if b ≠ doc.blockID ∨ !commitDocumentMatchesExisting doc existing then
      .reject .corruptDuplicateMetadata
    else .write true false

def View.action (v : View) (doc : CommitDocument) : CommitAction :=
  match v.commitState doc with
  | .error err => .reject err
  | .ok state => commitAction doc state

/-- The view after the writes of a Document not yet fully committed. -/
def View.commitWrite (v : View) (isOpen : Bool) (doc : CommitDocument)
    (alreadyIndexed counted : Bool) : Option View :=
  match doc.indexEntry? with
  | none => none
  | some entry =>
    match v.writeIdx isOpen doc entry alreadyIndexed with
    | none => none
    | some v' => if counted then some v' else v'.count doc.transactionID doc.blockID

/-- The apply on a view; `none` is a failed apply. -/
def View.commit (v : View) (isOpen : Bool) (doc : CommitDocument) : Option View :=
  match v.action doc with
  | .reject _ => none
  | .done => some v
  | .write alreadyIndexed counted => v.commitWrite isOpen doc alreadyIndexed counted

/-! ## The view of a Shard -/

def Shard.view (s : Shard) : View where
  idx b := (s.blocks b).idx.map (·.entries)
  tx t := (s.idx.get t).toOption

/-- Well-formed Transaction records, and an intact `.idx` under the open writer. -/
structure Shard.Good (s : Shard) : Prop where
  wf : s.idx.WF
  openIdx : ∀ b, s.isOpen b = true → ∃ f, (s.blocks b).idx = some f ∧ f.torn = false

def Shard.Intact (s : Shard) : Prop := ∀ b f, (s.blocks b).idx = some f → f.torn = false

theorem Shard.view_tx_some {e : Entry} :
    s.view.tx t = some e ↔ s.idx.get t = .ok e :=
  toOption_eq_some

theorem Shard.Good.view_tx_none (hg : s.Good) :
    s.view.tx t = none ↔ s.idx.get t = .error .notFound := by
  simp only [Shard.view]
  obtain h | ⟨e, h, -⟩ := hg.wf.get_eq t
  · simp [h, Except.toOption]
  · simp [h, Except.toOption]

theorem Shard.Good.tx_wf (hg : s.Good) {e : Entry} (h : s.view.tx t = some e) :
    e.blockIDs ≠ [] ∧ e.blockIDs.length < 65536 := by
  have hget := Shard.view_tx_some.mp h
  obtain h' | ⟨e', h', hne, hlt⟩ := hg.wf.get_eq t
  · exact absurd (hget.symm.trans h') (by simp)
  · obtain rfl : e = e' := by simpa using hget.symm.trans h'
    exact ⟨hne, hlt⟩

theorem Shard.Good.setBlock (hg : s.Good) {files : BlockFiles}
    (hfile : s.isOpen b = true → ∃ f, files.idx = some f ∧ f.torn = false) :
    (s.setBlock b files).Good := by
  refine ⟨hg.wf, fun c hc => ?_⟩
  by_cases hb : c = b
  · subst hb
    simpa [Shard.setBlock] using hfile hc
  · simpa [Shard.setBlock, hb] using hg.openIdx c hc

theorem Shard.Intact.setBlock (hi : s.Intact) {files : BlockFiles}
    (hfile : ∀ f, files.idx = some f → f.torn = false) : (s.setBlock b files).Intact := by
  intro c f hf
  by_cases hb : c = b
  · subst hb
    exact hfile f (by simpa [Shard.setBlock] using hf)
  · exact hi c f (by simpa [Shard.setBlock, hb] using hf)

/-! ## Torn tails -/

/-- `s'` is `s` with the torn tails of some `.idx` files cut off. -/
structure Shard.Mends (s s' : Shard) : Prop where
  rest : s' = { s with blocks := s'.blocks }
  files : ∀ b, s'.blocks b = s.blocks b ∨ ∃ f, (s.blocks b).idx = some f ∧
    s'.blocks b = { s.blocks b with idx := some { f with torn := false } }

namespace Shard.Mends

variable {s s' s'' : Shard}

theorem refl (s : Shard) : s.Mends s := ⟨rfl, fun _ => .inl rfl⟩

theorem trans (h : s.Mends s') (h' : s'.Mends s'') : s.Mends s'' := by
  refine ⟨?_, fun b => ?_⟩
  · rw [h'.rest, h.rest]
  rcases h'.files b with hb' | ⟨f', hf', hb'⟩
  · rw [hb']
    exact h.files b
  rcases h.files b with hb | ⟨f, hf, hb⟩
  · rw [hb] at hf' hb'
    exact .inr ⟨f', hf', hb'⟩
  · rw [hb] at hf' hb'
    cases hf'
    exact .inr ⟨f, hf, hb'⟩

theorem setIdx {f : IdxFile} (hf : (s.blocks b).idx = some f) :
    s.Mends (s.setIdx b { f with torn := false }) := by
  refine ⟨rfl, fun c => ?_⟩
  by_cases hc : c = b
  · subst hc
    exact .inr ⟨f, hf, s.setIdx_blocks_self c _⟩
  · exact .inl (s.setIdx_blocks_of_ne b _ hc)

theorem idx_eq (h : s.Mends s') : s'.idx = s.idx := by rw [h.rest]

theorem isOpen (h : s.Mends s') (b : UInt64) : s'.isOpen b = s.isOpen b := by
  rw [h.rest]
  rfl

theorem view (h : s.Mends s') : s'.view = s.view := by
  have hidx : s'.view.idx = s.view.idx := by
    funext b
    rcases h.files b with hb | ⟨f, hf, hb⟩
    · simp [Shard.view, hb]
    · simp [Shard.view, hb, hf]
  have htx : s'.view.tx = s.view.tx := by simp [Shard.view, h.idx_eq]
  calc s'.view = ⟨s'.view.idx, s'.view.tx⟩ := rfl
    _ = s.view := by rw [hidx, htx]

theorem good (h : s.Mends s') (hg : s.Good) : s'.Good := by
  refine ⟨h.idx_eq ▸ hg.wf, fun b hb => ?_⟩
  obtain ⟨f, hf, htorn⟩ := hg.openIdx b (h.isOpen b ▸ hb)
  rcases h.files b with hb | ⟨g, -, hb⟩
  · exact ⟨f, hb ▸ hf, htorn⟩
  · exact ⟨_, by rw [hb], rfl⟩

theorem intact (h : s.Mends s') (hi : s.Intact) : s'.Intact := by
  intro b f hf
  rcases h.files b with hb | ⟨g, -, hb⟩
  · exact hi b f (hb ▸ hf)
  · rw [hb] at hf
    cases hf
    rfl

end Shard.Mends

/-! ## The inspection computes the decision -/

theorem blockIndexEntriesForApply_run (s : Shard) (b : UInt64) (t : String) :
    ∃ s', (blockIndexEntriesForApply b t).run s = .ok (s.view.entriesOf t b) s' ∧ s.Mends s' := by
  unfold blockIndexEntriesForApply
  cases hidx : (s.blocks b).idx with
  | none =>
    refine ⟨s, ?_, .refl s⟩
    simp [openIndexReader, View.entriesOf, Shard.view, hidx, findByTransaction]
  | some f =>
    cases htorn : f.torn with
    | false =>
      refine ⟨s, ?_, .refl s⟩
      simp [openIndexReader, View.entriesOf, Shard.view, hidx, htorn]
    | true =>
      refine ⟨_, ?_, .setIdx hidx⟩
      simp only [get_bind, openIndexReader, View.entriesOf, Shard.view, hidx, htorn]
      rfl

theorem inspectCommitProjectionBlock_eq (doc : CommitDocument) (c : UInt16) (b : UInt64) :
    ∀ (es : List IndexEntry) (n : Nat) (state : CommitProjectionState),
      inspectCommitProjectionBlock doc c b n state es =
        scanVisible doc c n state (es.map (Prod.mk b))
  | [], _, _ => rfl
  | e :: es, n, state => by
    simp only [inspectCommitProjectionBlock, List.map_cons, scanVisible,
      inspectCommitProjectionBlock_eq doc c b es]

theorem scanVisible_append (doc : CommitDocument) (c : UInt16) :
    ∀ (l l' : List (UInt64 × IndexEntry)) (n : Nat) (state : CommitProjectionState),
      scanVisible doc c n state (l ++ l') = match scanVisible doc c n state l with
        | .error err => .error err
        | .ok (state', n') => scanVisible doc c n' state' l'
  | [], _, _, _ => rfl
  | (b, e) :: l, l', n, state => by
    simp only [List.cons_append, scanVisible]
    split
    · exact scanVisible_append doc c l l' _ _
    · split
      · rfl
      · exact scanVisible_append doc c l l' _ _

theorem inspectCommitProjectionBlocks_run (doc : CommitDocument) (c : UInt16) :
    ∀ (ids : List UInt64) (s : Shard) (n : Nat) (state : CommitProjectionState),
      ∃ s', s.Mends s' ∧ (inspectCommitProjectionBlocks doc c n state ids).run s =
        match scanVisible doc c n state (s.view.visible doc.transactionID ids) with
        | .error err => .error err s'
        | .ok p => .ok p s'
  | [], s, _, _ => ⟨s, .refl s, rfl⟩
  | b :: ids, s, n, state => by
    have hvis : s.view.visible doc.transactionID (b :: ids) =
        (s.view.entriesOf doc.transactionID b).map (Prod.mk b) ++
          s.view.visible doc.transactionID ids := by
      simp [View.visible]
    obtain ⟨s₁, hs₁, hm₁⟩ := blockIndexEntriesForApply_run s b doc.transactionID
    rw [inspectCommitProjectionBlocks, bind_of_ok hs₁, hvis, scanVisible_append,
      inspectCommitProjectionBlock_eq]
    cases scanVisible doc c n state ((s.view.entriesOf doc.transactionID b).map (Prod.mk b)) with
    | error err => exact ⟨s₁, hm₁, rfl⟩
    | ok p => ?_
    obtain ⟨s₂, hm₂, hs₂⟩ := inspectCommitProjectionBlocks_run doc c ids s₁ p.2 p.1
    rw [hm₁.view] at hs₂
    exact ⟨s₂, hm₁.trans hm₂, hs₂⟩

/-- The inspection returns the decision and does no more than cut torn tails off. -/
theorem inspectCommitProjectionState_run (hg : s.Good) (doc : CommitDocument) :
    ∃ s', s.Mends s' ∧ (inspectCommitProjectionState doc).run s = match s.view.commitState doc with
      | .error err => .error err s'
      | .ok state => .ok state s' := by
  rw [inspectCommitProjectionState, get_bind]
  cases htx : s.view.tx doc.transactionID with
  | none =>
    have hget := hg.view_tx_none.mp htx
    exact ⟨s, .refl s, by simp [Shard.commitProjectionEntry, hget, View.commitState, htx]⟩
  | some e =>
    have hget := Shard.view_tx_some.mp htx
    have hne := (hg.tx_wf htx).1
    simp only [Shard.commitProjectionEntry, hget, hne, View.commitState, htx]
    obtain ⟨s', hm, hs'⟩ := inspectCommitProjectionBlocks_run doc e.docCount e.blockIDs s 0 .zero
    refine ⟨s', hm, ?_⟩
    cases hscan : scanVisible doc e.docCount 0 .zero
        (s.view.visible doc.transactionID e.blockIDs) with
    | error err =>
      refine bind_of_error ?_
      rw [hs', hscan]
    | ok p =>
      refine (bind_of_ok ?_).trans rfl
      rw [hs', hscan]

end Scrap
