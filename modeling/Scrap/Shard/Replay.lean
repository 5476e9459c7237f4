/-
# A crash inside an apply, and the replay after it

An apply makes up to three durable writes: the `.idx` record, the Block in the Transaction's list,
and the Document count. After a crash between them the Member restarts and Raft applies the log
again from some entry at or before the crashed one.

`View.Interrupted` is the view such a crash leaves. Replayed entries before the crashed one are
no-ops (`Interrupted.action_settled`). The crashed entry itself is recognised by its `.idx` record,
when the Transaction's record already lists the Block, or by the search in the `.idx` of a closed
Block. Neither is there when the Block is not listed and is open again: then its record is appended
a second time (`Interrupted.commit_open`).
-/
import Scrap.Shard.LogRun
import Scrap.Shard.Replication

namespace Scrap

open Block Fallible Function Scrap.Group

/-! ## The apply up to the crash -/

inductive CrashPoint where
  /-- between the `.idx` append and the write of the Transaction record -/
  | idxAppended
  /-- between `AddBlockID` and `IncrementDocCount` -/
  | blockListed
deriving DecidableEq

/-- The first write of `addProjectionDocument` to an existing record. -/
def listBlock (txID : String) (blockID : UInt64) : ShardM Unit := do
  let s ← get
  match s.idx.get txID with
  | .error _ => pure ()
  | .ok existing =>
    if existing.blockIDs.getLast? ≠ some blockID then
      match s.idx.addBlockID txID blockID with
      | .error err => throw (.addBlockID err)
      | .ok idx => set { s with idx := idx }
    else pure ()

def commitUpTo (p : CrashPoint) (doc : CommitDocument) (entryIndex : UInt64)
    (targetExists targetCounted : Bool) : ShardM Unit := do
  match doc.indexEntry? with
  | none => throw (.sha256Length doc.sha256.length)
  | some entry => do
      if !targetCounted then preflightProjectionDocCount doc.transactionID
      appendDocumentIndexEntry doc entry entryIndex targetExists
      match p with
      | .idxAppended => pure ()
      | .blockListed => if !targetCounted then listBlock doc.transactionID doc.blockID

/-- `applyCommitDocument` up to the crash. -/
def applyUpTo (p : CrashPoint) (doc : CommitDocument) (entryIndex : UInt64) : ShardM Unit := do
  let state ← inspectCommitProjectionState doc
  let handled ← handleExistingCommitProjection doc state
  if handled then pure ()
  else commitUpTo p doc entryIndex state.targetExists state.targetCounted

/-! ## The view a crash leaves -/

/-- The Document `(b, e)` has its `.idx` record and is not counted; its Block may be listed. -/
structure View.Interrupted (v : View) (L : Ledger) (b : UInt64) (e : IndexEntry) : Prop where
  idx : ∀ c, (v.idx c).getD [] = (L ++ [(b, e)] : Ledger).inBlock c
  other : ∀ t, t ≠ e.transactionID → v.tx t = L.record t
  own : v.tx e.transactionID = L.record e.transactionID ∨
    ∃ r, L.record e.transactionID = some r ∧ r.blockIDs.getLast? ≠ some b ∧
      v.tx e.transactionID = some { r with blockIDs := r.blockIDs ++ [b] }
  room : (L.ofTx e.transactionID).length < 65535
  small : ∀ t, (L.ofTx t).length ≤ 65535

variable {doc : CommitDocument} {r : Entry} {e : IndexEntry} {L : Ledger} {s s' : Shard}
  {t : String} {b : UInt64}

theorem View.Interrupted.env (h : s.view.Interrupted L b e) (henv : s.Env s') :
    s'.view.Interrupted L b e := by
  obtain ⟨-, htx, hidx⟩ := henv
  exact ⟨fun c => (hidx c).trans (h.idx c), fun t ht => by rw [htx]; exact h.other t ht,
    by rw [htx]; exact h.own, h.room, h.small⟩

section Interrupted

variable {v : View} {L : Ledger} {b : UInt64} {e : IndexEntry}

/-- A Transaction with a sorted Block list, the interrupted Document's Block included. -/
def Ledger.SortedWith (L : Ledger) (t : String) (b : UInt64) : Prop :=
  (L.blocks t ++ [b]).Pairwise (· ≤ ·)

theorem Ledger.SortedWith.nodup (h : L.SortedWith t b) :
    (runs (L.blocks t)).Nodup :=
  nodup_runs_of_sorted (fun _ _ h h' => UInt64.le_antisymm h h')
    (List.pairwise_append.mp h).1

theorem Ledger.SortedWith.last (h : L.SortedWith t b) (hb : b ∈ runs (L.blocks t)) :
    (runs (L.blocks t)).getLast? = some b := by
  rw [getLast?_runs]
  exact getLast?_of_mem_of_sorted (fun _ _ h h' => UInt64.le_antisymm h h') h
    (mem_runs.mp hb)

theorem View.Interrupted.tx_eq_some (h : v.Interrupted L b e) (hr : v.tx e.transactionID = some r) :
    L.ofTx e.transactionID ≠ [] ∧ r.docCount.toNat = (L.ofTx e.transactionID).length ∧
      r.completed = false ∧
      (r.blockIDs = runs (L.blocks e.transactionID) ∨
        (runs (L.blocks e.transactionID)).getLast? ≠ some b ∧
          r.blockIDs = runs (L.blocks e.transactionID) ++ [b]) := by
  have hroom := h.room
  have hrecord : ∀ r', L.record e.transactionID = some r' → L.ofTx e.transactionID ≠ [] ∧
        r' = ⟨runs (L.blocks e.transactionID), UInt16.ofNat (L.ofTx e.transactionID).length,
          false⟩ := by
    intro r' hr'
    rw [Ledger.record] at hr'
    by_cases hnil : L.ofTx e.transactionID = []
    · simp [hnil] at hr'
    · rw [if_neg hnil] at hr'
      exact ⟨hnil, (Option.some.inj hr').symm⟩
  have hcount : (UInt16.ofNat (L.ofTx e.transactionID).length).toNat =
      (L.ofTx e.transactionID).length := by
    simp only [UInt16.toNat_ofNat']
    omega
  rcases h.own with hown | ⟨r', hr', hlast, hown⟩
  · obtain ⟨hnil, rfl⟩ := hrecord r (hown.symm.trans hr)
    exact ⟨hnil, hcount, rfl, .inl rfl⟩
  · obtain ⟨hnil, rfl⟩ := hrecord r' hr'
    cases hr.symm.trans hown
    exact ⟨hnil, hcount, rfl, .inr ⟨hlast, rfl⟩⟩

/-- The Transaction's visible records are the counted ones, and behind them the interrupted one if
its Block is listed. -/
theorem View.Interrupted.visible_own (h : v.Interrupted L b e)
    (hsorted : L.SortedWith e.transactionID b) (hr : v.tx e.transactionID = some r) :
    v.visible e.transactionID r.blockIDs =
      gather Prod.fst (L.ofTx e.transactionID) (runs (L.blocks e.transactionID)) ++
        if b ∈ r.blockIDs then [(b, e)] else [] := by
  rw [View.visible_eq_gather h.idx, Ledger.ofTx_concat_self]
  have hnd := hsorted.nodup
  obtain ⟨-, -, -, hids | ⟨hlast, hids⟩⟩ := h.tx_eq_some hr
  · rw [hids]
    by_cases hb : b ∈ runs (L.blocks e.transactionID)
    · obtain ⟨ks, hks⟩ := List.getLast?_eq_some_iff.mp (hsorted.last hb)
      rw [hks] at hnd ⊢
      have hnot : b ∉ ks := fun hmem => by
        rw [List.nodup_append] at hnd
        exact hnd.2.2 b hmem b (by simp) rfl
      rw [if_pos (by simp)]
      exact gather_concat_last (L.ofTx e.transactionID) hnot
    · rw [if_neg hb, List.append_nil]
      exact gather_concat_of_notMem (L.ofTx e.transactionID) hb
  · have hnot : b ∉ runs (L.blocks e.transactionID) := fun hb => hlast (hsorted.last hb)
    rw [hids, if_pos (by simp), gather_concat_last (L.ofTx e.transactionID) hnot]
    congr 1
    refine gather_concat_key _ fun d hd hdb => hnot ?_
    exact Ledger.mem_runs_blocks.mpr ⟨d, hd, hdb⟩

theorem View.Interrupted.action_settled (h : v.Interrupted L b e) (hdist : L.Distinct)
    (hsorted : L.SortedWith e.transactionID b) (hnew : ¬ L.Has e.transactionID e.docName)
    (hnr : L.NeverReturns doc.transactionID) (hhas : L.Has doc.transactionID doc.documentName)
    (hag : L.Agrees doc) :
    v.action doc = .done := by
  obtain ⟨d, hd, hid⟩ := Ledger.has_iff.mp hhas
  have hmem : d ∈ L.ofTx doc.transactionID := Ledger.mem_ofTx.mpr ⟨hd, (Prod.mk.inj hid).1⟩
  have hmatch : (if commitDocumentMatchesExisting doc d.2 then CommitAction.done
      else .reject .duplicateDocumentConflict) = .done := if_pos (hag d hd hid)
  rw [← hmatch]
  by_cases ht : doc.transactionID = e.transactionID
  · -- the Transaction of the interrupted Document
    have hne : v.tx e.transactionID ≠ none := by
      rcases h.own with hown | ⟨r, -, -, hown⟩
      · rw [hown, Ledger.record, if_neg (List.ne_nil_of_mem (ht ▸ hmem))]
        simp
      · simp [hown]
    obtain ⟨r, hr⟩ := Option.ne_none_iff_exists'.mp hne
    obtain ⟨-, hcount, -⟩ := h.tx_eq_some hr
    have hvis := h.visible_own hsorted hr
    rw [← ht] at hr hvis hcount
    refine View.action_seen hdist hd hid hr hvis (gather_perm (Ledger.covered _) hnr) hcount.ge ?_
    intro x hx hname
    obtain rfl : x = (b, e) := by
      split at hx
      · simpa using hx
      · simp at hx
    exact hnew ⟨d, hd, (Prod.mk.inj hid).1.trans ht, (Prod.mk.inj hid).2.trans hname.symm⟩
  · -- any other Transaction
    have hrec := h.other _ ht
    rw [Ledger.record, if_neg (List.ne_nil_of_mem hmem)] at hrec
    have hsmall := h.small doc.transactionID
    have hvis : v.visible doc.transactionID (runs (L.blocks doc.transactionID)) =
        gather Prod.fst (L.ofTx doc.transactionID) (runs (L.blocks doc.transactionID)) ++ [] := by
      rw [View.visible_eq_gather h.idx, Ledger.ofTx_concat_of_ne L b (Ne.symm ht), List.append_nil]
    refine View.action_seen hdist hd hid hrec hvis (gather_perm (Ledger.covered _) hnr) ?_
      (by simp)
    simp only [UInt16.toNat_ofNat']
    omega

/-! ## The crashed command again -/

def View.Lists (v : View) (doc : CommitDocument) : Prop :=
  ∃ r, v.tx doc.transactionID = some r ∧ doc.blockID ∈ r.blockIDs

theorem View.Interrupted.addDocument (h : v.Interrupted L b e)
    (hr : v.tx e.transactionID = some r) :
    (L ++ [(b, e)] : Ledger).record e.transactionID = some (r.addDocument b) := by
  obtain ⟨-, hcount, hcompl, hids⟩ := h.tx_eq_some hr
  have hdc : r.docCount + 1 = UInt16.ofNat ((L.ofTx e.transactionID).length + 1) := by
    rw [← hcount]
    apply UInt16.toNat_inj.mp
    simp [UInt16.toNat_add]
  rw [Ledger.record_concat_self, Entry.addDocument, hdc, hcompl]
  rcases hids with hids | ⟨hlast, hids⟩
  · rw [hids]
  · simp [hids, hlast]

theorem View.Interrupted.count (h : v.Interrupted L b e) :
    v.count e.transactionID b = some { v with
      tx := update v.tx e.transactionID
        ((L ++ [(b, e)] : Ledger).record e.transactionID) } := by
  have hroom := h.room
  cases hr : v.tx e.transactionID with
  | none =>
    have hnil : L.ofTx e.transactionID = [] := by
      rcases h.own with hown | ⟨r, -, -, hown⟩
      · rw [hr, Ledger.record] at hown
        by_contra hne
        simp [hne] at hown
      · simp [hr] at hown
    rw [Ledger.record_concat_self]
    simp [View.count, hr, hnil, Ledger.blocks]
  | some r =>
    have hnext := h.addDocument hr
    obtain ⟨-, hcount, -⟩ := h.tx_eq_some hr
    have hfull : r.docCount ≠ maxDocCount := by
      intro hmax
      have hmax' : maxDocCount.toNat = 65535 := rfl
      rw [hmax] at hcount
      omega
    have hfits : (r.addDocument b).blockIDs.length < 65536 := by
      rw [Ledger.record, Ledger.ofTx_concat_self, if_neg (by simp)] at hnext
      have hids := congrArg Entry.blockIDs (Option.some.inj hnext)
      have hlen' := congrArg List.length hids
      have hle := length_runs_le ((L ++ [(b, e)] : Ledger).blocks e.transactionID)
      have hlen : ((L ++ [(b, e)] : Ledger).blocks e.transactionID).length =
          (L.ofTx e.transactionID).length + 1 := by
        simp [Ledger.blocks, Ledger.ofTx_concat_self]
      simp only at hlen'
      omega
    have hkeep : ¬ (r.docCount = maxDocCount ∨ 65536 ≤ (r.addDocument b).blockIDs.length) := by
      simp [hfull, hfits]
    simp only [View.count, hr]
    rw [if_neg hkeep, hnext]

theorem View.Interrupted.rep_counted (h : v.Interrupted L b e) :
    View.Rep { v with
      tx := update v.tx e.transactionID
        ((L ++ [(b, e)] : Ledger).record e.transactionID) } (L ++ [(b, e)]) := by
  refine ⟨⟨?_, ?_⟩, h.idx⟩
  · intro t
    by_cases ht : t = e.transactionID
    · subst ht
      simp
    · simp only [update_of_ne ht]
      rw [h.other t ht, Ledger.record_concat_of_ne L b (Ne.symm ht)]
  · intro t
    by_cases ht : e.transactionID = t
    · subst ht
      have hroom := h.room
      rw [Ledger.ofTx_concat_self, List.length_append, List.length_singleton]
      omega
    · rw [Ledger.ofTx_concat_of_ne L b ht]
      exact h.small t

section Command

variable {doc : CommitDocument}

theorem View.Interrupted.idx_own (h : v.Interrupted L b e) :
    v.idx b = some (L.inBlock b ++ [e]) := by
  have hidx := h.idx b
  rw [Ledger.inBlock_concat_self] at hidx
  cases hv : v.idx b with
  | none => simp [hv] at hidx
  | some es => simpa [hv] using hidx

theorem View.Interrupted.hasRecord (hentry : doc.indexEntry? = some e) :
    View.hasRecord (L.inBlock b ++ [e]) doc = true := by
  obtain ⟨htx, hn⟩ := CommitDocument.indexEntry?_some hentry
  exact View.hasRecord_iff.mpr ⟨e, by simp, htx, hn⟩

/-- The decision on the crashed command: its record is found exactly when the Block is listed. -/
theorem View.Interrupted.action (h : v.Interrupted L b e)
    (hsorted : L.SortedWith e.transactionID b) (hnew : ¬ L.Has e.transactionID e.docName)
    (hentry : doc.indexEntry? = some e) (hb : doc.blockID = b) :
    (v.Lists doc ∧ v.action doc = .write true false) ∨
      (¬ v.Lists doc ∧ v.action doc = .write false false) := by
  obtain ⟨htx, hn⟩ := CommitDocument.indexEntry?_some hentry
  have hcounted : ∀ d ∈ gather Prod.fst (L.ofTx e.transactionID)
      (runs (L.blocks e.transactionID)), d.2.docName ≠ doc.documentName := by
    intro d hd hname
    obtain ⟨hmem, ht⟩ := mem_gather_fst hd
    exact hnew ⟨d, hmem, ht, hname.trans hn.symm⟩
  cases hr : v.tx e.transactionID with
  | none =>
    refine .inr ⟨?_, ?_⟩
    · rintro ⟨r, hr', -⟩
      rw [← htx, hr] at hr'
      cases hr'
    · simp only [View.action, View.commitState, ← htx, hr]
      rfl
  | some r =>
    have hvis := h.visible_own hsorted hr
    obtain ⟨-, hcount, -⟩ := h.tx_eq_some hr
    rw [htx] at hr hvis
    by_cases hlist : b ∈ r.blockIDs
    · refine .inl ⟨⟨r, hr, hb ▸ hlist⟩, ?_⟩
      rw [if_pos hlist] at hvis
      have hperm := gather_perm (Ledger.covered e.transactionID) hsorted.nodup
      have hlen := hperm.length_eq
      rw [htx] at hlen hcount hcounted
      rw [View.action_of_match hr hvis hn (by simpa using hcounted)]
      have hmatch : commitDocumentMatchesExisting doc e = true := by
        unfold CommitDocument.indexEntry? at hentry
        split at hentry
        · cases hentry
          simp [commitDocumentMatchesExisting]
        · cases hentry
      simp [commitAction, hlen, hcount, hb, hmatch]
    · refine .inr ⟨?_, ?_⟩
      · rintro ⟨r', hr', hmem⟩
        rw [hr] at hr'
        cases hr'
        exact hlist (hb ▸ hmem)
      · rw [if_neg hlist, List.append_nil] at hvis
        rw [htx] at hcounted
        simp only [View.action, View.commitState, hr, hvis, scanVisible_none _ _ _ hcounted,
          finishInspection, CommitProjectionState.zero,
          commitAction]
        simp [hb, hlist]

theorem View.Interrupted.commit (h : v.Interrupted L b e)
    (hsorted : L.SortedWith e.transactionID b) (hnew : ¬ L.Has e.transactionID e.docName)
    (hentry : doc.indexEntry? = some e) (hb : doc.blockID = b) {o : Bool}
    (hok : o = false ∨ v.Lists doc) :
    ∃ v', v.commit o doc = some v' ∧ v'.Rep (L ++ [(b, e)]) := by
  refine ⟨_, ?_, h.rep_counted⟩
  obtain ⟨htx, -⟩ := CommitDocument.indexEntry?_some hentry
  have hidx := h.idx_own
  have hrec := View.Interrupted.hasRecord (L := L) (b := b) hentry
  rw [← h.count, htx]
  rcases h.action hsorted hnew hentry hb with ⟨-, hact⟩ | ⟨hno, hact⟩
  · have hthere : (if o = true then true else View.hasRecord (L.inBlock b ++ [e]) doc) = true := by
      cases o
      · exact hrec
      · rfl
    simp only [View.commit, hact, View.commitWrite, hentry, View.writeIdx, hb, hidx]
    rw [if_pos hthere]
    rfl
  · obtain rfl : o = false := hok.resolve_right hno
    simp only [View.commit, hact, View.commitWrite, hentry, View.writeIdx, hb, hidx, hrec]
    rfl

theorem View.Interrupted.commit_open (h : v.Interrupted L b e)
    (hsorted : L.SortedWith e.transactionID b) (hnew : ¬ L.Has e.transactionID e.docName)
    (hentry : doc.indexEntry? = some e) (hb : doc.blockID = b) (hno : ¬ v.Lists doc) {v' : View}
    (hv' : v.commit true doc = some v') : v'.idx b = some (L.inBlock b ++ [e] ++ [e]) := by
  have hidx := h.idx_own
  obtain ⟨hlist, -⟩ | ⟨-, hact⟩ := h.action hsorted hnew hentry hb
  · exact absurd hlist hno
  simp only [View.commit, hact, View.commitWrite, hentry, View.writeIdx, hb, hidx] at hv'
  by_cases hfit : FieldsFit e
  · simp only [hfit] at hv'
    rw [(View.count_some.mp hv').2]
    simp
  · simp [hfit] at hv'

end Command

end Interrupted

/-! ## The crash leaves an interrupted view -/

theorem applyUpTo_write (hg : s.Good) {a c : Bool} (hact : s.view.action doc = .write a c)
    (p : CrashPoint) (i : UInt64) :
    ∃ t, s.Mends t ∧ (applyUpTo p doc i).run s = (commitUpTo p doc i a c).run t := by
  obtain ⟨t, hm, hrun⟩ := decided_run hg doc
    fun state => commitUpTo p doc i state.targetExists state.targetCounted
  rw [hact] at hrun
  obtain ⟨state, rfl, rfl, hrun⟩ := hrun
  exact ⟨t, hm, hrun⟩

theorem listBlock_run (hg : s.Good) (hfits : s.view.listFits t b) :
    ∃ s', (listBlock t b).run s = .ok () s' ∧ s'.Good ∧ s'.view.idx = s.view.idx ∧
      (s'.view.tx = s.view.tx ∨ ∃ r, s.view.tx t = some r ∧ r.blockIDs.getLast? ≠ some b ∧
        s'.view.tx = update s.view.tx t
          (some { r with blockIDs := r.blockIDs ++ [b] })) := by
  rw [listBlock, get_bind]
  cases htx : s.view.tx t with
  | none =>
    have hget := hg.view_tx_none.mp htx
    simp only [hget]
    exact ⟨s, rfl, hg, rfl, .inl rfl⟩
  | some r =>
    have hget := Shard.view_tx_some.mp htx
    simp only [hget]
    by_cases hlast : r.blockIDs.getLast? = some b
    · simp only [hlast, ne_eq]
      exact ⟨s, rfl, hg, rfl, .inl rfl⟩
    have hlen := hfits r htx
    rw [Entry.addDocument, if_neg hlast] at hlen
    have hview := Shard.view_putEntry (s := s) (t := t)
      (e := { r with blockIDs := r.blockIDs ++ [b] }) hlen
    simp only [ne_eq, hlast, Index.addBlockID_of_get hget]
    refine ⟨_, rfl, hg.putEntry (by simp) hlen, ?_, .inr ⟨r, rfl, hlast, ?_⟩⟩
    · rw [hview]
    · rw [hview]

theorem applyUpTo_interrupted {i : UInt64} (hg : s.Good) (hrep : s.view.Rep L)
    (hnew : ¬ L.Has doc.transactionID doc.documentName)
    (hrun : (applyCommitDocument doc i).run s = .ok () s') (p : CrashPoint) :
    ∃ e, doc.indexEntry? = some e ∧ (after (applyUpTo p doc i) s).Good ∧
      (after (applyUpTo p doc i) s).view.Interrupted L doc.blockID e := by
  have hact := hrep.action_new hnew
  obtain ⟨⟨v', hv'⟩, hq⟩ := (applyCommitDocument_ok_iff hg doc i).mp ⟨s', hrun⟩
  obtain ⟨e, hentry, hfit, hsome, hroom⟩ :
      ∃ e, doc.indexEntry? = some e ∧ FieldsFit e ∧ (s.view.idx doc.blockID).isSome ∧
        s.view.hasRoom doc.transactionID := by
    rcases hrep.commit_new (s.isOpen doc.blockID) hnew with ⟨e, h1, h2, h3, h4, -⟩ | ⟨hnone, -⟩
    · exact ⟨e, h1, h2, h3, h4⟩
    · exact absurd (hnone.symm.trans hv') (by simp)
  obtain ⟨htx, hn⟩ := CommitDocument.indexEntry?_some hentry
  -- a torn tail that the inspection cuts off does not show in the view
  obtain ⟨t, hm, hupTo⟩ := applyUpTo_write hg hact p i
  replace hg := hm.good hg
  have hq : t.CanRequeue doc i := hm.canRequeue.mpr (hq ⟨_, _, hact⟩)
  rw [← hm.view] at hrep hsome hroom
  obtain ⟨es, hes⟩ := Option.isSome_iff_exists.mp hsome
  have hrec := hrep.hasRecord_new hnew hes
  -- the `.idx` append
  have hwrite : t.view.writeIdx (t.isOpen doc.blockID) doc e false = some
      { t.view with idx := update t.view.idx doc.blockID (some (es ++ [e])) } := by
    simp only [View.writeIdx, hes, hrec]
    cases t.isOpen doc.blockID <;> simp [hfit]
  rcases append_run hg doc e i false with
    ⟨s₁, happ, hg₁, -, -, -, hw⟩ | ⟨-, hnone | hnq⟩
  · obtain hview := Option.some.inj (hw.symm.trans hwrite)
    have hpre : (preflightProjectionDocCount doc.transactionID).run t = .ok () t := by
      rcases preflight_run hg doc.transactionID with ⟨-, h⟩ | ⟨hfull, -⟩
      · exact h
      · exact absurd hroom hfull
    have hidx : ∀ c, (s₁.view.idx c).getD [] = (L ++ [(doc.blockID, e)] : Ledger).inBlock c := by
      intro c
      rw [hview]
      exact View.inBlock_update hrep.idx hes c
    have htx₁ : s₁.view.tx = t.view.tx := by rw [hview]
    have hlt : (L.ofTx e.transactionID).length < 65535 := by
      rw [htx]
      have hsmall := hrep.small doc.transactionID
      rcases Nat.lt_or_ge (L.ofTx doc.transactionID).length 65535 with h | h
      · exact h
      exfalso
      have hne : L.ofTx doc.transactionID ≠ [] := by
        intro hnil
        simp [hnil] at h
      have hrecord := hrep.tx doc.transactionID
      rw [Ledger.record, if_neg hne] at hrecord
      refine hroom _ hrecord ?_
      have h65535 : (L.ofTx doc.transactionID).length = 65535 := by omega
      simp only [h65535]
      rfl
    have hrest : (applyUpTo p doc i).run s = (match p with
          | .idxAppended => (pure () : ShardM Unit)
          | .blockListed => listBlock doc.transactionID doc.blockID).run s₁ := by
      rw [hupTo]
      unfold commitUpTo
      simp only [hentry, Bool.not_false, if_true]
      rw [bind_of_ok hpre, bind_of_ok happ]
    refine ⟨e, hentry, ?_⟩
    cases p with
    | idxAppended =>
      rw [after_of_ok hrest]
      exact ⟨hg₁, hidx, fun t _ => by rw [htx₁]; exact hrep.tx t,
        .inl (by rw [htx₁]; exact hrep.tx _), hlt, hrep.small⟩
    | blockListed =>
      have hfits : s₁.view.listFits doc.transactionID doc.blockID := by
        intro r hr
        exact hrep.listFits hroom doc.blockID r (by rw [← htx₁]; exact hr)
      obtain ⟨s₂, hs₂, hg₂, hidx₂, htx₂⟩ := listBlock_run hg₁ hfits
      rw [after_of_ok (hrest.trans hs₂)]
      refine ⟨hg₂, fun c => by rw [hidx₂]; exact hidx c, ?_, ?_, hlt, hrep.small⟩
      · intro t ht
        rcases htx₂ with htx₂ | ⟨r, -, -, htx₂⟩
        · rw [htx₂, htx₁]
          exact hrep.tx t
        · rw [htx₂, update_of_ne (htx ▸ ht), htx₁]
          exact hrep.tx t
      · rcases htx₂ with htx₂ | ⟨r, hr, hlast, htx₂⟩
        · exact .inl (by rw [htx₂, htx₁]; exact hrep.tx _)
        refine .inr ⟨r, ?_, hlast, ?_⟩
        · rw [← hrep.tx, ← htx₁, htx]
          exact hr
        · rw [htx₂, htx]
          simp
  · exact absurd (hnone.symm.trans hwrite) (by simp)
  · exact absurd hq hnq

/-! ## Records are only appended -/

theorem View.commit_idx_grows {v v' : View} {o : Bool} (h : v.commit o doc = some v') (b : UInt64) :
    (v.idx b).getD [] <+: (v'.idx b).getD [] := by
  obtain hsame | ⟨-, es, e, hes, hidx⟩ := View.commit_idx h
  · exact hsame ▸ List.prefix_rfl
  rw [hidx]
  by_cases hb : b = doc.blockID <;> simp [hb, hes]

theorem runAll_idx_grows : ∀ (steps : List LogStep) {s s' : Shard}, s.Good →
    Meets LogStep.run LogStep.Ready s steps → (runAll LogStep.run steps).run s = .ok () s' →
    ∀ b, (s.view.idx b).getD [] <+: (s'.view.idx b).getD []
  | [], s, s', _, _, hrun, b => by
    cases hrun
    exact List.prefix_rfl
  | st :: steps, s, s', hg, hmeets, hrun, b => by
    obtain ⟨t, hstep, hrest⟩ := runAll_cons_ok.mp hrun
    obtain ⟨⟨henv, -⟩, hmeets⟩ := hmeets
    rw [after_of_ok hstep] at hmeets
    obtain ⟨hcommit, hgt, -⟩ := applyCommitDocument_ok henv.1 hstep
    have hgrow := View.commit_idx_grows hcommit b
    rw [henv.2.2 b] at hgrow
    exact hgrow.trans (runAll_idx_grows steps hgt hmeets hrest b)

theorem Ledger.Distinct.not_twice (h : L.Distinct) {es : List IndexEntry} :
    ¬ es ++ [e] ++ [e] <+: L.inBlock b := by
  intro hgrow
  have hnd : ((L.inBlock b).map fun x => (x.transactionID, x.docName)).Nodup := by
    have hsub : ((L.filter (fun d => d.1 = b)).map Ledger.identity).Sublist
        (L.map Ledger.identity) := List.filter_sublist.map _
    have := h.sublist hsub
    rw [Ledger.inBlock, List.map_map]
    exact this
  have htwice := hnd.sublist (hgrow.sublist.map _)
  simp [List.nodup_append] at htwice

/-! ## The replay -/

def LogStep.command (st : LogStep) : CommitDocument × UInt64 := (st.doc, st.index)

/-- A run of a sorted log, a crash in the apply of one entry, and a replay from an entry at or
before it. -/
structure Crash where
  start : Shard
  before : List LogStep
  crashed : LogStep
  rest : List LogStep
  /-- the Member before the crashed entry -/
  reached : Shard
  /-- the Member at the end of the run without a crash -/
  final : Shard
  fresh : start.Fresh
  sorted : SortedLog ((before ++ crashed :: rest).map (·.doc))
  quiet : Meets LogStep.run LogStep.Quiet start (before ++ crashed :: rest)
  ranBefore : (runAll LogStep.run before).run start = .ok () reached
  ranRest : (runAll LogStep.run (crashed :: rest)).run reached = .ok () final
  writes : (crashed.env reached).view.Writes crashed.doc
  point : CrashPoint
  /-- the Member after the crash and the restart -/
  state : Shard
  crash : (after (applyUpTo point crashed.doc crashed.index) (crashed.env reached)).Env state
  replayBefore : List LogStep
  replayCrashed : LogStep
  replayRest : List LogStep
  suffix : replayBefore.map (·.command) <:+ before.map (·.command)
  again : replayCrashed.command = crashed.command
  restAgain : replayRest.map (·.command) = rest.map (·.command)
  ready : Meets LogStep.run LogStep.Ready state (replayBefore ++ replayCrashed :: replayRest)

namespace Crash

variable (x : Crash)

def replay : List LogStep := x.replayBefore ++ x.replayCrashed :: x.replayRest

/-- The replay ends with the records of the run without a crash. -/
def Restores : Prop :=
  ∃ w, (runAll LogStep.run x.replay).run x.state = .ok () w ∧ w.SameRecords x.final

/-- The Member just before the crashed entry is applied again. -/
def replayed : Shard := x.replayCrashed.env (after (runAll LogStep.run x.replayBefore) x.state)

def docs : List CommitDocument := x.before.map (·.doc)

theorem tracks : (x.crashed.env x.reached).Tracks x.docs ∧
    x.final.Tracks ((x.before ++ x.crashed :: x.rest).map (·.doc)) := by
  obtain ⟨hquiet, hquiet'⟩ := (meets_append x.ranBefore).mp x.quiet
  have hsorted := x.sorted
  rw [List.map_append] at hsorted
  have hreached : x.reached.Tracks x.docs := by
    have h := Shard.Tracks.run x.before x.fresh.tracks
      (by simpa using hsorted.of_append.neverReturns) hquiet x.ranBefore
    simpa [docs] using h
  refine ⟨hreached.env hquiet'.1, ?_⟩
  rw [List.map_append]
  exact hreached.run (x.crashed :: x.rest) hsorted.neverReturns hquiet' x.ranRest

theorem not_has : ¬ (Ledger.ofDocs x.docs).Has x.crashed.doc.transactionID
    x.crashed.doc.documentName := by
  intro hhas
  obtain ⟨htracks, -⟩ := x.tracks
  obtain ⟨t, hstep, -⟩ := runAll_cons_ok.mp x.ranRest
  have hsorted := x.sorted
  rw [List.map_append] at hsorted
  have hnr := hsorted.of_append.neverReturns x.crashed.doc.transactionID
  obtain ⟨hcommit, -⟩ := applyCommitDocument_ok htracks.good hstep
  have hag := (htracks.rep.commit_isSome_iff htracks.distinct hnr _).mp ⟨_, hcommit⟩
  rw [if_pos hhas] at hag
  obtain ⟨d, hd, hid⟩ := Ledger.has_iff.mp hhas
  have hdone := htracks.rep.action_settled htracks.distinct hnr hd hid
  rw [if_pos (hag d hd hid)] at hdone
  obtain ⟨a, c, hwrite⟩ := x.writes
  exact absurd (hdone.symm.trans hwrite) (by simp)

theorem interrupted : ∃ e, x.crashed.doc.indexEntry? = some e ∧ x.state.Good ∧
    x.state.view.Interrupted (Ledger.ofDocs x.docs) x.crashed.doc.blockID e := by
  obtain ⟨htracks, -⟩ := x.tracks
  obtain ⟨t, hstep, -⟩ := runAll_cons_ok.mp x.ranRest
  obtain ⟨e, hentry, -, hint⟩ :=
    applyUpTo_interrupted htracks.good htracks.rep x.not_has hstep x.point
  exact ⟨e, hentry, x.crash.1, hint.env x.crash⟩

theorem sortedWith : (Ledger.ofDocs x.docs).SortedWith x.crashed.doc.transactionID
    x.crashed.doc.blockID := by
  have hsorted := x.sorted
  rw [List.map_append, List.map_cons, List.append_cons] at hsorted
  have h := hsorted.of_append x.crashed.doc.transactionID
  rw [List.filter_append, List.map_append] at h
  refine h.sublist ((Ledger.blocks_ofDocs_sublist x.docs _).append ?_)
  simp

theorem settled_run (hdist : L.Distinct) (hsorted : L.SortedWith e.transactionID b)
    (hnew : ¬ L.Has e.transactionID e.docName) (hnr : ∀ t, L.NeverReturns t) :
    ∀ (steps : List LogStep) {s : Shard}, s.Good → s.view.Interrupted L b e →
      (∀ st ∈ steps, L.Has st.doc.transactionID st.doc.documentName ∧ L.Agrees st.doc) →
      Meets LogStep.run LogStep.Ready s steps →
      ∃ s', (runAll LogStep.run steps).run s = .ok () s' ∧ s'.Good ∧
        s'.view.Interrupted L b e ∧ s'.view.tx = s.view.tx
  | [], s, hg, hint, _, _ => ⟨s, rfl, hg, hint, rfl⟩
  | st :: steps, s, hg, hint, hsettled, hmeets => by
    obtain ⟨⟨henv, -⟩, hmeets⟩ := hmeets
    obtain ⟨hhas, hag⟩ := hsettled st (by simp)
    have hint' := hint.env henv
    have hdone := hint'.action_settled hdist hsorted hnew (hnr _) hhas hag
    obtain ⟨t, hm, hrun⟩ := applyCommitDocument_eq henv.1 st.doc st.index
    simp only [hdone] at hrun
    rw [← LogStep.run_eq] at hrun
    rw [after_of_ok hrun] at hmeets
    obtain ⟨s', hs', hg', hint'', htx⟩ := settled_run hdist hsorted hnew hnr steps
      ((hm.good henv.1).cleanup st.doc) (by simpa [hm.view] using hint')
      (fun st' hst' => hsettled st' (List.mem_cons_of_mem _ hst')) hmeets
    refine ⟨s', runAll_cons_ok.mpr ⟨_, hrun, hs'⟩, hg', hint'', ?_⟩
    rw [htx, Shard.cleanup_view, hm.view, henv.2.1]

/-- A replay restores the records if and only if the crash left the Block listed, or the Block is
closed when the crashed entry is applied again. -/
theorem restores_iff : x.Restores ↔
    x.state.view.Lists x.crashed.doc ∨ x.replayed.isOpen x.crashed.doc.blockID = false := by
  obtain ⟨htracks, hfinal⟩ := x.tracks
  obtain ⟨e, hentry, hgood, hint⟩ := x.interrupted
  obtain ⟨htx, hn⟩ := CommitDocument.indexEntry?_some hentry
  have hnew := x.not_has
  have hsorted := x.sortedWith
  rw [← htx] at hsorted
  rw [← htx, ← hn] at hnew
  have hlog := x.sorted
  rw [List.map_append, List.map_cons] at hlog
  have hnr := hlog.of_append.neverReturns
  -- the entries before the crashed one
  have hready := x.ready
  have hcommands : ∀ st ∈ x.replayBefore, st.doc ∈ x.docs := by
    intro st hst
    have hmem : st.command ∈ x.before.map (·.command) := x.suffix.subset (List.mem_map_of_mem hst)
    obtain ⟨st', hst', hcmd⟩ := List.mem_map.mp hmem
    exact List.mem_map.mpr ⟨st', hst', congrArg Prod.fst hcmd⟩
  obtain ⟨s₁, hrun₁, -, hint₁, htx₁⟩ := settled_run htracks.distinct hsorted hnew hnr
    x.replayBefore hgood hint (fun st hst => htracks.settled _ (hcommands st hst))
    hready.of_append
  obtain ⟨-, ⟨henv, hneeds⟩, hready⟩ := (meets_append hrun₁).mp hready
  -- the crashed entry
  have hdoc : x.replayCrashed.doc = x.crashed.doc := congrArg Prod.fst x.again
  have hreplayed : x.replayed = x.replayCrashed.env s₁ := by rw [replayed, after_of_ok hrun₁]
  have hint₂ := hint₁.env henv
  have hlists : (x.replayCrashed.env s₁).view.Lists x.crashed.doc ↔
      x.state.view.Lists x.crashed.doc := by
    unfold View.Lists
    rw [henv.2.1, htx₁]
  have hledger : Ledger.ofDocs (x.docs ++ [x.crashed.doc]) =
      Ledger.ofDocs x.docs ++ [(x.crashed.doc.blockID, e)] := by
    rw [Ledger.ofDocs_concat, Ledger.commit, if_neg x.not_has, CommitDocument.resolved?, hentry]
    rfl
  rw [hreplayed, ← hlists]
  constructor
  · rintro ⟨w, hrun, hsame⟩
    by_contra hno
    rw [not_or] at hno
    obtain ⟨hno, hopen⟩ := hno
    rw [Bool.not_eq_false] at hopen
    obtain ⟨s₁', hrun₁', hrest⟩ := runAll_append_ok.mp hrun
    obtain rfl : s₁ = s₁' := by simpa using hrun₁.symm.trans hrun₁'
    obtain ⟨s₂, hstep, hrest⟩ := runAll_cons_ok.mp hrest
    rw [after_of_ok hstep] at hready
    rw [LogStep.run_eq, hdoc] at hstep
    obtain ⟨hcommit, hg₂, -⟩ := applyCommitDocument_ok henv.1 hstep
    rw [hopen] at hcommit
    -- the record is there twice, and records only grow
    have htwice := hint₂.commit_open hsorted hnew hentry rfl hno hcommit
    have hgrow := runAll_idx_grows x.replayRest hg₂ hready hrest x.crashed.doc.blockID
    rw [hsame.1, hfinal.rep.idx, htwice] at hgrow
    exact hfinal.distinct.not_twice hgrow
  · intro hok
    obtain ⟨v', hcommit, hrep⟩ := hint₂.commit hsorted hnew hentry rfl hok.symm
    rw [hdoc] at hneeds
    have happly := (applyCommitDocument_ok_iff henv.1 x.crashed.doc x.replayCrashed.index).mpr
      ⟨⟨v', hcommit⟩, fun hw => (hneeds hw).2⟩
    obtain ⟨s₂, hstep⟩ := happly
    obtain ⟨hcommit', hg₂, -⟩ := applyCommitDocument_ok henv.1 hstep
    obtain rfl : v' = s₂.view := by simpa using hcommit.symm.trans hcommit'
    have hrun₂ : x.replayCrashed.run.run s₁ = .ok () s₂ := by
      rw [LogStep.run_eq, hdoc]
      exact hstep
    rw [after_of_ok hrun₂] at hready
    -- from here the replay runs beside the run without a crash
    obtain ⟨t, hrunt, hrest⟩ := runAll_cons_ok.mp x.ranRest
    obtain ⟨-, hquiet⟩ := (meets_append x.ranBefore).mp x.quiet
    obtain ⟨-, hquiet⟩ := hquiet
    rw [after_of_ok hrunt] at hquiet
    have ht := htracks.apply (hnr _) hrunt
    have hs₂ : s₂.Tracks (x.docs ++ [x.crashed.doc]) :=
      ⟨hg₂, by rw [hledger]; exact hrep, ht.distinct, ht.settled⟩
    have hrestDocs : x.replayRest.map (·.doc) = x.rest.map (·.doc) := by
      have h := congrArg (List.map Prod.fst) x.restAgain
      rw [List.map_map, List.map_map] at h
      exact h
    rw [List.append_cons] at hlog
    obtain ⟨w, hw, htw⟩ := ht.run_again x.rest x.replayRest hs₂ hrestDocs hlog.neverReturns
      hquiet hrest hready
    refine ⟨w, runAll_append_ok.mpr ⟨s₁, hrun₁, runAll_cons_ok.mpr ⟨s₂, hrun₂, hw⟩⟩, ?_⟩
    have hdocs : x.docs ++ [x.crashed.doc] ++ x.rest.map (·.doc) =
        (x.before ++ x.crashed :: x.rest).map (·.doc) := by
      simp [docs]
    rw [hdocs] at htw
    exact htw.rep.sameRecords hfinal.rep

end Crash

/-! ## A Block that is reopened before the replay -/

theorem after_openShard (hpreps : s.openlog = []) (ids : List UInt64) :
    after (openShard ids) s = (s.reloaded ids).openNewBlock := by
  have hrecover : recoverOpenlog.run (s.reloaded ids) = .ok [] (s.reloaded ids) := by
    rw [recoverOpenlog, get_bind]
    simp only [Shard.reloaded, hpreps, List.mergeSort_nil]
    rfl
  have hrun : (openShard ids).run s = .ok [] (s.reloaded ids).openNewBlock := by
    rw [openShard, modify_bind, bind_of_ok hrecover]
    rfl
  exact after_of_ok hrun

theorem Shard.Good.reloaded (hg : s.Good) (ids : List UInt64) :
    (s.reloaded ids).Good := ⟨hg.wf, by simp [Shard.isOpen, Shard.reloaded]⟩

theorem Shard.Good.openShard_env (hg : s.Good) {ids : List UInt64} (hpreps : s.openlog = [])
    (hnew : (s.blocks (scanMaxBlockID ids)).idx = none) :
    s.Env (after (openShard ids) s) := by
  rw [after_openShard hpreps]
  exact (hg.reloaded ids).openNewBlock_env hnew

theorem Shard.Good.reopen_env (hg : s.Good) {w : Writer} {target : UInt64}
    (hrun : (reopenPreviousReplicaBlock w target).run s = .ok () s')
    (hempty : (s.view.idx w.blockID).getD [] = [])
    (hintact : ∀ g, (s.blocks target).idx = some g → g.torn = false) : s.Env s' := by
  obtain ⟨hnext, -, hidx, f, bw, -, hbw, rfl⟩ := reopenPreviousReplicaBlock_ok hrun
  have hid : bw.blockID = target := by
    unfold openWriter at hbw
    split at hbw
    · cases hbw
    · cases hbw
      rfl
  have hne : target ≠ w.blockID := by
    rw [hnext]
    intro h
    exact absurd (UInt64.left_eq_add.mp h) (by decide)
  have hother : ∀ c, c ≠ w.blockID → (s.reopened w.blockID bw).blocks c = s.blocks c := by
    intro c hc
    simp [Shard.reopened, Shard.setBlock, hc]
  have hself : ((s.reopened w.blockID bw).blocks w.blockID).idx = none := by
    simp [Shard.reopened, Shard.setBlock]
  refine ⟨⟨hg.wf, ?_⟩, rfl, ?_⟩
  · intro c hopen
    obtain rfl : target = c := by simpa [Shard.reopened, Shard.isOpen, hid] using hopen
    rw [hother target hne]
    obtain ⟨g, hg'⟩ := Option.isSome_iff_exists.mp hidx
    exact ⟨g, hg', hintact g hg'⟩
  · intro c
    by_cases hcw : c = w.blockID
    · subst hcw
      simpa [Shard.view, hself] using hempty.symm
    · simp [Shard.view, hother c hcw]

def streamArrives (s : Shard) : Shard := after (advanceReplicaBlock 1) s

/-- The Member after the crash in the first entry of its log and a restart. -/
def restartedAfterAppend : Shard :=
  after (openShard [1]) (after (applyUpTo .idxAppended (docOfT "a" 1 40) 1) (Shard.fresh 1 false))

theorem restartedAfterAppend_env :
    (after (applyUpTo .idxAppended (docOfT "a" 1 40) 1) (Shard.fresh 1 false)).Env
      restartedAfterAppend := by
  obtain ⟨hg, hrep⟩ := Shard.fresh_fresh 1 false
  have hrun : ∃ s', (applyCommitDocument (docOfT "a" 1 40) 1).run (Shard.fresh 1 false) =
      .ok () s' := ⟨_, rfl⟩
  obtain ⟨s', hs'⟩ := hrun
  obtain ⟨-, -, hgood, -⟩ := applyUpTo_interrupted hg hrep (by simp [Ledger.Has]) hs' .idxAppended
  exact hgood.openShard_env rfl (by decide +kernel)

theorem streamArrives_env : restartedAfterAppend.Env (streamArrives restartedAfterAppend) := by
  have hok : outcome (reopenPreviousReplicaBlock (newWriter 2) 1) restartedAfterAppend =
      .ok () := by decide +kernel
  have hrun := outcome_ok_iff.mp hok
  have hw : restartedAfterAppend.blockWriter = some (newWriter 2) := by decide +kernel
  have hadvance : (advanceReplicaBlock 1).run restartedAfterAppend =
      (reopenPreviousReplicaBlock (newWriter 2) 1).run restartedAfterAppend := by
    rw [advanceReplicaBlock, get_bind, hw]
    rfl
  rw [streamArrives, after_of_ok (hadvance.trans hrun)]
  have hintact : (restartedAfterAppend.blocks 1).idx.map (·.torn) = some false := by decide +kernel
  exact restartedAfterAppend_env.1.reopen_env hrun (by decide +kernel)
    fun g hg => by simpa [hg] using hintact

/-- The first entry crashes between its `.idx` append and the `Put` of its Transaction; the Member
restarts, and a stream for Block `1` arrives before the replay. -/
def crashBeforeRecord : Crash where
  start := Shard.fresh 1 false
  before := []
  crashed := ⟨id, docOfT "a" 1 40, 1⟩
  rest := []
  reached := Shard.fresh 1 false
  final := after (applyCommitDocument (docOfT "a" 1 40) 1) (Shard.fresh 1 false)
  fresh := Shard.fresh_fresh 1 false
  sorted := by
    intro t
    by_cases ht : "t" = t <;> simp [docOfT, ht]
  quiet := ⟨(Shard.fresh_fresh 1 false).1.env_refl, trivial⟩
  ranBefore := rfl
  ranRest := rfl
  writes := ⟨false, false, by decide +kernel⟩
  point := .idxAppended
  state := restartedAfterAppend
  crash := restartedAfterAppend_env
  replayBefore := []
  replayCrashed := ⟨streamArrives, docOfT "a" 1 40, 1⟩
  replayRest := []
  suffix := List.suffix_rfl
  again := rfl
  restAgain := rfl
  ready := by
    refine ⟨⟨streamArrives_env, fun _ => ⟨by decide +kernel, fun hclosed => ?_⟩⟩, trivial⟩
    have hopen : (streamArrives restartedAfterAppend).isOpen 1 = true := by decide +kernel
    exact absurd (hopen.symm.trans hclosed) (by simp)

/-- The same crash without the stream: Block `2` is open when the entry is applied again. -/
def crashReplayedClosed : Crash :=
  { crashBeforeRecord with
    replayCrashed := ⟨id, docOfT "a" 1 40, 1⟩
    again := rfl
    ready := by
      have hdisabled : restartedAfterAppend.uploadEnabled = false := by decide +kernel
      exact ⟨⟨restartedAfterAppend_env.1.env_refl, fun _ => ⟨by decide +kernel, fun _ henabled =>
        absurd (hdisabled.symm.trans henabled) (by simp)⟩⟩, trivial⟩ }

theorem replay_restores_closed : crashReplayedClosed.point = .idxAppended ∧
    crashReplayedClosed.replayed.isOpen 1 = false ∧ crashReplayedClosed.Restores := by
  have hclosed : crashReplayedClosed.replayed.isOpen 1 = false := by decide +kernel
  exact ⟨rfl, hclosed, crashReplayedClosed.restores_iff.mpr (.inr hclosed)⟩

/-- The record of the Document is in the `.idx` twice after the replay. -/
theorem replay_duplicates_record :
    ∃ x : Crash, x.start = Shard.fresh 1 false ∧ x.crashed.doc = docOfT "a" 1 40 ∧
      x.point = .idxAppended ∧ x.state = restartedAfterAppend ∧
      x.replayed = streamArrives restartedAfterAppend ∧
      (x.final.view.idx 1).map List.length = some 1 ∧
      ((after (runAll LogStep.run x.replay) x.state).view.idx 1).map List.length = some 2 ∧
      ¬ x.Restores := by
  refine ⟨crashBeforeRecord, rfl, rfl, rfl, rfl, rfl, by decide +kernel, by decide +kernel, ?_⟩
  rintro ⟨w, hw, hsame, -⟩
  have htwo : ((after (runAll LogStep.run crashBeforeRecord.replay)
      crashBeforeRecord.state).view.idx 1).getD [] ≠
        (crashBeforeRecord.final.view.idx 1).getD [] := by decide +kernel
  rw [after_of_ok hw] at htwo
  exact htwo (hsame 1)

end Scrap
