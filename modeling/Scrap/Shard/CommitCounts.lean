/-
# The counts of a Transaction record

A Transaction record has two 16-bit counts, of its Blocks and of its Documents. Only the second
is checked, before the `.idx` append and again when it is raised; the Block list grows by
`AddBlockID`, a write of its own in front of that.

The bound on the list is `View.Covers`: no more Blocks are listed than Documents counted. A
crash between the two writes leaves one Block more (`View.Ahead`), and the replay must then count
the Document, not list another Block and not take it as counted. It does, because no more
Documents are counted than records are in sight, and the Document's own record stands behind all
of those.
-/
import Scrap.Shard.Decision
import Scrap.Shard.Replay

namespace Scrap

open Block Fallible Function

namespace View

variable {v w : View} {t : String} {ids : List UInt64} {n : Nat} {doc : CommitDocument} {e : Entry}
  {a o : Bool} {entry : IndexEntry}

/-! ## The list and the count on a view -/

/-- A record is in sight for every Document counted, and a Document is counted for every
Block listed. -/
structure Covers (v : View) (t : String) (ids : List UInt64) (n : Nat) : Prop where
  counted : n ≤ (v.visible t ids).length
  listed : ids.length ≤ n

/-- The `.idx` of the command's Block has the Document's record. -/
def Indexed (v : View) (doc : CommitDocument) : Prop :=
  hasRecord ((v.idx doc.blockID).getD []) doc = true

theorem visible_concat (v : View) (t : String) (ids : List UInt64) (b : UInt64) :
    v.visible t (ids ++ [b]) = v.visible t ids ++ v.visible t [b] := by
  simp [visible]

theorem Grows.length_le (h : v.Grows w) (t : String) (ids : List UInt64) :
    (v.visible t ids).length ≤ (w.visible t ids).length := by
  induction ids with
  | nil => exact Nat.le_refl _
  | cons b ids ih =>
    have hb := ((h b).filter fun e => e.transactionID = t).length_le
    simp only [visible, List.flatMap_cons, List.length_append, List.length_map] at ih ⊢
    exact Nat.add_le_add hb ih

theorem Covers.grow (h : v.Covers t ids n) (hg : v.Grows w) : w.Covers t ids n :=
  ⟨h.counted.trans (hg.length_le t ids), h.listed⟩

theorem Indexed.mem_visible (h : v.Indexed doc) :
    ∃ x ∈ v.visible doc.transactionID [doc.blockID], x.2.docName = doc.documentName := by
  obtain ⟨x, hx, htx, hname⟩ := hasRecord_iff.mp h
  refine ⟨(doc.blockID, x), View.mem_visible.mpr ⟨by simp, ?_⟩, hname⟩
  simp [entriesOf, findByTransaction, hx, htx]

theorem Covers.concat (h : v.Covers doc.transactionID ids n) (hdoc : v.Indexed doc) :
    v.Covers doc.transactionID (ids ++ [doc.blockID]) (n + 1) := by
  obtain ⟨x, hx, -⟩ := hdoc.mem_visible
  have hpos := List.length_pos_of_mem hx
  have hc := h.counted
  refine ⟨?_, by simpa using h.listed⟩
  rw [visible_concat, List.length_append]
  omega

/-- The crash between the two writes: the Block is listed, the Document not counted. -/
structure Ahead (v : View) (doc : CommitDocument) (e : Entry) : Prop where
  covers : ∃ ids, e.blockIDs = ids ++ [doc.blockID] ∧
    v.Covers doc.transactionID ids e.docCount.toNat
  room : e.docCount ≠ maxDocCount
  indexed : v.Indexed doc

theorem Ahead.grow (h : v.Ahead doc e) (hg : v.Grows w) : w.Ahead doc e := by
  obtain ⟨ids, hids, hc⟩ := h.covers
  obtain ⟨x, hx, hid⟩ := hasRecord_iff.mp h.indexed
  exact ⟨⟨ids, hids, hc.grow hg⟩, h.room,
    hasRecord_iff.mpr ⟨x, (hg doc.blockID).subset hx, hid⟩⟩

theorem Ahead.uncounted (h : v.Ahead doc e) (hr : v.tx doc.transactionID = some e) :
    v.action doc ≠ .done ∧ v.action doc ≠ .write a true := by
  obtain ⟨ids, hids, hc⟩ := h.covers
  obtain ⟨x, hx, hname⟩ := h.indexed.mem_visible
  have hsplit := v.visible_concat doc.transactionID ids doc.blockID
  rw [← hids] at hsplit
  obtain ⟨err, herr⟩ | hno | ⟨l₁, d, l₂, hvis, hd, hother⟩ := action_cases hr
  · simp [herr]
  · exact absurd hname (hno x (by simp [hsplit, hx]))
  -- the one record with the name is not among those of the Blocks before
  have hlen : e.docCount.toNat ≤ l₁.length := by
    refine hc.counted.trans ?_
    rcases List.append_eq_append_iff.mp (hsplit.symm.trans hvis) with ⟨c, hl₁, -⟩ | ⟨c, hV, hB⟩
    · simp [hl₁]
    cases c with
    | nil => simp [hV]
    | cons y c =>
      have hx' : x ∈ l₂ := (List.cons.inj hB).2 ▸ List.mem_append_right _ hx
      exact absurd hname (hother x (List.mem_append_right _ hx'))
  have hnot : decide (l₁.length + 1 ≤ e.docCount.toNat) = false := by simp; omega
  rw [action_of_match hr hvis hd hother, hnot]
  simp only [commitAction, Bool.false_eq_true, if_false]
  split <;> simp

/-- The record of the command's Transaction before its apply or its replay. -/
def Fits (v : View) (doc : CommitDocument) (e : Entry) : Prop :=
  v.Covers doc.transactionID e.blockIDs e.docCount.toNat ∨ v.Ahead doc e

theorem Fits.length_le (h : v.Fits doc e) :
    e.blockIDs.length ≤ e.docCount.toNat + 1 ∧ e.blockIDs.length ≤ 65535 := by
  have hlt := e.docCount.toNat_lt
  rcases h with h | ⟨⟨ids, hids, hc⟩, hroom, -⟩
  · have hl := h.listed
    omega
  · have hl := hc.listed
    have hne : e.docCount.toNat ≠ 65535 := fun h => hroom (UInt16.toNat_inj.mp (by rw [h]; rfl))
    rw [hids, List.length_append, List.length_singleton]
    omega

section Write

variable (hentry : doc.indexEntry? = some entry) (hact : v.action doc = .write a false)
  (hw : v.writeIdx o doc entry a = some w)
include hentry hact hw

theorem writeIdx_indexed : w.Indexed doc := by
  obtain ⟨es, hes, ⟨hfound, rfl⟩ | ⟨-, -, rfl⟩⟩ := writeIdx_some.mp hw
  · cases o with
    | false => simpa [Indexed, hes] using hfound
    | true => ?_
    -- the decision has found it, and takes it only from its own Block
    obtain rfl : a = true := hfound
    cases hr : w.tx doc.transactionID with
    | none => simp [action, commitState, hr, commitAction, CommitProjectionState.zero] at hact
    | some r => ?_
    obtain ⟨err, herr⟩ | hno | ⟨l₁, d, l₂, hvis, hd, hother⟩ := action_cases hr
    · simp [herr] at hact
    · simp [action_unnamed hr hno] at hact
    have hmem : (d.1, d.2) ∈ w.visible doc.transactionID r.blockIDs := by simp [hvis]
    obtain ⟨hmem, htx⟩ := mem_entriesOf (View.mem_visible.mp hmem).2
    rw [action_of_match hr hvis hd hother] at hact
    have hne : ∀ err, CommitAction.write true false ≠ .reject err := by simp
    obtain ⟨-, hb⟩ := commitAction_found fun err herr => hne err (hact.symm.trans herr)
    rw [hb (commitAction_write hact).2] at hmem
    exact hasRecord_iff.mpr ⟨d.2, hmem, htx, hd⟩
  · exact hasRecord_iff.mpr ⟨entry, by simp, CommitDocument.indexEntry?_some hentry⟩

theorem Covers.count_last (hr : v.tx doc.transactionID = some e)
    (hids : e.blockIDs = ids ++ [doc.blockID])
    (h : v.Covers doc.transactionID e.blockIDs e.docCount.toNat) :
    w.Covers doc.transactionID e.blockIDs (e.docCount.toNat + 1) := by
  refine ⟨?_, h.listed.trans (Nat.le_succ _)⟩
  have hgrow := (writeIdx_grows hw).length_le doc.transactionID
  have hc := h.counted
  obtain ⟨err, herr⟩ | hno | ⟨l₁, d, l₂, hvis, hd, hother⟩ := action_cases hr
  · simp [herr] at hact
  · have hnone : ¬ v.Indexed doc := by
      intro hdoc
      obtain ⟨x, hx, hname⟩ := hdoc.mem_visible
      exact hno x (by simp [hids, visible_concat, hx]) hname
    obtain rfl : false = a := by
      rw [action_unnamed hr hno] at hact
      exact (CommitAction.write.inj hact).1
    obtain ⟨es, hes, ⟨hfound, -⟩ | ⟨-, -, rfl⟩⟩ := writeIdx_some.mp hw
    · cases o with
      | false => exact absurd (by simpa [Indexed, hes] using hfound) hnone
      | true => cases hfound
    have htx := (CommitDocument.indexEntry?_some hentry).1
    have hlen := hgrow ids
    rw [hids, visible_concat] at hc ⊢
    simp [visible, entriesOf, findByTransaction, hes, htx] at hc hlen ⊢
    omega
  · rw [action_of_match hr hvis hd hother] at hact
    have hpos : ¬ l₁.length + 1 ≤ e.docCount.toNat := by simpa using (commitAction_write hact).2
    have hlen := hgrow e.blockIDs
    rw [hvis, List.length_append, List.length_cons] at hlen
    omega

theorem Fits.count (h : v.Fits doc e) (hr : v.tx doc.transactionID = some e)
    (hroom : e.docCount ≠ maxDocCount) :
    w.Covers doc.transactionID (e.addDocument doc.blockID).blockIDs
      (e.addDocument doc.blockID).docCount.toNat := by
  have hgrow := writeIdx_grows hw
  have hdoc := writeIdx_indexed hentry hact hw
  rw [Entry.addDocument, toNat_succ_docCount hroom]
  by_cases hlast : e.blockIDs.getLast? = some doc.blockID
  · simp only [if_pos hlast]
    rcases h with h | ⟨⟨ids, hids, hc⟩, -, -⟩
    · obtain ⟨ids, hids⟩ := List.getLast?_eq_some_iff.mp hlast
      exact Covers.count_last hentry hact hw hr hids h
    · rw [hids]
      exact (hc.grow hgrow).concat hdoc
  · simp only [if_neg hlast]
    rcases h with h | ⟨⟨ids, hids, -⟩, -, -⟩
    · exact (h.grow hgrow).concat hdoc
    · exact absurd (by simp [hids]) hlast

end Write

end View

theorem Shard.Grown.view_tx {s u : Shard} (h : s.Grown u) : u.view.tx = s.view.tx := by
  simp only [Shard.view, Index.get, h.txs]

/-! ## Runs -/

/-- A step of a Member on the commands of one Transaction. Beside the Member stands the entry
whose apply failed or was cut off by a crash: it is applied again before any other. -/
inductive TransactionStep (t : String) :
    Shard × Option CommitDocument → Shard × Option CommitDocument → Prop
  | restart {s s' p} : s.Env s' → s'.idx.txs = s.idx.txs → TransactionStep t (s, p) (s', p)
  | apply {s p} (doc : CommitDocument) (i : UInt64) : doc.transactionID = t → (∀ d ∈ p, d = doc) →
      TransactionStep t (s, p) (after (applyCommitDocument doc i) s,
        if (outcome (applyCommitDocument doc i) s).isOk then none else some doc)
  | crash {s p} (doc : CommitDocument) (i : UInt64) (point : CrashPoint) : doc.transactionID = t →
      (∀ d ∈ p, d = doc) → TransactionStep t (s, p) (after (applyUpTo point doc i) s, some doc)

/-- The record of the Transaction is as encoded, and its counts fit. -/
structure Shard.CountsFit (t : String) (s : Shard) (p : Option CommitDocument) : Prop where
  good : s.Good
  stored : ∀ val, s.idx.txs t = some val → ∃ e : Entry, e.blockIDs.length < 65536 ∧
    val = encodeEntry e
  fits : ∀ e, s.view.tx t = some e → s.view.Covers t e.blockIDs e.docCount.toNat ∨
    ∃ doc ∈ p, doc.transactionID = t ∧ s.view.Ahead doc e

namespace Shard.CountsFit

variable {s t u : Shard} {doc : CommitDocument} {entry : IndexEntry} {e : Entry} {i : UInt64}
  {a f : Bool}

theorem own (h : s.CountsFit doc.transactionID (some doc))
    (he : s.view.tx doc.transactionID = some e) : s.view.Fits doc e :=
  (h.fits e he).imp_right fun ⟨_, hd, _, ha⟩ => Option.some.inj hd ▸ ha

theorem grown (h : s.CountsFit doc.transactionID (some doc)) (hu : s.Grown u)
    (hf : f = true → ∀ e, s.view.tx doc.transactionID = some e → ¬ s.view.Ahead doc e) :
    u.CountsFit doc.transactionID (if f then none else some doc) := by
  refine ⟨hu.good, hu.txs ▸ h.stored, fun e he => ?_⟩
  rw [hu.view_tx] at he
  rcases h.own he with hc | ha
  · exact .inl (hc.grow hu.grows)
  · cases f with
    | true => exact absurd ha (hf rfl e he)
    | false => exact .inr ⟨doc, rfl, rfl, ha.grow hu.grows⟩

theorem putEntry (hg : t.Good) (hne : e.blockIDs ≠ [])
    (hfit : t.view.Covers doc.transactionID e.blockIDs e.docCount.toNat ∨
      f = false ∧ t.view.Ahead doc e) :
    Shard.CountsFit doc.transactionID { t with idx := t.idx.putEntry doc.transactionID e }
      (if f then none else some doc) := by
  have hlt : e.blockIDs.length < 65536 :=
    Nat.lt_succ_of_le (View.Fits.length_le (hfit.imp_right And.right)).2
  have hgrow : t.view.Grows (Shard.view { t with idx := t.idx.putEntry doc.transactionID e }) :=
    fun _ => List.prefix_rfl
  refine ⟨hg.putEntry hne hlt, fun val hval => ⟨e, hlt, ?_⟩, fun e' he' => ?_⟩
  · simpa [Index.putEntry] using hval.symm
  · obtain rfl : e = e' := by simpa [Shard.view_putEntry hlt] using he'
    refine hfit.imp (·.grow hgrow) ?_
    rintro ⟨rfl, ha⟩
    exact ⟨doc, rfl, rfl, ha.grow hgrow⟩

/-- The counts fit after `m`, and if `m` is the whole apply (`f`) and returns nil, nothing is
left to be applied again. -/
def After (s : Shard) (doc : CommitDocument) (f : Bool) (m : ShardM Unit) : Prop :=
  (after m s).CountsFit doc.transactionID (if f && (outcome m s).isOk then none else some doc)

variable (h : s.CountsFit doc.transactionID (some doc))
include h

theorem written {c : Bool} {rest : ShardM Unit} (hrest : ∀ entry t,
      doc.indexEntry? = some entry → s.Grown t → (c = false → s.view.hasRoom doc.transactionID) →
      s.view.writeIdx (s.isOpen doc.blockID) doc entry a = some t.view → After t doc f rest) :
    After s doc f (match doc.indexEntry? with
      | none => throw (.sha256Length doc.sha256.length)
      | some entry => do
          if !c then preflightProjectionDocCount doc.transactionID
          appendDocumentIndexEntry doc entry i a
          rest) := by
  have hself := (Shard.Mends.refl s).grown h.good
  have herr {m : ShardM Unit} {err u} (hrun : m.run s = .error err u) (hu : s.Grown u) :
      After s doc f m := by
    simpa [After, after, outcome, hrun, Except.isOk, Except.toBool] using
      h.grown (f := false) hu (by simp)
  cases hentry : doc.indexEntry? with
  | none => exact herr rfl hself
  | some entry => ?_
  have happend (hroom : c = false → s.view.hasRoom doc.transactionID) : After s doc f (do
      appendDocumentIndexEntry doc entry i a
      rest) := by
    rcases append_run h.good doc entry i a with
      ⟨t, hrun, hg, -, htxs, -, hw⟩ | ⟨⟨err, u, hrun, hu⟩, -⟩
    · unfold After after outcome
      rw [bind_of_ok hrun]
      exact hrest entry t hentry ⟨hg, htxs, View.writeIdx_grows hw⟩ hroom hw
    · exact herr (bind_of_error hrun) hu
  cases c with
  | true => exact happend (by simp)
  | false =>
    rcases preflight_run h.good doc.transactionID with ⟨hroom, hpre⟩ | ⟨-, hpre⟩
    · have happ := happend fun _ => hroom
      unfold After after outcome at happ ⊢
      simp only [Bool.not_false, if_true]
      rw [bind_of_ok hpre]
      exact happ
    · exact herr (bind_of_error hpre) hself

theorem commitNewDocument {c : Bool} (hact : s.view.action doc = .write a c) :
    After s doc true (commitNewDocument doc i a c) := by
  refine h.written fun entry t hentry ht hroom hw => ?_
  have hr := ht.view_tx
  cases c with
  | true =>
    exact h.grown ⟨ht.good.cleanup doc, ht.txs, ht.grows⟩
      fun _ e he ha => (ha.uncounted he).2 hact
  | false => ?_
  obtain ⟨u, hadd, hu⟩ : ∃ u, (addProjectionDocument doc.transactionID doc.blockID).run t =
      .ok () u ∧ u.CountsFit doc.transactionID none := by
    rw [addProjectionDocument, get_bind]
    cases he : t.view.tx doc.transactionID with
    | none =>
      have hget := ht.good.view_tx_none.mp he
      have hnil : t.view.Covers doc.transactionID [] 0 := ⟨Nat.zero_le _, Nat.le_refl _⟩
      refine ⟨_, ?_, putEntry (f := true) (e := ⟨[doc.blockID], 1, false⟩) ht.good (by simp)
        (.inl (hnil.concat (View.writeIdx_indexed hentry hact hw)))⟩
      simp [Index.addProjectionDocument, hget]
      rfl
    | some e =>
      have hget := Shard.view_tx_some.mp he
      rw [hr] at he
      have hcov := (h.own he).count hentry hact hw he (hroom rfl e he)
      refine ⟨_, ?_, putEntry (f := true) ht.good (e.addDocument_ne_nil _) (.inl hcov)⟩
      simp only [Index.addProjectionDocument_of_get hget (hroom rfl e he)
        (Nat.lt_succ_of_le (View.Fits.length_le (.inl hcov)).2)]
      rfl
  simp only [After, after, outcome, Bool.not_false, if_true]
  rw [bind_of_ok hadd]
  exact ⟨hu.good.cleanup doc, hu.stored, hu.fits⟩

theorem commitUpTo {c : Bool} (hact : s.view.action doc = .write a c) (p : CrashPoint) :
    After s doc false (commitUpTo p doc i a c) := by
  refine h.written fun entry t hentry ht hroom hw => ?_
  have hsame := h.grown (f := false) ht nofun
  cases p with
  | idxAppended => exact hsame
  | blockListed =>
    cases c with
    | true => exact hsame
    | false => ?_
    have hr := ht.view_tx
    show (after (listBlock _ _) t).CountsFit _ (some doc)
    rw [listBlock, after_get_bind]
    cases he : t.view.tx doc.transactionID with
    | none => simpa [ht.good.view_tx_none.mp he] using hsame
    | some e => ?_
    have hget := Shard.view_tx_some.mp he
    rw [hr] at he
    by_cases hlast : e.blockIDs.getLast? = some doc.blockID
    · simpa [hget, hlast] using hsame
    have hahead : t.view.Ahead doc { e with blockIDs := e.blockIDs ++ [doc.blockID] } := by
      rcases h.own he with hc | ⟨⟨ids, hids, -⟩, -, -⟩
      · exact ⟨⟨_, rfl, hc.grow ht.grows⟩, hroom rfl e he, View.writeIdx_indexed hentry hact hw⟩
      · exact absurd (by simp [hids]) hlast
    have hput := putEntry ht.good (by simp) (.inr ⟨rfl, hahead⟩)
    simpa [hget, hlast, Index.addBlockID_of_get hget] using hput

theorem decided {k : CommitProjectionState → ShardM Unit}
    (hk : ∀ t state, t.CountsFit doc.transactionID (some doc) →
      t.view.action doc = .write state.targetExists state.targetCounted →
      After t doc f (k state)) : After s doc f (decided doc k) := by
  obtain ⟨t, hm, hrun⟩ := decided_run h.good doc k
  have ht := h.grown (f := false) (hm.grown h.good) nofun
  have hclean : s.Grown (t.cleanupCommittedOpenlogPreps doc) :=
    ⟨ht.good.cleanup doc, (hm.grown h.good).txs, (hm.grown h.good).grows⟩
  cases hact : s.view.action doc with
  | done =>
    simp only [hact] at hrun
    simp only [After, after, outcome, hrun]
    exact h.grown hclean fun _ e he ha => (ha.uncounted (a := true) he).1 hact
  | reject err =>
    simp only [hact] at hrun
    rcases hrun with hrun | hrun <;>
      simp only [After, after, outcome, hrun, Except.isOk, Except.toBool, Bool.and_false]
    · exact ht
    · exact h.grown hclean nofun
  | write a c =>
    simp only [hact] at hrun
    obtain ⟨state, rfl, rfl, hrun⟩ := hrun
    unfold After after outcome
    rw [hrun]
    exact hk t state ht (hm.view ▸ hact)

end Shard.CountsFit

theorem Shard.CountsFit.step {t : String} {x y : Shard × Option CommitDocument}
    (h : x.1.CountsFit t x.2) (hstep : TransactionStep t x y) : y.1.CountsFit t y.2 := by
  -- before an apply only its own command can be pending
  have hown : ∀ {s : Shard} {p} {doc : CommitDocument}, s.CountsFit doc.transactionID p →
      (∀ d ∈ p, d = doc) → s.CountsFit doc.transactionID (some doc) :=
    fun h hp => ⟨h.good, h.stored, fun e he => (h.fits e he).imp_right
      fun ⟨d, hd, ha⟩ => ⟨d, hp d hd ▸ rfl, ha⟩⟩
  cases hstep with
  | @restart s s' p henv htxs =>
    obtain ⟨hg, htx, hidx⟩ := henv
    have hgrow : s.view.Grows s'.view := fun b => (hidx b) ▸ List.prefix_rfl
    refine ⟨hg, htxs ▸ h.stored, fun e he => ?_⟩
    exact (h.fits e (htx ▸ he)).imp (·.grow hgrow)
      fun ⟨d, hd, ht, ha⟩ => ⟨d, hd, ht, ha.grow hgrow⟩
  | apply doc i ht hp =>
    subst ht
    exact (hown h hp).decided fun t state h hact => h.commitNewDocument hact
  | crash doc i point ht hp =>
    subst ht
    exact (hown h hp).decided fun t state h hact => h.commitUpTo hact point

/-- In every run of the commands of a Transaction without a record, the stored value decodes to
what was encoded, and it lists at most `65535` Blocks. -/
theorem transaction_counts_fit {t : String} {s : Shard} (hg : s.Good) (hnew : s.idx.txs t = none)
    {x : Shard × Option CommitDocument}
    (hrun : Relation.ReflTransGen (TransactionStep t) (s, none) x) {val : List UInt8}
    (hval : x.1.idx.txs t = some val) :
    ∃ e, val = encodeEntry e ∧ decodeEntry val = .ok e ∧ e.blockIDs.length ≤ 65535 ∧
      e.blockIDs.length ≤ e.docCount.toNat + 1 := by
  have hfit : x.1.CountsFit t x.2 := by
    clear hval
    induction hrun with
    | refl =>
      refine ⟨hg, by simp [hnew], fun e he => ?_⟩
      simp [Shard.view, Index.get, hnew, Except.toOption] at he
    | tail _ hstep ih => exact ih.step hstep
  obtain ⟨e, hlt, rfl⟩ := hfit.stored val hval
  have hdecode := decodeEntry_encodeEntry hlt
  have he : x.1.view.tx t = some e := Shard.view_tx_some.mpr (by simp [Index.get, hval, hdecode])
  refine ⟨e, rfl, hdecode, Nat.le_of_lt_succ hlt, ?_⟩
  rcases hfit.fits e he with hc | ⟨doc, -, rfl, ha⟩
  · exact (hc.listed).trans (Nat.le_succ _)
  · exact (View.Fits.length_le (.inr ha)).1

theorem transaction_counts_fit_replayed :
    ∃ val e, (after (applyCommitDocument (docOfT "a" 1 40) 1)
        (after (applyUpTo .idxAppended (docOfT "a" 1 40) 1) (Shard.fresh 1 false))).idx.txs "t" =
      some val ∧ decodeEntry val = .ok e ∧ e.blockIDs.length ≤ 65535 := by
  have hcrash : TransactionStep "t" (Shard.fresh 1 false, none) _ :=
    .crash (docOfT "a" 1 40) 1 .idxAppended rfl nofun
  obtain ⟨e, -, hdecode, hlen, -⟩ := transaction_counts_fit (Shard.fresh_fresh 1 false).1 rfl
    ((Relation.ReflTransGen.single hcrash).tail (.apply (docOfT "a" 1 40) 1 rfl (by simp))) rfl
  exact ⟨_, e, rfl, hdecode, hlen⟩

end Scrap
