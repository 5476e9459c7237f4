/-
# The ledger: what a log of commits means

The abstract state of a Shard's metadata is the ledger: the committed Documents, each with its
Block, in commit order. The `.idx` of a Block holds the ledger's records of that Block, in order;
the record of a Transaction lists the RUNS of its Blocks, its Blocks in commit order without
immediate repetitions, and counts its Documents. `View.Rep v L` is this correspondence.

* `View.Rep.commit`: the commit of a Document whose identity is not in the ledger appends it;
* `Shard.listDocuments_rep`: `listDocuments` gathers the Transaction's Documents Block by Block
  along the runs, so it succeeds exactly when the runs have no repeated Block.
-/
import Scrap.Lib.Group
import Scrap.Shard.Refine

namespace Scrap

open Block Function Scrap.Group

abbrev Ledger := List ResolvedDocument

def CommitDocument.identity (doc : CommitDocument) : String × String :=
  (doc.transactionID, doc.documentName)

def CommitDocument.resolved? (doc : CommitDocument) : Option ResolvedDocument :=
  doc.indexEntry?.map (Prod.mk doc.blockID)

variable {doc : CommitDocument} {e entry : IndexEntry} {L : Ledger} {es : List IndexEntry}
  {t : String} {b : UInt64}

namespace Ledger

def inBlock (L : Ledger) (b : UInt64) : List IndexEntry :=
  (L.filter (fun d => d.1 = b)).map Prod.snd

def ofTx (L : Ledger) (t : String) : Ledger := L.filter (fun d => d.2.transactionID = t)

def blocks (L : Ledger) (t : String) : List UInt64 := (L.ofTx t).map Prod.fst

def Has (L : Ledger) (t name : String) : Prop :=
  ∃ d ∈ L, d.2.transactionID = t ∧ d.2.docName = name

def record (L : Ledger) (t : String) : Option Entry :=
  if L.ofTx t = [] then none
  else some ⟨runs (L.blocks t), UInt16.ofNat (L.ofTx t).length, false⟩

/-- The Transaction never commits to a Block again after it has committed to another. -/
def NeverReturns (L : Ledger) (t : String) : Prop := (runs (L.blocks t)).Nodup

instance (L : Ledger) (t : String) : Decidable (L.NeverReturns t) :=
  inferInstanceAs (Decidable (runs (L.blocks t)).Nodup)

theorem ofTx_concat_self (L : Ledger) (b : UInt64) (e : IndexEntry) :
    (L ++ [(b, e)] : Ledger).ofTx e.transactionID = L.ofTx e.transactionID ++ [(b, e)] := by
  simp [ofTx]

theorem ofTx_concat_of_ne (L : Ledger) (b : UInt64) (h : e.transactionID ≠ t) :
    (L ++ [(b, e)] : Ledger).ofTx t = L.ofTx t := by
  simp [ofTx, h]

theorem mem_ofTx {d : ResolvedDocument} :
    d ∈ L.ofTx t ↔ d ∈ L ∧ d.2.transactionID = t := by
  simp [ofTx]

theorem mem_inBlock :
    e ∈ L.inBlock b ↔ (b, e) ∈ L := by
  simp [inBlock]

theorem inBlock_append (L M : Ledger) (b : UInt64) :
    Ledger.inBlock (L ++ M) b = L.inBlock b ++ M.inBlock b := by
  simp [inBlock]

theorem inBlock_concat_self (L : Ledger) (b : UInt64) (e : IndexEntry) :
    (L ++ [(b, e)] : Ledger).inBlock b = L.inBlock b ++ [e] := by
  simp [inBlock]

theorem inBlock_concat_of_ne (L : Ledger) {c : UInt64} (e : IndexEntry) (h : b ≠ c) :
    (L ++ [(b, e)] : Ledger).inBlock c = L.inBlock c := by
  simp [inBlock, h]

theorem map_inBlock_ofTx (L : Ledger) (t : String) (b : UInt64) :
    (findByTransaction (L.inBlock b) t).map (Prod.mk b) = (L.ofTx t).filter (fun d => d.1 = b) := by
  induction L with
  | nil => rfl
  | cons d L ih =>
    obtain ⟨c, e⟩ := d
    by_cases hb : c = b
    · subst hb
      by_cases ht : e.transactionID = t <;> simpa [inBlock, ofTx, findByTransaction, ht] using ih
    · by_cases ht : e.transactionID = t <;> simpa [inBlock, ofTx, hb, ht] using ih

theorem flatMap_inBlock_eq_gather (L : Ledger) (t : String) (ids : List UInt64) :
    ids.flatMap (fun b => (findByTransaction (L.inBlock b) t).map (Prod.mk b)) =
      gather Prod.fst (L.ofTx t) ids := by
  simp only [map_inBlock_ofTx, gather]

end Ledger

/-! ## Views that represent a ledger -/

structure View.TxRep (v : View) (L : Ledger) : Prop where
  tx : ∀ t, v.tx t = L.record t
  small : ∀ t, (L.ofTx t).length ≤ 65535

structure View.Rep (v : View) (L : Ledger) : Prop extends View.TxRep v L where
  idx : ∀ b, (v.idx b).getD [] = L.inBlock b

section Rep

variable {v : View} {L : Ledger}

/-- What is visible along a Block list, from the `.idx` records alone. -/
theorem View.visible_eq_gather (h : ∀ b, (v.idx b).getD [] = L.inBlock b) (t : String)
    (ids : List UInt64) : v.visible t ids = gather Prod.fst (L.ofTx t) ids := by
  rw [← Ledger.flatMap_inBlock_eq_gather]
  simp only [View.visible, View.entriesOf, h]

theorem View.Rep.visible (h : v.Rep L) (t : String) (ids : List UInt64) :
    v.visible t ids = gather Prod.fst (L.ofTx t) ids :=
  View.visible_eq_gather h.idx t ids

theorem View.TxRep.tx_eq_none (h : v.TxRep L) : v.tx t = none ↔ L.ofTx t = [] := by
  rw [h.tx, Ledger.record]
  by_cases hnil : L.ofTx t = [] <;> simp [hnil]

theorem View.TxRep.tx_eq_some (h : v.TxRep L) {e : Entry} (he : v.tx t = some e) :
    L.ofTx t ≠ [] ∧ e.blockIDs = runs (L.blocks t) ∧
      e.docCount.toNat = (L.ofTx t).length ∧ e.completed = false := by
  rw [h.tx, Ledger.record] at he
  have hsmall := h.small t
  split at he
  · cases he
  rename_i hnil
  cases he
  refine ⟨hnil, rfl, ?_, rfl⟩
  simp only [UInt16.toNat_ofNat']
  omega

theorem Ledger.mem_runs_blocks :
    b ∈ runs (L.blocks t) ↔ ∃ d ∈ L.ofTx t, d.1 = b := by
  rw [mem_runs, Ledger.blocks, List.mem_map]

theorem Ledger.covered (t : String) : ∀ d ∈ L.ofTx t, d.1 ∈ runs (L.blocks t) :=
  fun d hd => Ledger.mem_runs_blocks.mpr ⟨d, hd, rfl⟩

theorem View.Rep.docCount_le_visible (h : v.Rep L) {e : Entry} (he : v.tx t = some e) :
    e.docCount.toNat ≤ (v.visible t e.blockIDs).length := by
  obtain ⟨-, hids, hcount, -⟩ := h.tx_eq_some he
  rw [hcount, h.visible, hids]
  exact length_le_gather (Ledger.covered t)

/-! ### A Document that is not in the ledger -/

theorem scanVisible_none {c : UInt16} :
    ∀ (l : List ResolvedDocument) (n : Nat) (state : CommitProjectionState),
      (∀ d ∈ l, d.2.docName ≠ doc.documentName) →
      scanVisible doc c n state l = .ok (state, n + l.length)
  | [], _, _, _ => rfl
  | (b, e) :: l, n, state, h => by
    have he : e.docName ≠ doc.documentName := h (b, e) (by simp)
    rw [scanVisible, if_pos he, scanVisible_none l (n + 1) state
      (fun d hd => h d (List.mem_cons_of_mem _ hd)), List.length_cons]
    congr 2
    omega

theorem mem_gather_fst {ids : List UInt64} {d : ResolvedDocument}
    (hd : d ∈ gather Prod.fst (L.ofTx t) ids) : d ∈ L ∧ d.2.transactionID = t := by
  simp only [gather, List.mem_flatMap, List.mem_filter] at hd
  obtain ⟨b, -, hmem, -⟩ := hd
  exact Ledger.mem_ofTx.mp hmem

theorem View.Rep.action_new (h : v.Rep L) (hnew : ¬ L.Has doc.transactionID doc.documentName) :
    v.action doc = .write false false := by
  unfold View.action View.commitState
  cases htx : v.tx doc.transactionID with
  | none => rfl
  | some e => ?_
  have hno : ∀ d ∈ v.visible doc.transactionID e.blockIDs, d.2.docName ≠ doc.documentName := by
    intro d hd hname
    rw [h.visible] at hd
    obtain ⟨hmem, ht⟩ := mem_gather_fst hd
    exact hnew ⟨d, hmem, ht, hname⟩
  have hle := h.docCount_le_visible htx
  simp only [scanVisible_none _ _ _ hno, finishInspection, CommitProjectionState.targetExists,
    CommitProjectionState.zero, commitAction]
  simp
  omega

theorem View.hasRecord_iff :
    View.hasRecord es doc = true ↔
      ∃ x ∈ es, x.transactionID = doc.transactionID ∧ x.docName = doc.documentName := by
  rw [View.hasRecord, ← find_ok_iff]
  cases find es doc.transactionID doc.documentName with
  | error err => simp [Except.toBool]
  | ok x => simp [Except.toBool]

theorem View.Rep.hasRecord_new (h : v.Rep L) (hnew : ¬ L.Has doc.transactionID doc.documentName)
    (hes : v.idx doc.blockID = some es) : View.hasRecord es doc = false := by
  have hin : es = L.inBlock doc.blockID := by simpa [hes] using h.idx doc.blockID
  refine Bool.eq_false_iff.mpr fun hrec => ?_
  obtain ⟨x, hx, ht, hn⟩ := View.hasRecord_iff.mp hrec
  rw [hin, Ledger.mem_inBlock] at hx
  exact hnew ⟨_, hx, ht, hn⟩

theorem Ledger.record_concat_self (L : Ledger) (b : UInt64) (e : IndexEntry) :
    (L ++ [(b, e)] : Ledger).record e.transactionID =
      some ⟨if (runs (L.blocks e.transactionID)).getLast? = some b then
          runs (L.blocks e.transactionID) else runs (L.blocks e.transactionID) ++ [b],
        UInt16.ofNat ((L.ofTx e.transactionID).length + 1), false⟩ := by
  have hblocks : (L ++ [(b, e)] : Ledger).blocks e.transactionID =
      L.blocks e.transactionID ++ [b] := by
    rw [Ledger.blocks, Ledger.ofTx_concat_self, List.map_append]
    rfl
  rw [Ledger.record, Ledger.ofTx_concat_self, hblocks, runs_concat]
  simp

theorem Ledger.record_concat_of_ne (L : Ledger) (b : UInt64) (h : e.transactionID ≠ t) :
    (L ++ [(b, e)] : Ledger).record t = L.record t := by
  simp only [Ledger.record, Ledger.blocks, Ledger.ofTx_concat_of_ne L b h]

/-! ### The commit of a new Document -/

theorem CommitDocument.indexEntry?_some (h : doc.indexEntry? = some entry) :
    entry.transactionID = doc.transactionID ∧ entry.docName = doc.documentName := by
  unfold CommitDocument.indexEntry? at h
  split at h
  · cases h
    exact ⟨rfl, rfl⟩
  · cases h

theorem View.TxRep.addDocument (h : v.TxRep L) {e : Entry} (he : v.tx t = some e) (b : UInt64) :
    e.addDocument b = ⟨if (runs (L.blocks t)).getLast? = some b then runs (L.blocks t)
        else runs (L.blocks t) ++ [b], UInt16.ofNat ((L.ofTx t).length + 1), false⟩ := by
  obtain ⟨-, hids, hcount, hcompl⟩ := h.tx_eq_some he
  have hdc : e.docCount + 1 = UInt16.ofNat ((L.ofTx t).length + 1) := by
    rw [← hcount]
    apply UInt16.toNat_inj.mp
    simp [UInt16.toNat_add]
  simp only [Entry.addDocument, hids, hdc, hcompl]

theorem View.TxRep.listFits (h : v.TxRep L) (hroom : v.hasRoom t) (b : UInt64) :
    v.listFits t b := by
  intro e he
  obtain ⟨-, -, hcount, -⟩ := h.tx_eq_some he
  have hsucc := toNat_succ_docCount (hroom e he)
  have hlt := (e.docCount + 1).toNat_lt
  have hruns := length_runs_le (L.blocks t)
  have hblocks : (L.blocks t).length = (L.ofTx t).length := by simp [Ledger.blocks]
  rw [h.addDocument he b]
  simp only
  split
  · omega
  · rw [List.length_append, List.length_singleton]
    omega

theorem View.TxRep.count (h : v.TxRep L) (hroom : v.hasRoom entry.transactionID) :
    ∃ v', v.count entry.transactionID b = some v' ∧ v'.idx = v.idx ∧
      v'.TxRep (L ++ [(b, entry)]) := by
  -- whatever record was there, the new one is the ledger's
  have hcount : v.count entry.transactionID b = some ⟨v.idx, update v.tx entry.transactionID
        ((L ++ [(b, entry)] : Ledger).record entry.transactionID)⟩ := by
    rw [Ledger.record_concat_self]
    cases hold : v.tx entry.transactionID with
    | none =>
      have hnil := h.tx_eq_none.mp hold
      simp [View.count, hold, hnil, Ledger.blocks]
    | some e =>
      have hfull := hroom e hold
      have hfits := h.listFits hroom b e hold
      have hkeep : ¬ (e.docCount = maxDocCount ∨ 65536 ≤ (e.addDocument b).blockIDs.length) := by
        simp [hfull, hfits]
      simp only [View.count, hold]
      rw [if_neg hkeep, h.addDocument hold b]
  have hlen : (L.ofTx entry.transactionID).length + 1 ≤ 65535 := by
    by_cases hnil : L.ofTx entry.transactionID = []
    · simp [hnil]
    obtain ⟨e, he⟩ := Option.ne_none_iff_exists'.mp (mt h.tx_eq_none.mp hnil)
    have hne := toNat_succ_docCount (hroom e he)
    have hlt := (e.docCount + 1).toNat_lt
    obtain ⟨-, -, hc, -⟩ := h.tx_eq_some he
    omega
  refine ⟨_, hcount, rfl, ?_, ?_⟩
  · intro t
    by_cases ht : t = entry.transactionID
    · subst ht
      simp
    · simp only [update_of_ne ht]
      rw [h.tx, Ledger.record_concat_of_ne L b (Ne.symm ht)]
  · intro t
    by_cases ht : entry.transactionID = t
    · subst ht
      rw [Ledger.ofTx_concat_self, List.length_append]
      exact hlen
    · rw [Ledger.ofTx_concat_of_ne L b ht]
      exact h.small t

theorem View.inBlock_update {V : Ledger} (h : ∀ c, (v.idx c).getD [] = V.inBlock c)
    (hidx : v.idx b = some es) (c : UInt64) :
    (update v.idx b (some (es ++ [entry])) c).getD [] = (V ++ [(b, entry)] : Ledger).inBlock c := by
  by_cases hc : c = b
  · subst hc
    have hes : es = V.inBlock c := by simpa [hidx] using h c
    simp [Ledger.inBlock_concat_self, hes]
  · rw [update_of_ne hc, h, Ledger.inBlock_concat_of_ne V entry (Ne.symm hc)]

theorem View.Rep.count_new (h : v.Rep L) (htx : entry.transactionID = t) (hidx : v.idx b = some es)
    (hroom : v.hasRoom t) :
    ∃ v', View.count { v with idx := update v.idx b (some (es ++ [entry])) } t b =
        some v' ∧ v'.Rep (L ++ [(b, entry)]) ∧
      ∀ c, (v'.idx c).isSome = (v.idx c).isSome := by
  subst htx
  have htx : View.TxRep { v with idx := update v.idx b (some (es ++ [entry])) } L := ⟨h.tx, h.small⟩
  obtain ⟨v', hcount, hidx', htx'⟩ := htx.count hroom
  refine ⟨v', hcount, ⟨htx', fun c => ?_⟩, fun c => ?_⟩
  · rw [hidx']
    exact View.inBlock_update h.idx hidx c
  rw [hidx']
  by_cases hc : c = b
  · subst hc
    simp [hidx]
  · simp [update_of_ne hc]

/-- When and to what a new Document commits, in the open Block and a closed one alike. -/
theorem View.Rep.commit_new (h : v.Rep L) (o : Bool)
    (hnew : ¬ L.Has doc.transactionID doc.documentName) :
    (∃ entry, doc.indexEntry? = some entry ∧ FieldsFit entry ∧
        (v.idx doc.blockID).isSome ∧ v.hasRoom doc.transactionID ∧
        ∃ v', v.commit o doc = some v' ∧ v'.Rep (L ++ [(doc.blockID, entry)]) ∧
          ∀ b, (v'.idx b).isSome = (v.idx b).isSome) ∨
      (v.commit o doc = none ∧ ¬ ∃ entry, doc.indexEntry? = some entry ∧ FieldsFit entry ∧
          (v.idx doc.blockID).isSome ∧ v.hasRoom doc.transactionID) := by
  rw [View.commit, h.action_new hnew]
  simp only [View.commitWrite]
  cases hentry : doc.indexEntry? with
  | none => exact .inr ⟨rfl, by simp⟩
  | some entry => ?_
  obtain ⟨htx, -⟩ := CommitDocument.indexEntry?_some hentry
  cases hidx : v.idx doc.blockID with
  | none => exact .inr ⟨by simp [View.writeIdx, hidx], by simp⟩
  | some es => ?_
  have hrec := h.hasRecord_new hnew hidx
  have hcond : ¬ (if o = true then false else View.hasRecord es doc) = true := by
    cases o <;> simp [hrec]
  by_cases hfit : FieldsFit entry
  · have hw : v.writeIdx o doc entry false =
        some { v with idx := update v.idx doc.blockID (some (es ++ [entry])) } := by
      simp only [View.writeIdx, hidx, if_neg hcond, if_pos hfit]
    by_cases hroom : v.hasRoom doc.transactionID
    · refine .inl ⟨entry, rfl, hfit, rfl, hroom, ?_⟩
      simp only [hw]
      exact View.Rep.count_new h htx hidx hroom
    · refine .inr ⟨?_, by rintro ⟨_, -, -, -, hr⟩; exact hroom hr⟩
      simp only [hw]
      exact View.count_eq_none.mpr fun h' => hroom h'.1
  · refine .inr ⟨?_, ?_⟩
    · simp only [View.writeIdx, hidx, if_neg hcond, if_neg hfit]
    · rintro ⟨e', he', hfit', -⟩
      exact hfit (Option.some.inj he' ▸ hfit')

end Rep

/-! ## Listing a Transaction -/

section Listing

variable {s : Shard}

namespace Resolver

theorem blockEntries_ok (hi : s.Intact) (h : s.view.entriesOf t b ≠ []) :
    s.projectionResolver.blockEntries t b = .ok (s.view.entriesOf t b) := by
  unfold blockEntries Shard.projectionResolver
  cases hidx : (s.blocks b).idx with
  | none => simp [View.entriesOf, Shard.view, hidx, findByTransaction] at h
  | some f => ?_
  have hentries : s.view.entriesOf t b = findByTransaction f.entries t := by
    simp [View.entriesOf, Shard.view, hidx]
  rw [hentries] at h ⊢
  simp only [hidx, openIndexReader, hi b f hidx, Bool.false_eq_true, if_false]
  cases hes : findByTransaction f.entries t with
  | nil => exact absurd hes h
  | cons e es => rfl

theorem collect_ok (hi : s.Intact) (t : String) :
    ∀ (ids : List UInt64) (docs : List ResolvedDocument), (∀ b ∈ ids, s.view.entriesOf t b ≠ []) →
      s.projectionResolver.collect t docs ids = .ok (docs ++ s.view.visible t ids)
  | [], docs, _ => by simp [collect, View.visible]
  | b :: ids, docs, h => by
    have hb := blockEntries_ok hi (h b (by simp))
    rw [collect, hb]
    simp only
    rw [collect_ok hi t ids _ (fun c hc => h c (by simp [hc]))]
    simp [View.visible]

theorem blockEntries_nil (h : s.view.entriesOf t b = []) :
    ∃ err, s.projectionResolver.blockEntries t b = .error err := by
  unfold blockEntries Shard.projectionResolver
  cases hidx : (s.blocks b).idx with
  | none => exact ⟨.blockIndex b .notExist, by simp [hidx, openIndexReader]⟩
  | some f => ?_
  have hnil : findByTransaction f.entries t = [] := by
    simpa [View.entriesOf, Shard.view, hidx] using h
  cases htorn : f.torn with
  | true => exact ⟨.blockIndex b .corruptTail, by simp [hidx, openIndexReader, htorn]⟩
  | false => exact ⟨.missingFromBlock t b, by simp [hidx, openIndexReader, htorn, hnil]⟩

theorem collect_error :
    ∀ {ids : List UInt64} (docs : List ResolvedDocument), (∃ b ∈ ids, s.view.entriesOf t b = []) →
      ∃ err, s.projectionResolver.collect t docs ids = .error err
  | [], _, h => by simp at h
  | c :: ids, docs, h => by
    rw [collect]
    cases hentries : s.projectionResolver.blockEntries t c with
    | error err => exact ⟨err, rfl⟩
    | ok es => ?_
    refine collect_error _ ?_
    obtain ⟨b, hb, hnil⟩ := h
    rcases List.mem_cons.mp hb with rfl | hb
    · obtain ⟨err, herr⟩ := blockEntries_nil hnil
      simp [herr] at hentries
    · exact ⟨b, hb, hnil⟩

end Resolver

/-- A listing is what is visible along the Block list: each Block has a record, and there are as
many as counted. -/
theorem Shard.listDocuments_ok_iff (hg : s.Good) (hi : s.Intact) {docs : List ResolvedDocument} :
    s.projectionResolver.listDocuments t = .ok docs ↔ (s.view.tx t = none ∧ docs = []) ∨
        ∃ r, s.view.tx t = some r ∧ (∀ b ∈ r.blockIDs, s.view.entriesOf t b ≠ []) ∧
          s.view.visible t r.blockIDs = docs ∧ docs.length = r.docCount.toNat := by
  unfold Resolver.listDocuments Resolver.transactionEntry
  cases htx : s.view.tx t with
  | none =>
    have hget := hg.view_tx_none.mp htx
    simp only [Shard.projectionResolver, hget, Except.ok.injEq]
    constructor
    · rintro rfl
      exact .inl ⟨trivial, rfl⟩
    · rintro (⟨-, rfl⟩ | ⟨r, hr, -⟩)
      · rfl
      · cases hr
  | some r =>
    have hget : s.projectionResolver.projection.get t = .ok r := Shard.view_tx_some.mp htx
    have hne := (hg.tx_wf htx).1
    simp only [hget, hne, if_false]
    by_cases hall : ∀ b ∈ r.blockIDs, s.view.entriesOf t b ≠ []
    · rw [Resolver.collect_ok hi t r.blockIDs [] hall, List.nil_append]
      by_cases hlen : (s.view.visible t r.blockIDs).length = r.docCount.toNat
      · simp only [hlen, ne_eq, not_true_eq_false, if_false, Except.ok.injEq]
        constructor
        · rintro rfl
          exact .inr ⟨r, rfl, hall, rfl, hlen⟩
        rintro (⟨h, -⟩ | ⟨r', hr', -, rfl, -⟩)
        · cases h
        · cases hr'
          rfl
      · simp only [ne_eq, hlen]
        constructor
        · intro h
          cases h
        rintro (⟨h, -⟩ | ⟨r', hr', -, rfl, hlen'⟩)
        · cases h
        · cases hr'
          exact absurd hlen' hlen
    · push Not at hall
      obtain ⟨err, herr⟩ := Resolver.collect_error [] hall
      simp only [herr]
      constructor
      · intro h
        cases h
      rintro (⟨h, -⟩ | ⟨r', hr', hall', -⟩)
      · cases h
      · cases hr'
        obtain ⟨b, hb, hnil⟩ := hall
        exact absurd hnil (hall' b hb)

theorem View.Rep.entriesOf_ne_nil {v : View} (h : v.Rep L) (hb : b ∈ runs (L.blocks t)) :
    v.entriesOf t b ≠ [] := by
  obtain ⟨d, hd, rfl⟩ := Ledger.mem_runs_blocks.mp hb
  intro hnil
  have hmap := Ledger.map_inBlock_ofTx L t d.1
  rw [← h.idx, ← View.entriesOf, hnil] at hmap
  have hmem : d ∈ (L.ofTx t).filter (fun x => x.1 = d.1) := by simp [hd]
  rw [← hmap] at hmem
  simp at hmem

/-- Listing gathers the Transaction's Documents along the runs of its Blocks, and accepts as many as
were committed. -/
theorem Shard.listDocuments_rep (hg : s.Good) (hi : s.Intact) (h : s.view.Rep L) (t : String) :
    (L.NeverReturns t ∧ ∃ docs, s.projectionResolver.listDocuments t = .ok docs ∧
        docs.Perm (L.ofTx t)) ∨
      (¬ L.NeverReturns t ∧ ∃ err, s.projectionResolver.listDocuments t = .error err) := by
  cases htx : s.view.tx t with
  | none =>
    have hnil := h.tx_eq_none.mp htx
    refine .inl ⟨by simp [Ledger.NeverReturns, Ledger.blocks, hnil], [], ?_, by rw [hnil]⟩
    exact (Shard.listDocuments_ok_iff hg hi).mpr (.inl ⟨htx, rfl⟩)
  | some e =>
    obtain ⟨-, hids, hcount, -⟩ := h.tx_eq_some htx
    have hvisible : s.view.visible t e.blockIDs =
        gather Prod.fst (L.ofTx t) (runs (L.blocks t)) := by rw [h.visible, hids]
    have hlen : (gather Prod.fst (L.ofTx t) (runs (L.blocks t))).length = (L.ofTx t).length ↔
        L.NeverReturns t :=
      length_gather_eq_iff (Ledger.covered t) fun b hb => Ledger.mem_runs_blocks.mp hb
    by_cases hnd : L.NeverReturns t
    · refine .inl ⟨hnd, _, (Shard.listDocuments_ok_iff hg hi).mpr (.inr ⟨e, htx,
        fun b hb => h.entriesOf_ne_nil (hids ▸ hb), hvisible, ?_⟩),
        gather_perm (Ledger.covered t) hnd⟩
      rw [hcount]
      exact hlen.mpr hnd
    · refine .inr ⟨hnd, ?_⟩
      cases hlist : s.projectionResolver.listDocuments t with
      | error err => exact ⟨err, rfl⟩
      | ok docs => ?_
      rcases (Shard.listDocuments_ok_iff hg hi).mp hlist with
        ⟨hnone, -⟩ | ⟨r, hr, -, hdocs, hlen'⟩
      · exact absurd (htx.symm.trans hnone) (by simp)
      · cases htx.symm.trans hr
        rw [← hdocs, hvisible, hcount] at hlen'
        exact absurd (hlen.mp hlen') hnd

end Listing

end Scrap
