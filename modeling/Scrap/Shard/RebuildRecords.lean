/-
# What a rebuild makes of the Transaction records

The new Projection represents the ledger of the order in which the records are read (`Index.Rep`): a
rebuild fails on a Transaction with more than 65535 records and otherwise writes, for each
Transaction, the runs of its Blocks in reading order.

On a Shard that applies nothing meanwhile that is the ascending order of the Blocks
(`Shard.scanned`), and every Document resolves. That is, if the rebuild comes to its end: the bulk
phase demands the `.blk` of every Block with an `.idx`, so one evicted Block stops it.
-/
import Scrap.Shard.RebuildUploads

namespace Scrap

open Block Fallible Function Scrap.Group

/-! ## A Projection that represents a ledger -/

def Index.view (idx : Index) : View := ⟨fun _ => none, fun t => (idx.get t).toOption⟩

structure Index.Rep (idx : Index) (R : Ledger) : Prop where
  wf : idx.WF
  rep : idx.view.TxRep R

theorem Index.rep_empty : Index.empty.Rep [] :=
  ⟨Index.wf_empty, fun _ => rfl, fun _ => by simp [Ledger.ofTx]⟩

theorem Index.view_putEntry {idx : Index} {t : String} {e : Entry}
    (h : e.blockIDs.length < 65536) :
    (idx.putEntry t e).view = { idx.view with tx := update idx.view.tx t (some e) } := by
  have htx : (idx.putEntry t e).view.tx = update idx.view.tx t (some e) := by
    funext t'
    by_cases ht : t' = t
    · subst ht
      simp [Index.view, Index.get_putEntry_self _ _ h, Except.toOption]
    · simp [Index.view, Index.get_putEntry_of_ne _ e ht, ht]
  show (⟨idx.view.idx, (idx.putEntry t e).view.tx⟩ : View) = _
  rw [htx]

section Rep

variable {idx idx' : Index} {R : Ledger}

theorem Index.Rep.hasRoom_iff (h : idx.Rep R) (t : String) :
    idx.view.hasRoom t ↔ (R.ofTx t).length < 65535 := by
  have hsmall := h.rep.small t
  constructor
  · intro hroom
    by_contra hfull
    have hlen : (R.ofTx t).length = 65535 := by omega
    obtain ⟨e, he⟩ : ∃ e, idx.view.tx t = some e :=
      Option.ne_none_iff_exists'.mp fun hnone => by
        rw [h.rep.tx_eq_none.mp hnone] at hlen
        simp at hlen
    obtain ⟨-, -, hcount, -⟩ := h.rep.tx_eq_some he
    exact hroom e he (UInt16.toNat_inj.mp (hcount.trans hlen))
  · intro hlt e he hfull
    obtain ⟨-, -, hcount, -⟩ := h.rep.tx_eq_some he
    rw [hfull] at hcount
    have hmax : maxDocCount.toNat = 65535 := rfl
    omega

theorem Index.Rep.add (h : idx.Rep R) (b : UInt64) (e : IndexEntry)
    (hroom : (R.ofTx e.transactionID).length < 65535) :
    ∃ idx', idx.addProjectionDocument e.transactionID b = (.ok (), idx') ∧
      idx'.Rep (R ++ [(b, e)]) := by
  have hhas := (h.hasRoom_iff e.transactionID).mpr hroom
  obtain ⟨v, hcount, -, hrep⟩ := h.rep.count hhas
  rcases h.wf.get_eq e.transactionID with hget | ⟨r, hget, hne, hlt⟩
  · refine ⟨idx.putEntry e.transactionID ⟨[b], 1, false⟩, ?_, h.wf.putEntry _ (by simp) (by simp), ?_⟩
    · simp only [Index.addProjectionDocument, hget]
      rfl
    have htx : idx.view.tx e.transactionID = none := by simp [Index.view, hget, Except.toOption]
    simp only [View.count, htx] at hcount
    rw [Index.view_putEntry (by simp)]
    exact Option.some.inj hcount ▸ hrep
  · have htx : idx.view.tx e.transactionID = some r := toOption_eq_some.mpr hget
    have hfull := hhas r htx
    have hfits := h.rep.listFits hhas b r htx
    refine ⟨idx.putEntry e.transactionID (r.addDocument b),
      Index.addProjectionDocument_of_get hget hfull hfits,
      h.wf.putEntry _ (r.addDocument_ne_nil b) hfits, ?_⟩
    have hkeep : ¬ (r.docCount = maxDocCount ∨ 65536 ≤ (r.addDocument b).blockIDs.length) := by
      simp [hfull, hfits]
    simp only [View.count, htx, if_neg hkeep] at hcount
    rw [Index.view_putEntry hfits]
    exact Option.some.inj hcount ▸ hrep

theorem Index.Rep.add_full (h : idx.Rep R) (b : UInt64) {t : String}
    (hfull : ¬ (R.ofTx t).length < 65535) :
    ∃ err idx', idx.addProjectionDocument t b = (.error err, idx') := by
  have hroom := mt (h.hasRoom_iff t).mp hfull
  unfold View.hasRoom at hroom
  push Not at hroom
  obtain ⟨e, he, hmax⟩ := hroom
  have hget : idx.get t = .ok e := toOption_eq_some.mp he
  have hlt : e.blockIDs.length < 65536 := by
    rcases h.wf.get_eq t with hget' | ⟨e', hget', -, hlt⟩
    · exact absurd (hget.symm.trans hget') (by simp)
    · cases hget.symm.trans hget'
      exact hlt
  have hincr : ∀ {idx : Index} {e : Entry}, idx.get t = .ok e → e.docCount = maxDocCount →
      idx.incrementDocCount t = .error .docCountAtMaximum := by
    intro idx e hget hmax
    simp [Index.incrementDocCount, hget, hmax]
  by_cases hfits : (e.addDocument b).blockIDs.length < 65536
  · unfold Index.addProjectionDocument
    simp only [hget]
    split
    · rename_i hlast
      rw [Index.addBlockID_of_get hget]
      simp only [Entry.addDocument, if_neg hlast] at hfits
      have hget' : (idx.putEntry t { e with blockIDs := e.blockIDs ++ [b] }).get t =
          .ok { e with blockIDs := e.blockIDs ++ [b] } := idx.get_putEntry_self t hfits
      simp only [hincr hget' hmax]
      exact ⟨_, _, rfl⟩
    · simp only [hincr hget hmax]
      exact ⟨_, _, rfl⟩
  · exact Index.addProjectionDocument_overflow hget hlt (Nat.le_of_not_lt hfits)

/-- No Transaction has more Documents than can be counted. -/
def Ledger.Small (R : Ledger) : Prop := ∀ t, (R.ofTx t).length ≤ 65535

theorem Ledger.Small.of_append {R R' : Ledger} (h : Ledger.Small (R ++ R')) : R.Small := by
  intro t
  have ht := h t
  rw [Ledger.ofTx, List.filter_append, List.length_append] at ht
  exact Nat.le_trans (Nat.le_add_right _ _) ht

theorem Index.Rep.addAll (b : UInt64) : ∀ (es : List IndexEntry) {idx : Index} {R : Ledger},
    idx.Rep R → (Ledger.Small (R ++ es.map (Prod.mk b)) ∧ ∃ idx',
        idx.addProjectionDocuments b es = .ok idx' ∧ idx'.Rep (R ++ es.map (Prod.mk b))) ∨
      (¬ Ledger.Small (R ++ es.map (Prod.mk b)) ∧
        ∃ err, idx.addProjectionDocuments b es = .error err)
  | [], idx, R, h => by
    rw [List.map_nil, List.append_nil]
    exact .inl ⟨h.rep.small, idx, rfl, h⟩
  | e :: es, idx, R, h => by
    rw [List.map_cons, List.append_cons]
    by_cases hroom : (R.ofTx e.transactionID).length < 65535
    · obtain ⟨next, hadd, hnext⟩ := h.add b e hroom
      simp only [Index.addProjectionDocuments, hadd]
      exact Index.Rep.addAll b es hnext
    · obtain ⟨err, next, hadd⟩ := h.add_full b hroom
      refine .inr ⟨fun hsmall => hroom ?_, _, by
        simp only [Index.addProjectionDocuments, hadd]
        rfl⟩
      have hone := hsmall.of_append e.transactionID
      rw [Ledger.ofTx_concat_self, List.length_append, List.length_singleton] at hone
      omega

end Rep

/-! ## Reading the Blocks -/

variable {ids : List UInt64} {b : UInt64}

section Read

variable {s : Shard} {R : Ledger}

theorem Shard.readBlockIndexEntries_ok {es : List IndexEntry} :
    s.readBlockIndexEntries b = .ok es ↔
      ∃ f, (s.blocks b).idx = some f ∧ f.torn = false ∧ f.entries = es := by
  unfold Shard.readBlockIndexEntries openIndexReader
  cases hidx : (s.blocks b).idx with
  | none => simp
  | some f => ?_
  cases htorn : f.torn with
  | true => simp [htorn]
  | false => simp [htorn]

structure Shard.Readable (s : Shard) (b : UInt64) : Prop where
  blk : (s.blocks b).blk.isSome
  idx : ∃ f, (s.blocks b).idx = some f ∧ f.torn = false

def Shard.recordsIn (s : Shard) (b : UInt64) : Ledger := ((s.view.idx b).getD []).map (Prod.mk b)

theorem Shard.Readable.read (h : s.Readable b) :
    s.readBlockIndexEntries b = .ok ((s.view.idx b).getD []) := by
  obtain ⟨f, hf, htorn⟩ := h.idx
  exact Shard.readBlockIndexEntries_ok.mpr ⟨f, hf, htorn, by simp [Shard.view, hf]⟩

theorem Bulk.readBlock_ok {bulk bulk' : Bulk} (h : bulk.projection.Rep R)
    (hread : bulk.readBlock s b = .ok bulk') :
    s.Readable b ∧ bulk'.projection.Rep (R ++ s.recordsIn b) ∧
      bulk'.seenEntries = update bulk.seenEntries b
        (some ((s.view.idx b).getD []).length) := by
  unfold Bulk.readBlock Shard.requireRebuildBlockAuthority at hread
  cases hblk : (s.blocks b).blk with
  | none => simp [hblk] at hread
  | some blk => ?_
  simp only [hblk] at hread
  cases hes : s.readBlockIndexEntries b with
  | error err => simp [hes] at hread
  | ok es => ?_
  obtain ⟨f, hf, htorn, -⟩ := Shard.readBlockIndexEntries_ok.mp hes
  have hr : s.Readable b := ⟨by simp [hblk], f, hf, htorn⟩
  cases hes.symm.trans hr.read
  simp only [hes] at hread
  rcases h.addAll b ((s.view.idx b).getD []) with ⟨-, idx', hadd, hrep⟩ | ⟨-, err, hadd⟩
  · simp only [hadd] at hread
    cases hread
    exact ⟨hr, hrep, rfl⟩
  · simp [hadd] at hread

theorem Shard.Readable.readBlock {bulk : Bulk} (h : bulk.projection.Rep R) (hr : s.Readable b)
    (hsmall : Ledger.Small (R ++ s.recordsIn b)) :
    ∃ bulk', bulk.readBlock s b = .ok bulk' := by
  unfold Bulk.readBlock Shard.requireRebuildBlockAuthority
  rw [if_neg (by simpa [← Option.isSome_iff_ne_none] using hr.blk)]
  simp only [hr.read]
  rcases h.addAll b ((s.view.idx b).getD []) with ⟨-, idx', hadd, -⟩ | ⟨hbig, -⟩
  · exact ⟨_, by rw [hadd]⟩
  · exact absurd hsmall hbig

/-- The records of a Block behind those the bulk phase has counted. -/
def Shard.tailIn (s : Shard) (seen : UInt64 → Option Nat) (b : UInt64) : Ledger :=
  (((s.view.idx b).getD []).drop ((seen b).getD 0)).map (Prod.mk b)

theorem Shard.applyBlockIndexDelta_ok {seen : UInt64 → Option Nat} {projection' : Index} :
    ∀ {ids : List UInt64} {projection : Index} {R : Ledger}, projection.Rep R →
      s.applyBlockIndexDelta seen projection ids = .ok projection' →
      projection'.Rep (R ++ ids.flatMap (s.tailIn seen))
  | [], projection, R, h, hok => by
    cases hok
    simpa using h
  | b :: ids, projection, R, h, hok => by
    rw [Shard.applyBlockIndexDelta] at hok
    split at hok
    · cases hok
    cases hes : s.readBlockIndexEntries b with
    | error err => simp [hes] at hok
    | ok es =>
      obtain ⟨f, hf, -, rfl⟩ := Shard.readBlockIndexEntries_ok.mp hes
      have hview : (s.view.idx b).getD [] = f.entries := by simp [Shard.view, hf]
      simp only [hes] at hok
      rcases h.addAll b (f.entries.drop ((seen b).getD 0)) with
        ⟨-, idx', hadd, hrep⟩ | ⟨-, err, hadd⟩
      · simp only [hadd] at hok
        rw [List.flatMap_cons, ← List.append_assoc]
        refine Shard.applyBlockIndexDelta_ok ?_ hok
        rw [Shard.tailIn, hview]
        exact hrep
      · simp [hadd] at hok

end Read

/-! ## A rebuild of a Shard that applies nothing -/

section Still

variable {s : Shard}

namespace Shard

def scanned (s : Shard) (ids : List UInt64) : Ledger := ids.flatMap s.recordsIn

theorem rebuildProjectionInto_ok : ∀ {ids : List UInt64} {bulk bulk' : Bulk} {R : Ledger},
    bulk.projection.Rep R → ids.Nodup → s.rebuildProjectionInto bulk ids = .ok bulk' →
      (∀ b ∈ ids, s.Readable b) ∧ bulk'.projection.Rep (R ++ s.scanned ids) ∧
      (∀ b ∈ ids, bulk'.seenEntries b = some ((s.view.idx b).getD []).length) ∧
      ∀ b, b ∉ ids → bulk'.seenEntries b = bulk.seenEntries b
  | [], bulk, bulk', R, h, _, hok => by
    cases hok
    exact ⟨by simp, by simpa [scanned] using h, by simp, fun _ _ => rfl⟩
  | b :: ids, bulk, bulk', R, h, hnodup, hok => by
    obtain ⟨hnot, hnodup⟩ := List.nodup_cons.mp hnodup
    rw [rebuildProjectionInto] at hok
    split at hok
    · cases hok
    rename_i hread
    obtain ⟨hr, hrep, hseen⟩ := Bulk.readBlock_ok h hread
    obtain ⟨hreadable, hrep', hseen', hrest⟩ := rebuildProjectionInto_ok hrep hnodup hok
    rw [List.append_assoc] at hrep'
    refine ⟨?_, hrep', ?_, ?_⟩
    · rintro b' hb'
      rcases List.mem_cons.mp hb' with rfl | hb'
      · exact hr
      · exact hreadable b' hb'
    · rintro b' hb'
      rcases List.mem_cons.mp hb' with rfl | hb'
      · rw [hrest b' hnot, hseen, update_self]
      · exact hseen' b' hb'
    · intro b' hb'
      rw [List.mem_cons, not_or] at hb'
      rw [hrest b' hb'.2, hseen, update_of_ne hb'.1]

theorem rebuildProjectionInto_succeeds : ∀ {ids : List UInt64} {bulk : Bulk} {R : Ledger},
    bulk.projection.Rep R → (∀ b ∈ ids, s.Readable b) → Ledger.Small (R ++ s.scanned ids) →
      ∃ bulk', s.rebuildProjectionInto bulk ids = .ok bulk'
  | [], bulk, R, _, _, _ => ⟨bulk, rfl⟩
  | b :: ids, bulk, R, h, hr, hsmall => by
    have hassoc : R ++ s.scanned (b :: ids) = (R ++ s.recordsIn b) ++ s.scanned ids := by
      simp [scanned]
    rw [hassoc] at hsmall
    obtain ⟨next, hread⟩ := (hr b List.mem_cons_self).readBlock h hsmall.of_append
    obtain ⟨-, hrep, -⟩ := Bulk.readBlock_ok h hread
    obtain ⟨bulk', hok⟩ := rebuildProjectionInto_succeeds hrep
      (fun b' hb' => hr b' (List.mem_cons_of_mem b hb')) hsmall
    exact ⟨bulk', by simp only [rebuildProjectionInto, hread, hok]⟩

theorem applyBlockIndexDelta_still {seen : UInt64 → Option Nat} {projection : Index} :
    ∀ {ids : List UInt64}, (∀ b ∈ ids, s.Readable b) →
      (∀ b ∈ ids, seen b = some ((s.view.idx b).getD []).length) →
      s.applyBlockIndexDelta seen projection ids = .ok projection
  | [], _, _ => rfl
  | b :: ids, hr, hseen => by
    have hb := hseen b List.mem_cons_self
    rw [applyBlockIndexDelta]
    simp only [hb, Option.isNone_some, Bool.false_eq_true, if_false,
      (hr b List.mem_cons_self).read, Option.getD_some, List.drop_length,
      Index.addProjectionDocuments]
    exact applyBlockIndexDelta_still (fun b' hb' => hr b' (List.mem_cons_of_mem b hb'))
      fun b' hb' => hseen b' (List.mem_cons_of_mem b hb')

/-! The ledger of the reading order. -/

theorem ofTx_scanned (ids : List UInt64) (t : String) :
    (s.scanned ids).ofTx t = s.view.visible t ids := by
  induction ids with
  | nil => rfl
  | cons b ids ih =>
    have hhead : Ledger.ofTx (s.recordsIn b) t = (s.view.entriesOf t b).map (Prod.mk b) := by
      unfold recordsIn Ledger.ofTx View.entriesOf findByTransaction
      rw [List.filter_map]
      rfl
    rw [scanned, List.flatMap_cons, Ledger.ofTx, List.filter_append]
    exact congrArg₂ (· ++ ·) hhead ih

end Shard

/-! Records that are read Block by Block. -/

theorem Ledger.inBlock_map (es : List IndexEntry) (b c : UInt64) :
    Ledger.inBlock (es.map (Prod.mk b)) c = if b = c then es else [] := by
  unfold Ledger.inBlock
  rw [List.filter_map]
  by_cases h : b = c <;> simp [h]

theorem Ledger.inBlock_flatMap (es : UInt64 → List IndexEntry) (hnodup : ids.Nodup) (b : UInt64) :
    Ledger.inBlock (ids.flatMap fun c => (es c).map (Prod.mk c)) b =
      if b ∈ ids then es b else [] := by
  induction ids with
  | nil => rfl
  | cons c ids ih =>
    obtain ⟨hnot, hnodup⟩ := List.nodup_cons.mp hnodup
    rw [List.flatMap_cons, Ledger.inBlock_append, Ledger.inBlock_map, ih hnodup]
    by_cases hcb : c = b
    · subst hcb
      simp [hnot]
    · have hne : b ≠ c := Ne.symm hcb
      simp [hcb, hne]

theorem Ledger.sorted_flatMap (es : UInt64 → List IndexEntry) (hsorted : ids.Pairwise (· ≤ ·)) :
    ((ids.flatMap fun b => (es b).map (Prod.mk b)).map Prod.fst).Pairwise (· ≤ ·) := by
  induction ids with
  | nil => exact .nil
  | cons b ids ih =>
    obtain ⟨hhead, htail⟩ := List.pairwise_cons.mp hsorted
    have hfst : ∀ c ∈ ((es b).map (Prod.mk b)).map Prod.fst, c = b := by
      intro c hc
      simp only [List.map_map, List.mem_map] at hc
      obtain ⟨-, -, rfl⟩ := hc
      rfl
    rw [List.flatMap_cons, List.map_append]
    refine List.pairwise_append.mpr ⟨?_, ih htail, fun c hc d hd => ?_⟩
    · refine List.pairwise_of_forall_mem_list fun c hc d hd => ?_
      rw [hfst c hc, hfst d hd]
      exact UInt64.le_refl b
    · obtain ⟨x, hx, rfl⟩ := List.mem_map.mp hd
      obtain ⟨a, ha, hx⟩ := List.mem_flatMap.mp hx
      obtain ⟨-, -, rfl⟩ := List.mem_map.mp hx
      rw [hfst c hc]
      exact hhead a ha

theorem Shard.inBlock_scanned (hnodup : ids.Nodup) (b : UInt64) :
    (s.scanned ids).inBlock b = if b ∈ ids then (s.view.idx b).getD [] else [] :=
  Ledger.inBlock_flatMap (fun b => (s.view.idx b).getD []) hnodup b

/-- Every record resolves through the Projection. -/
def Shard.Resolves (s : Shard) : Prop :=
  ∀ b es, s.view.idx b = some es → ∀ e ∈ es, ∃ docs,
    s.projectionResolver.listDocuments e.transactionID = .ok docs ∧ (b, e) ∈ docs

theorem Shard.resolves_of_rep (hg : s.Good) (hi : s.Intact) {L : Ledger} (hrep : s.view.Rep L)
    (hnr : ∀ t, L.NeverReturns t) : s.Resolves := by
  intro b es hes e he
  have hmem : (b, e) ∈ L.ofTx e.transactionID := by
    refine Ledger.mem_ofTx.mpr ⟨Ledger.mem_inBlock.mp ?_, rfl⟩
    rw [← hrep.idx b, hes]
    exact he
  rcases Shard.listDocuments_rep hg hi hrep e.transactionID with ⟨-, docs, hlist, hperm⟩ | ⟨hnot, -⟩
  · exact ⟨docs, hlist, hperm.mem_iff.mpr hmem⟩
  · exact absurd (hnr e.transactionID) hnot

theorem pairwise_listBlockIndexIDs (dir : List UInt64) :
    (listBlockIndexIDs dir).Pairwise (· ≤ ·) :=
  List.pairwise_insertionSort (· ≤ ·) dir

theorem Shard.neverReturns_scanned (hsorted : ids.Pairwise (· ≤ ·)) (t : String) :
    (s.scanned ids).NeverReturns t := by
  unfold Ledger.NeverReturns Ledger.blocks
  rw [Shard.ofTx_scanned]
  exact nodup_runs_of_sorted (fun _ _ h h' => UInt64.le_antisymm h h')
    (Ledger.sorted_flatMap (s.view.entriesOf t) hsorted)

end Still

/-! ## The end of the rebuild -/

section Outbox

variable {s : Shard} {projection projection' : Index} {b : UInt64}

theorem putPendingUploadForRebuild_txs {u : PendingUpload}
    (h : putPendingUploadForRebuild projection u = .ok projection') :
    projection'.txs = projection.txs := by
  unfold putPendingUploadForRebuild at h
  split at h
  · cases h
  rename_i hput
  cases h
  obtain rfl := Index.putPendingUpload_ok hput
  rfl

theorem putConfirmedUploadForRebuild_txs {u : ConfirmedUpload}
    (h : putConfirmedUploadForRebuild projection b u = .ok projection') :
    projection'.txs = projection.txs := by
  unfold putConfirmedUploadForRebuild Index.putConfirmedUpload at h
  cases hv : validateConfirmedUpload u with
  | error err => simp [hv] at h
  | ok v => ?_
  simp only [hv] at h
  cases h
  rfl

theorem Shard.rebuildUploadsOf_ok {fs : RebuildBlockFS}
    (h : s.rebuildUploadsOf projection b fs = .ok projection') :
    projection' = projection ∨ (∃ p, putPendingUploadForRebuild projection p = .ok projection') ∨
      ∃ q, putConfirmedUploadForRebuild projection b q = .ok projection' := by
  unfold Shard.rebuildUploadsOf at h
  split at h
  · unfold Shard.rebuildPendingUpload at h
    split at h
    · split at h
      · cases h
      split at h
      · cases h
      split at h
      · exact .inr (.inl ⟨_, h⟩)
      · exact .inr (.inr ⟨_, h⟩)
      · exact .inr (.inl ⟨_, h⟩)
    · split at h
      · cases h
      · rename_i hlocal
        cases h
        obtain hnone | ⟨q, -, idx, hput, heq⟩ := Shard.rebuildLocalConfirmed_ok hlocal
        · cases hnone
        · cases heq
          exact .inr (.inr ⟨q, hput⟩)
      · cases h
  · split at h
    · cases h
    rename_i r hlocal
    cases h
    obtain rfl | ⟨q, -, idx, hput, rfl⟩ := Shard.rebuildLocalConfirmed_ok hlocal
    · exact .inl rfl
    · exact .inr (.inr ⟨q, hput⟩)

theorem Shard.rebuildUploadOutbox_txs {fsState : UInt64 → RebuildBlockFS} :
    ∀ {ids : List UInt64} {projection : Index},
      s.rebuildUploadOutbox fsState projection ids = .ok projection' →
      projection'.txs = projection.txs
  | [], projection, h => by
    cases h
    rfl
  | b :: ids, projection, h => by
    rw [Shard.rebuildUploadOutbox] at h
    split at h
    · exact Shard.rebuildUploadOutbox_txs h
    split at h
    · cases h
    rename_i next hround
    rw [Shard.rebuildUploadOutbox_txs h]
    obtain rfl | ⟨p, hput⟩ | ⟨q, hput⟩ := Shard.rebuildUploadsOf_ok hround
    · rfl
    · exact putPendingUploadForRebuild_txs hput
    · exact putConfirmedUploadForRebuild_txs hput

theorem Index.Rep.of_txs {idx idx' : Index} {R : Ledger} (h : idx.Rep R) (htxs : idx'.txs = idx.txs) :
    idx'.Rep R := by
  have hget : ∀ t, idx'.get t = idx.get t := fun t => by rw [Index.get, Index.get, htxs]
  refine ⟨fun t val hv => h.wf t val (htxs ▸ hv), ⟨fun t => ?_, h.rep.small⟩⟩
  rw [← h.rep.tx t, Index.view, Index.view]
  simp only [hget]

/-- A Block that is Hot, or evicted with the marker of its confirmed upload. -/
def Shard.HotOrEvicted (s : Shard) (b : UInt64) : Prop :=
  ∃ lifecycle, (s.blocks b).classify b = .ok lifecycle ∧
    (lifecycle.state = .hot ∨ (lifecycle.state = .evicted ∧
      ∃ q, (s.blocks b).confirmedUploadAuthority = some q ∧
        validateRestoreAuthority q lifecycle = .ok ()))

theorem BlockFiles.classify_of_blk {files : BlockFiles} {lifecycle : Lifecycle}
    (h : files.classify b = .ok lifecycle) (hblk : files.blk.isSome) (hidx : files.idx.isSome) :
    lifecycle.state = .hot ∨ lifecycle.state = .hotCleanupNeeded := by
  unfold BlockFiles.classify at h
  rw [if_neg (by simpa [← Option.isSome_iff_ne_none] using hidx), hblk] at h
  split at h
  · cases h
    exact .inl rfl
  split at h
  · cases h
  · cases h
    exact .inr rfl

theorem Shard.Filed.rebuildUploadsOf (hf : s.Filed) (projection : Index) (hb : b ≠ 0)
    (hr : s.Readable b) (hlocal : s.HotOrEvicted b) {modTimeUs : UInt64 → Int}
    (hmod : 0 ≤ modTimeUs b) :
    ∃ projection', s.rebuildUploadsOf projection b (s.snapshotBlockFS modTimeUs b) =
      .ok projection' := by
  obtain ⟨f, hblk⟩ := Option.isSome_iff_exists.mp hr.blk
  obtain ⟨g, hidx, -⟩ := hr.idx
  have hpending : ∀ p, validatePendingUpload p = .ok () →
      ∃ projection', putPendingUploadForRebuild projection p = .ok projection' := fun p hp => by
    simp only [putPendingUploadForRebuild, Index.putPendingUpload, hp]
    exact ⟨_, rfl⟩
  have hconfirmed : ∀ q, s.idx.confirmedUploads b = some q →
      ∃ projection', putConfirmedUploadForRebuild projection b q = .ok projection' := fun q hq => by
    have hvalid := validateConfirmedUpload_of_authority (hf.checked.confirmed b q hq).2
    simp only [putConfirmedUploadForRebuild, Index.putConfirmedUpload, hvalid]
    exact ⟨_, rfl⟩
  unfold Shard.rebuildUploadsOf
  split
  · have hfresh : validatePendingUpload
        ⟨b, s.shardID, (f.size : Int), modTimeUs b, 0⟩ = .ok () :=
      validatePendingUpload_ok.mpr ⟨hb, Int.natCast_nonneg _, hmod, Int.le_refl 0⟩
    have hget : s.pendingUploadForRebuild b = .ok (s.idx.pendingUploads b) := by
      unfold Shard.pendingUploadForRebuild Index.getPendingUpload
      rw [if_neg hb]
      cases s.idx.pendingUploads b <;> rfl
    simp only [Shard.rebuildPendingUpload, Shard.snapshotBlockFS, hblk, hget, hf.committedUpload b]
    cases hp : s.idx.pendingUploads b with
    | none =>
      cases hq : s.idx.confirmedUploads b with
      | none => exact hpending _ hfresh
      | some q => exact hconfirmed q hq
    | some p =>
      have hkept := hpending p (hf.checked.pending b p hp).2
      cases hq : s.idx.confirmedUploads b with
      | none => exact hkept
      | some q => ?_
      simp only [shouldPreservePendingUploadForRebuild]
      cases decide (q.uploadGeneration < p.uploadGeneration) with
      | true => exact hkept
      | false => exact hconfirmed q hq
  · obtain ⟨lifecycle, hclass, -⟩ := hlocal
    have hstate := BlockFiles.classify_of_blk hclass hr.blk (by simp [hidx])
    simp only [Shard.rebuildLocalConfirmedUploadAuthority, Shard.snapshotBlockFS, hclass,
      hf.committedUpload b]
    cases hq : s.idx.confirmedUploads b with
    | none =>
      have hnot : lifecycle.state ≠ .evicted := by rcases hstate with h | h <;> simp [h]
      simp only [shouldRebuildConfirmedUploadAuthority, if_neg hnot]
      exact ⟨_, rfl⟩
    | some q =>
      obtain ⟨idx, hput⟩ := hconfirmed q hq
      have hcopy : shouldRebuildConfirmedUploadAuthority b lifecycle (some q) = .ok true := by
        rcases hstate with h | h <;> simp [shouldRebuildConfirmedUploadAuthority, h]
      simp only [hcopy, hput]
      exact ⟨_, rfl⟩

theorem Shard.Filed.rebuildUploadOutbox (hf : s.Filed) {modTimeUs : UInt64 → Int}
    (hmod : ∀ b, 0 ≤ modTimeUs b) : ∀ (ids : List UInt64) (projection : Index),
      (∀ b ∈ ids, b ≠ 0 ∧ s.Readable b ∧ s.HotOrEvicted b) →
      ∃ projection', s.rebuildUploadOutbox (s.snapshotBlockFS modTimeUs) projection ids =
        .ok projection'
  | [], projection, _ => ⟨projection, rfl⟩
  | b :: ids, projection, h => by
    rw [Shard.rebuildUploadOutbox]
    split
    · exact hf.rebuildUploadOutbox hmod ids _ fun b' hb' => h b' (List.mem_cons_of_mem b hb')
    obtain ⟨hb, hr, hlocal⟩ := h b List.mem_cons_self
    obtain ⟨next, hround⟩ := hf.rebuildUploadsOf projection hb hr hlocal (hmod b)
    simp only [hround]
    exact hf.rebuildUploadOutbox hmod ids next fun b' hb' => h b' (List.mem_cons_of_mem b hb')

/-- What stops a rebuild of an idle Shard: an `.idx` without its `.blk` or with a torn tail, or a
Transaction that cannot be counted. -/
theorem rebuild_resolves_iff (hg : s.Good) (hf : s.Filed) {dir : List UInt64}
    (hdir : s.IndexDir dir) (hpos : ∀ b ∈ dir, b ≠ 0) {modTimeUs : UInt64 → Int}
    (hmod : ∀ b, 0 ≤ modTimeUs b) (hlocal : ∀ b ∈ dir, s.HotOrEvicted b) :
    (∃ rebuilt, s.rebuildProjection modTimeUs dir = .ok rebuilt ∧
        Shard.Resolves { s with idx := rebuilt }) ↔
      (∀ b ∈ dir, (s.blocks b).blk.isSome) ∧ s.Intact ∧
        ∀ t, (s.view.visible t dir).length ≤ 65535 := by
  have hnodup := nodup_listBlockIndexIDs.mpr hdir.1
  have hsmall : Ledger.Small ([] ++ s.scanned (listBlockIndexIDs dir)) ↔
      ∀ t, (s.view.visible t dir).length ≤ 65535 := by
    refine forall_congr' fun t => ?_
    have hperm : (s.view.visible t (listBlockIndexIDs dir)).Perm (s.view.visible t dir) :=
      (List.perm_insertionSort _ dir).flatMap_right _
    rw [List.nil_append, Shard.ofTx_scanned, hperm.length_eq]
  have hreadable : (∀ b ∈ listBlockIndexIDs dir, s.Readable b) ↔
      (∀ b ∈ dir, (s.blocks b).blk.isSome) ∧ s.Intact := by
    constructor
    · intro h
      refine ⟨fun b hb => (h b (mem_listBlockIndexIDs.mpr hb)).blk, fun b f hidx => ?_⟩
      obtain ⟨f', hidx', htorn⟩ :=
        (h b (mem_listBlockIndexIDs.mpr ((hdir.2 b).mpr (by simp [hidx])))).idx
      cases hidx.symm.trans hidx'
      exact htorn
    · rintro ⟨hblk, hi⟩ b hb
      have hb' := mem_listBlockIndexIDs.mp hb
      obtain ⟨f, hidx⟩ := Option.isSome_iff_exists.mp ((hdir.2 b).mp hb')
      exact ⟨hblk b hb', f, hidx, hi b f hidx⟩
  rw [← and_assoc, ← hreadable, ← hsmall]
  have hstart : Bulk.start.projection.Rep [] := Index.rep_empty
  constructor
  · rintro ⟨rebuilt, hrebuild, -⟩
    unfold Shard.rebuildProjection at hrebuild
    split at hrebuild
    · cases hrebuild
    rename_i bulk hbulk
    obtain ⟨hr, hrep, -, -⟩ := Shard.rebuildProjectionInto_ok hstart hnodup hbulk
    exact ⟨hr, hrep.rep.small⟩
  · rintro ⟨hr, hsmall⟩
    obtain ⟨bulk, hbulk⟩ := Shard.rebuildProjectionInto_succeeds hstart hr hsmall
    obtain ⟨-, hrep, hseen, -⟩ := Shard.rebuildProjectionInto_ok hstart hnodup hbulk
    obtain ⟨rebuilt, houtbox⟩ := hf.rebuildUploadOutbox hmod (listBlockIndexIDs dir)
      bulk.projection fun b hb => ⟨hpos b (mem_listBlockIndexIDs.mp hb), hr b hb,
        hlocal b (mem_listBlockIndexIDs.mp hb)⟩
    have hrebuild : s.rebuildProjection modTimeUs dir = .ok rebuilt := by
      simp only [Shard.rebuildProjection, hbulk, Shard.finalizeRebuild,
        Shard.applyBlockIndexDelta_still hr hseen, houtbox]
    have hrep' := hrep.of_txs (Shard.rebuildUploadOutbox_txs houtbox)
    refine ⟨rebuilt, hrebuild, Shard.resolves_of_rep (L := s.scanned (listBlockIndexIDs dir))
      ⟨hrep'.wf, hg.openIdx⟩ (hreadable.mp hr).2 ⟨⟨hrep'.rep.tx, hrep'.rep.small⟩, fun b => ?_⟩
      fun t => Shard.neverReturns_scanned (pairwise_listBlockIndexIDs dir) t⟩
    rw [Shard.inBlock_scanned hnodup]
    by_cases hb : b ∈ listBlockIndexIDs dir
    · rw [if_pos hb]
      rfl
    have hnone : (s.blocks b).idx = none := by
      rw [mem_listBlockIndexIDs, hdir.2 b] at hb
      simpa using hb
    simp [Shard.view, hnone]

end Outbox

/-! ## One evicted Block -/

def evictedX : Shard :=
  uploadedX.setBlock 1 { uploadedX.blocks 1 with
    blk := none
    evictionMarker := some ⟨1, 1, "blk", 120, "v", 1, "operator_requested", "evidence_run"⟩ }

theorem evictedX_idx (h1 : b ≠ 1) (h2 : b ≠ 2) : evictedX.view.idx b = none := by
  have hblocks : evictedX.blocks b = uploadedX.blocks b := update_of_ne h1 _ _
  have hidx : evictedX.view.idx b = uploadedX.view.idx b := by simp only [Shard.view, hblocks]
  rw [hidx]
  exact uploadedX_idx h1 h2

theorem receiveTwo_filed : (receiveTwo (Shard.fresh 1 true)).Filed := .of_empty receiveTwo_uploads

theorem sealedX_filed : sealedX.Filed := by
  have hcommit : committedX.Filed :=
    EntryStep.filed_after receiveTwo_good receiveTwo_filed (by decide +kernel)
  exact EntryStep.filed_after committedX_good hcommit (by decide +kernel)

theorem evicted_block_stops_rebuild :
    evictedX.IndexDir [2, 1] ∧ (∀ b ∈ [2, 1], evictedX.HotOrEvicted b) ∧
      ∀ modTimeUs, evictedX.rebuildProjection modTimeUs [2, 1] = .error (.withoutBlk 1) := by
  refine ⟨Shard.indexDir_two ⟨by decide +kernel, by decide +kernel⟩ fun b => evictedX_idx,
    fun b hb => ?_, fun modTimeUs => ?_⟩
  · simp only [List.mem_cons, List.not_mem_nil, or_false] at hb
    rcases hb with rfl | rfl
    · exact ⟨⟨.hot, none⟩, by decide +kernel, .inl rfl⟩
    have hmatch : (evictedX.blocks 1).confirmedUploadAuthority.map (fun q =>
        validateRestoreAuthority q ⟨.evicted, (evictedX.blocks 1).evictionMarker⟩) =
        some (.ok ()) := by decide +kernel
    obtain ⟨q, hq, hvalid⟩ := Option.map_eq_some_iff.mp hmatch
    exact ⟨⟨.evicted, (evictedX.blocks 1).evictionMarker⟩, by decide +kernel,
      .inr ⟨rfl, q, hq, hvalid⟩⟩
  · have hids : listBlockIndexIDs [2, 1] = [1, 2] := by decide
    have hblk : (evictedX.blocks 1).blk = none := by decide +kernel
    simp only [Shard.rebuildProjection, hids, Shard.rebuildProjectionInto, Bulk.readBlock,
      Shard.requireRebuildBlockAuthority, hblk, Option.isNone_none, if_true]

/-- With its `.blk` in place the Block is rebuilt. -/
theorem rebuild_resolves_iff_sealed : ∃ rebuilt,
    sealedX.rebuildProjection (fun _ => 1) [2, 1] = .ok rebuilt ∧
      Shard.Resolves { sealedX with idx := rebuilt } := by
  have hdir : sealedX.IndexDir [2, 1] :=
    Shard.indexDir_two ⟨by decide +kernel, by decide +kernel⟩ fun b => sealedX_idx
  have htwo : ∀ {P : UInt64 → Prop}, P 2 → P 1 → ∀ b ∈ [2, 1], P b := by
    intro P h2 h1 b hb
    simp only [List.mem_cons, List.not_mem_nil, or_false] at hb
    rcases hb with rfl | rfl
    · exact h2
    · exact h1
  refine (rebuild_resolves_iff sealedX_good sealedX_filed hdir (by simp)
    (fun _ => by decide)
    (htwo ⟨⟨.hot, none⟩, by decide +kernel, .inl rfl⟩
      ⟨⟨.hot, none⟩, by decide +kernel, .inl rfl⟩)).mpr ⟨htwo (by decide +kernel) (by decide +kernel),
    fun b f hf => ?_, fun t => ?_⟩
  · have hwhole : ∀ b ∈ [2, 1], (sealedX.blocks b).idx.all (fun f => !f.torn) = true :=
      htwo (by decide +kernel) (by decide +kernel)
    have hb := hwhole b ((hdir.2 b).mpr (by simp [hf]))
    simpa [hf] using hb
  · have hlen : ∀ b, (sealedX.view.entriesOf t b).length ≤ ((sealedX.view.idx b).getD []).length :=
      fun b => List.length_filter_le _ _
    have h1 : ((sealedX.view.idx 1).getD []).length = 1 := by decide +kernel
    have h2 : ((sealedX.view.idx 2).getD []).length = 0 := by decide +kernel
    have hlen1 := hlen 1
    have hlen2 := hlen 2
    simp only [View.visible, List.flatMap_cons, List.flatMap_nil, List.length_append,
      List.length_map, List.length_nil]
    omega

end Scrap
