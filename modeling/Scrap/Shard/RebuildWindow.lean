/-
# A rebuild while the log goes on

The bulk phase reads the Blocks one by one without the Shard's lock, so entries are applied, and
Blocks go into quarantine and come back, between two reads. The second phase holds the lock and
adds the records behind the counts of the bulk phase.

`Ledger.Scan` is the invariant of such a window, on the ledger alone: what has been counted is an
initial part of each Block, the Blocks to come are above those counted, and a record that is left to
the second phase belongs behind every record of its Transaction that is counted before it. The
Projection that is replaced lists them in commit order, so the two agree as long as a Transaction
commits in ascending order of its Blocks and every record can be read.
-/
import Scrap.Shard.RebuildRecords

namespace Scrap

open Block Fallible Function Scrap.Group

/-! ## Counting a ledger that grows -/

/-- Of each Block of `L` the first `counted` records are counted, in the order of `R`; `todo` is
still to be read. -/
structure Ledger.Scan (L R : Ledger) (todo : List UInt64) (counted : UInt64 → Nat) : Prop where
  sorted : ∀ t, (L.blocks t).Pairwise (· ≤ ·)
  ascending : todo.Pairwise (· < ·)
  unread : ∀ b ∈ todo, counted b = 0
  counted_le : ∀ b, counted b ≤ (L.inBlock b).length
  read : ∀ b, R.inBlock b = (L.inBlock b).take (counted b)
  ordered : ∀ t, (R.blocks t).Pairwise (· ≤ ·)
  below : ∀ d ∈ R, ∀ b ∈ todo, d.1 ≤ b
  behind : ∀ c, c ∉ todo → ∀ e ∈ (L.inBlock c).drop (counted c), ∀ d ∈ L,
    d.2.transactionID = e.transactionID → d ∈ R ∨ d.1 ∈ todo → d.1 ≤ c

section Scan

variable {L R : Ledger} {todo : List UInt64} {counted : UInt64 → Nat} {b : UInt64}

namespace Ledger

theorem blocks_append (L M : Ledger) (t : String) :
    blocks (L ++ M) t = L.blocks t ++ M.blocks t := by
  simp [blocks, ofTx]

theorem mem_blocks {t : String} :
    b ∈ L.blocks t ↔ ∃ d ∈ L, d.2.transactionID = t ∧ d.1 = b := by
  simp only [blocks, List.mem_map, mem_ofTx, and_assoc]

theorem record_congr {M : Ledger} {t : String} (h : L.ofTx t = M.ofTx t) :
    L.record t = M.record t := by
  simp only [record, blocks, h]

theorem Scan.mem (h : Scan L R todo counted) {d : ResolvedDocument} (hd : d ∈ R) :
    d ∈ L := by
  have hin : d.2 ∈ R.inBlock d.1 := mem_inBlock.mpr hd
  rw [h.read] at hin
  exact mem_inBlock.mp (List.mem_of_mem_take hin)

theorem Scan.start (hsorted : ∀ t, (L.blocks t).Pairwise (· ≤ ·))
    (htodo : todo.Pairwise (· < ·)) (hall : ∀ c, c ∉ todo → L.inBlock c = []) :
    Scan L [] todo fun _ => 0 := by
  refine ⟨hsorted, htodo, fun _ _ => rfl, fun _ => Nat.zero_le _, fun _ => rfl, fun _ => .nil,
    by simp, fun c hc e he => ?_⟩
  rw [hall c hc] at he
  simp at he

theorem Scan.concat (h : Scan L R todo counted) {e : IndexEntry}
    (hlast : ∀ d ∈ L, d.2.transactionID = e.transactionID → d.1 ≤ b)
    (htodo : b ∈ todo → ∀ c, c ∉ todo → ∀ e' ∈ (L.inBlock c).drop (counted c),
      e'.transactionID ≠ e.transactionID) :
    Scan (L ++ [(b, e)]) R todo counted := by
  have hgrow : ∀ c, ∃ es, inBlock (L ++ [(b, e)]) c = L.inBlock c ++ es ∧
      ∀ e' ∈ es, c = b ∧ e' = e := by
    intro c
    by_cases hc : b = c
    · subst hc
      exact ⟨[e], L.inBlock_concat_self b e, by simp⟩
    · exact ⟨[], by rw [L.inBlock_concat_of_ne e hc, List.append_nil], by simp⟩
  refine ⟨fun t => ?_, h.ascending, h.unread, fun c => ?_, fun c => ?_, h.ordered, h.below, ?_⟩
  · rw [blocks_append]
    refine List.pairwise_append.mpr ⟨h.sorted t, ?_, fun c hc c' hc' => ?_⟩
    · exact (List.pairwise_singleton (· ≤ ·) b).sublist
        ((List.filter_sublist).map Prod.fst)
    obtain ⟨d, hd, ht, rfl⟩ := mem_blocks.mp hc
    obtain ⟨d', hd', ht', rfl⟩ := mem_blocks.mp hc'
    obtain rfl := List.mem_singleton.mp hd'
    exact hlast d hd (ht.trans ht'.symm)
  · obtain ⟨es, hes, -⟩ := hgrow c
    rw [hes, List.length_append]
    exact Nat.le_trans (h.counted_le c) (Nat.le_add_right _ _)
  · obtain ⟨es, hes, -⟩ := hgrow c
    rw [h.read, hes, List.take_append_of_le_length (h.counted_le c)]
  · intro c hc e' he' d hd ht hwhere
    obtain ⟨es, hes, hnew⟩ := hgrow c
    rw [hes, List.drop_append_of_le_length (h.counted_le c)] at he'
    rcases List.mem_append.mp he' with hold | he'
    · rcases List.mem_append.mp hd with hd | hd
      · exact h.behind c hc e' hold d hd ht hwhere
      obtain rfl := List.mem_singleton.mp hd
      rcases hwhere with hR | hb
      · exact h.behind c hc e' hold _ (h.mem hR) ht (.inl hR)
      · exact absurd ht.symm (htodo hb c hc e' hold)
    · obtain ⟨rfl, rfl⟩ := hnew e' he'
      rcases List.mem_append.mp hd with hd | hd
      · exact hlast d hd ht
      · obtain rfl := List.mem_singleton.mp hd
        exact UInt64.le_refl _

theorem Scan.next (h : Scan L R (b :: todo) counted) :
    Scan L (R ++ (L.inBlock b).map (Prod.mk b)) todo
      (update counted b (L.inBlock b).length) := by
  obtain ⟨hfirst, hrest⟩ := List.pairwise_cons.mp h.ascending
  have hnot : b ∉ todo := fun hb => absurd (hfirst b hb) (UInt64.lt_irrefl b)
  have hnone : R.inBlock b = [] := by rw [h.read, h.unread b List.mem_cons_self, List.take_zero]
  have hfst : ∀ d ∈ (L.inBlock b).map (Prod.mk b), d ∈ L ∧ d.1 = b := by
    intro d hd
    obtain ⟨e, he, rfl⟩ := List.mem_map.mp hd
    exact ⟨mem_inBlock.mp he, rfl⟩
  refine ⟨h.sorted, hrest, fun c hc => ?_, fun c => ?_, fun c => ?_, fun t => ?_, ?_, ?_⟩
  · have hne : c ≠ b := fun heq => hnot (heq ▸ hc)
    rw [update_of_ne hne]
    exact h.unread c (List.mem_cons_of_mem b hc)
  · by_cases hc : c = b
    · subst hc
      simp
    · rw [update_of_ne hc]
      exact h.counted_le c
  · rw [inBlock_append, inBlock_map]
    by_cases hc : c = b
    · subst hc
      simp [hnone]
    · rw [if_neg (Ne.symm hc), update_of_ne hc, List.append_nil]
      exact h.read c
  · rw [blocks_append]
    have hblocks : ∀ c ∈ blocks ((L.inBlock b).map (Prod.mk b)) t, c = b := by
      intro c hc
      obtain ⟨d, hd, -, rfl⟩ := mem_blocks.mp hc
      exact (hfst d hd).2
    refine List.pairwise_append.mpr ⟨h.ordered t, ?_, fun c hc c' hc' => ?_⟩
    · refine List.pairwise_of_forall_mem_list fun c hc c' hc' => ?_
      rw [hblocks c hc, hblocks c' hc']
      exact UInt64.le_refl b
    · obtain ⟨d, hd, -, rfl⟩ := mem_blocks.mp hc
      rw [hblocks c' hc']
      exact h.below d hd b List.mem_cons_self
  · intro d hd c hc
    rcases List.mem_append.mp hd with hd | hd
    · exact h.below d hd c (List.mem_cons_of_mem b hc)
    · rw [(hfst d hd).2]
      exact UInt64.le_of_lt (hfirst c hc)
  · intro c hc e he d hd ht hwhere
    by_cases hcb : c = b
    · subst hcb
      simp at he
    rw [update_of_ne hcb] at he
    have hout : c ∉ b :: todo := by
      rw [List.mem_cons, not_or]
      exact ⟨hcb, hc⟩
    refine h.behind c hout e he d hd ht ?_
    rcases hwhere with hd | hd
    · rcases List.mem_append.mp hd with hd | hd
      · exact .inl hd
      · exact .inr (by rw [(hfst d hd).2]; exact List.mem_cons_self)
    · exact .inr (List.mem_cons_of_mem b hd)

/-- With the rest of each Block, a Transaction's records are those of the ledger, in order. -/
theorem Scan.finish (h : Scan L R [] counted) {ids : List UInt64}
    (hids : ids.Pairwise (· < ·)) (hall : ∀ b, b ∉ ids → (L.inBlock b).drop (counted b) = [])
    (t : String) :
    ofTx (R ++ ids.flatMap fun b => ((L.inBlock b).drop (counted b)).map (Prod.mk b)) t =
      L.ofTx t := by
  have hnodup : ids.Nodup := hids.imp fun hlt heq => absurd (heq ▸ hlt) (UInt64.lt_irrefl _)
  have hblock : ∀ b, inBlock
      (R ++ ids.flatMap fun b => ((L.inBlock b).drop (counted b)).map (Prod.mk b)) b =
        L.inBlock b := by
    intro b
    rw [inBlock_append, h.read, inBlock_flatMap (fun b => (L.inBlock b).drop (counted b)) hnodup]
    by_cases hb : b ∈ ids
    · rw [if_pos hb, List.take_append_drop]
    · rw [if_neg hb, ← hall b hb, List.take_append_drop]
  refine eq_of_sorted_of_filter_eq (fun _ _ h h' => UInt64.le_antisymm h h') ?_
    (h.sorted t) fun b => ?_
  · show (blocks _ t).Pairwise _
    rw [blocks_append]
    refine List.pairwise_append.mpr ⟨h.ordered t, ?_, fun c hc c' hc' => ?_⟩
    · exact (sorted_flatMap (fun b => (L.inBlock b).drop (counted b))
        (hids.imp UInt64.le_of_lt)).sublist ((List.filter_sublist).map Prod.fst)
    obtain ⟨d, hd, ht, rfl⟩ := mem_blocks.mp hc
    obtain ⟨d', hd', ht', rfl⟩ := mem_blocks.mp hc'
    obtain ⟨c, -, hd'⟩ := List.mem_flatMap.mp hd'
    obtain ⟨e, he, rfl⟩ := List.mem_map.mp hd'
    exact h.behind c (by simp) e he d (h.mem hd) (ht.trans ht'.symm) (.inl hd)
  · rw [← map_inBlock_ofTx, ← map_inBlock_ofTx, hblock]

end Ledger

end Scan

/-! ## The window -/

structure Rebuilding where
  shard : Shard
  todo : List UInt64
  bulk : Bulk

inductive RebuildStep where
  | event (ev : MemberEvent)
  /-- the next round of the loop of `rebuildProjectionInto` -/
  | read

inductive RebuildingErr where
  | event (err : ShardErr)
  | read (err : RebuildErr)
  deriving DecidableEq

namespace Rebuilding

def start (s : Shard) (dir : List UInt64) : Rebuilding := ⟨s, listBlockIndexIDs dir, .start⟩

end Rebuilding

def RebuildStep.run : RebuildStep → EStateM RebuildingErr Rebuilding Unit
  | .event ev => fun x =>
    match ev.run.run x.shard with
    | .ok () s => .ok () { x with shard := s }
    | .error err s => .error (.event err) { x with shard := s }
  | .read => fun x =>
    match x.todo with
    | [] => .ok () x
    | b :: todo =>
      match x.bulk.readBlock x.shard b with
      | .error err => .error (.read err) x
      | .ok bulk => .ok () { x with todo := todo, bulk := bulk }

/-- What the window needs of its steps. A new Document goes to no Block below one of its
Transaction, and to one still to be read only if no record of the Transaction is left to the second
phase elsewhere. A Block that is read goes into quarantine only with all its records counted. -/
def RebuildStep.InOrder (x : Rebuilding) : RebuildStep → Prop
  | .event (.entry st) =>
    MemberEvent.Allowed x.shard (.entry st) ∧ ((st.env x.shard).view.Writes st.doc →
      (∀ r, (st.env x.shard).view.tx st.doc.transactionID = some r →
        ∀ c ∈ r.blockIDs, c ≤ st.doc.blockID) ∧
      (st.doc.blockID ∈ x.todo → ∀ c, c ∉ x.todo →
        ∀ d ∈ (st.env x.shard).tailIn x.bulk.seenEntries c,
          d.2.transactionID ≠ st.doc.transactionID))
  | .event (.quarantine b) =>
    MemberEvent.Allowed x.shard (.quarantine b) ∧
      (b ∉ x.todo → x.shard.tailIn x.bulk.seenEntries b = [])
  | .event (.unquarantine _) => True
  | .read => True

def Bulk.counted (bulk : Bulk) (b : UInt64) : Nat := (bulk.seenEntries b).getD 0

structure Rebuilding.Inv (docs : List CommitDocument) (R : Ledger) (x : Rebuilding) : Prop where
  tracks : x.shard.TracksApart docs
  projection : x.bulk.projection.Rep R
  scan : Ledger.Scan (Ledger.ofDocs docs) R x.todo x.bulk.counted
  hidden : ∀ b, x.shard.quarantined b = true → b ∉ x.todo →
    ((Ledger.ofDocs docs).inBlock b).drop (x.bulk.counted b) = []

variable {doc : CommitDocument} {dir : List UInt64} {b : UInt64}

section Window

variable {docs : List CommitDocument} {R : Ledger} {s s' : Shard} {x x' : Rebuilding} {b : UInt64}

theorem Shard.TracksApart.idx_visible (h : s.TracksApart docs) (hb : s.quarantined b = false) :
    (s.view.idx b).getD [] = (Ledger.ofDocs docs).inBlock b := by
  rw [← h.rep.idx b, Shard.putBack_view_idx h.apart, hb]
  rfl

theorem Shard.TracksApart.idx_hidden (h : s.TracksApart docs) (hb : s.quarantined b = true) :
    (s.view.idx b).getD [] = [] ∧
      (((s.blocks b).idxQuarantine.map (·.entries)).getD []) = (Ledger.ofDocs docs).inBlock b := by
  refine ⟨?_, by rw [← h.rep.idx b, Shard.putBack_view_idx h.apart, hb]; rfl⟩
  rcases h.apart b with ⟨hnone, -⟩ | ⟨-, -, hidx⟩
  · simp [Shard.quarantined, hnone] at hb
  · simp [Shard.view, hidx]

theorem Shard.Readable.not_quarantined (h : s.TracksApart docs) (hr : s.Readable b) :
    s.quarantined b = false := by
  rcases h.apart b with ⟨hnone, -⟩ | ⟨-, hblk, -⟩
  · simp [Shard.quarantined, hnone]
  · have hsome := hr.blk
    rw [hblk] at hsome
    cases hsome

theorem Shard.TracksApart.tailIn_eq (h : s.TracksApart docs) (bulk : Bulk)
    (hb : s.quarantined b = false) :
    s.tailIn bulk.seenEntries b =
      (((Ledger.ofDocs docs).inBlock b).drop (bulk.counted b)).map (Prod.mk b) := by
  rw [Shard.tailIn, h.idx_visible hb]
  rfl

/-- The record of each Transaction lists its Blocks in ascending order. -/
def Shard.Ascending (s : Shard) : Prop :=
  ∀ t r, s.view.tx t = some r → r.blockIDs.Pairwise (· ≤ ·)

theorem Shard.TracksApart.sorted (h : s.TracksApart docs) (hasc : s.Ascending) (t : String) :
    ((Ledger.ofDocs docs).blocks t).Pairwise (· ≤ ·) := by
  cases hr : s.view.tx t with
  | none =>
    have hnil := h.rep.tx_eq_none.mp hr
    simp [Ledger.blocks, hnil]
  | some r =>
    obtain ⟨-, hids, -, -⟩ := h.rep.tx_eq_some hr
    exact sorted_of_runs UInt64.le_refl (hids ▸ hasc t r hr)

theorem strict_listBlockIndexIDs (h : dir.Nodup) :
    (listBlockIndexIDs dir).Pairwise (· < ·) :=
  ((pairwise_listBlockIndexIDs dir).and (nodup_listBlockIndexIDs.mpr h)).imp
    fun ⟨hle, hne⟩ => UInt64.lt_of_le_of_ne hle hne

theorem Shard.IndexDir.view_idx (h : s.IndexDir dir) (hb : b ∉ listBlockIndexIDs dir) :
    (s.view.idx b).getD [] = [] := by
  have hnone : (s.blocks b).idx = none := by
    simpa [Option.isSome_iff_ne_none] using mt (h.2 b).mpr (mt mem_listBlockIndexIDs.mpr hb)
  simp [Shard.view, hnone]

theorem Rebuilding.Inv.start (h : s.TracksApart docs) (hvisible : ∀ d, ¬ s.InQuarantine d)
    (hasc : s.Ascending) (hdir : s.IndexDir dir) :
    (Rebuilding.start s dir).Inv docs [] := by
  have hhidden : ∀ b, s.quarantined b = true → (Ledger.ofDocs docs).inBlock b = [] := by
    intro b hb
    rw [List.eq_nil_iff_forall_not_mem]
    intro e he
    exact hvisible (b, e) (h.inQuarantine (Ledger.mem_inBlock.mp he) hb)
  refine ⟨h, Index.rep_empty, Ledger.Scan.start (h.sorted hasc)
    (strict_listBlockIndexIDs hdir.1) fun c hc => ?_,
    fun b hb _ => ?_⟩
  · cases hq : s.quarantined c with
    | true => exact hhidden c hq
    | false => rw [← h.idx_visible hq, hdir.view_idx hc]
  · rw [hhidden b hb, List.drop_nil]

theorem Ledger.ofDocs_concat_cases (docs : List CommitDocument) (doc : CommitDocument) :
    Ledger.ofDocs (docs ++ [doc]) = Ledger.ofDocs docs ∨
      ¬ (Ledger.ofDocs docs).Has doc.transactionID doc.documentName ∧
        ∃ e : IndexEntry, e.transactionID = doc.transactionID ∧
          Ledger.ofDocs (docs ++ [doc]) = Ledger.ofDocs docs ++ [(doc.blockID, e)] := by
  rw [Ledger.ofDocs_concat, Ledger.commit]
  split
  · exact .inl rfl
  rename_i hnew
  cases hentry : doc.indexEntry? with
  | none => exact .inl (by simp [CommitDocument.resolved?, hentry])
  | some e =>
    exact .inr ⟨hnew, e, (CommitDocument.indexEntry?_some hentry).1,
      by simp [CommitDocument.resolved?, hentry]⟩

theorem Shard.TracksApart.writes_new (h : s.TracksApart docs) (htells : s.Tells doc)
    (hnew : ¬ (Ledger.ofDocs docs).Has doc.transactionID doc.documentName) :
    s.view.Writes doc := by
  have hact := (Shard.hides_putBack h.apart).action_eq h.rep h.distinct (h.never _)
    (fun d => h.inQuarantine) htells
  rw [h.rep.action_new hnew] at hact
  unfold View.Writes
  rw [hact]
  exact ⟨_, _, rfl⟩

theorem applyCommitDocument_quarantine (hg : s.Good) {i : UInt64}
    (hrun : (applyCommitDocument doc i).run s = .ok () s') (b : UInt64) :
    s'.quarantined b = s.quarantined b ∧
      (s'.blocks b).idxQuarantine = (s.blocks b).idxQuarantine := by
  obtain ⟨-, -, hrest⟩ := applyCommitDocument_ok hg hrun
  exact ⟨by rw [Shard.quarantined, Shard.quarantined, hrest.blkQuarantine], hrest.idxQuarantine b⟩

theorem Rebuilding.Inv.apply (h : x.Inv docs R) {i : UInt64} (htells : x.shard.Tells doc)
    (hlast : x.shard.view.Writes doc → ∀ r, x.shard.view.tx doc.transactionID = some r →
      ∀ c ∈ r.blockIDs, c ≤ doc.blockID)
    (htail : x.shard.view.Writes doc → doc.blockID ∈ x.todo → ∀ c, c ∉ x.todo →
      ∀ d ∈ x.shard.tailIn x.bulk.seenEntries c, d.2.transactionID ≠ doc.transactionID)
    (hrun : (applyCommitDocument doc i).run x.shard = .ok () s') :
    Rebuilding.Inv (docs ++ [doc]) R { x with shard := s' } := by
  have hend := h.tracks.apply htells hrun
  have hq := applyCommitDocument_quarantine h.tracks.good hrun
  -- a Block in quarantine has the same records as before
  have hsame : ∀ b, x.shard.quarantined b = true →
      (Ledger.ofDocs (docs ++ [doc])).inBlock b = (Ledger.ofDocs docs).inBlock b := by
    intro b hb
    rw [← (h.tracks.idx_hidden hb).2, ← (hend.idx_hidden ((hq b).1.trans hb)).2, (hq b).2]
  refine ⟨hend, h.projection, ?_, fun b hb hnot => ?_⟩
  · rcases Ledger.ofDocs_concat_cases docs doc with hold | ⟨hnew, e, ht, hconcat⟩
    · rw [hold]
      exact h.scan
    have hwrites := h.tracks.writes_new htells hnew
    rw [hconcat]
    refine h.scan.concat (fun d hd htd => ?_) fun hb c hc e' he' hte => ?_
    · rw [ht] at htd
      cases hr : x.shard.view.tx doc.transactionID with
      | none =>
        have hnil := h.tracks.rep.tx_eq_none.mp hr
        have hmem := Ledger.mem_ofTx.mpr ⟨hd, htd⟩
        rw [hnil] at hmem
        cases hmem
      | some r =>
        obtain ⟨-, hids, -, -⟩ := h.tracks.rep.tx_eq_some hr
        refine hlast hwrites r hr d.1 ?_
        rw [hids]
        exact Ledger.covered _ d (Ledger.mem_ofTx.mpr ⟨hd, htd⟩)
    · cases hcq : x.shard.quarantined c with
      | true =>
        rw [h.hidden c hcq hc] at he'
        cases he'
      | false =>
        refine htail hwrites hb c hc (c, e') ?_ (hte.trans ht)
        rw [h.tracks.tailIn_eq x.bulk hcq]
        exact List.mem_map_of_mem he'
  · have hb' := (hq b).1.symm.trans hb
    show ((Ledger.ofDocs (docs ++ [doc])).inBlock b).drop _ = []
    rw [hsame b hb']
    exact h.hidden b hb' hnot

theorem Rebuilding.Inv.env (h : x.Inv docs R) (henv : x.shard.EnvApart s') :
    Rebuilding.Inv docs R { x with shard := s' } := by
  refine ⟨h.tracks.env henv, h.projection, h.scan, fun b hb => h.hidden b ?_⟩
  rw [← hb, Shard.quarantined, Shard.quarantined, (henv.2 b).2.1]

theorem quarantine_quarantined (hrun : (quarantine b).run s = .ok () s') (c : UInt64)
    (hc : s'.quarantined c = true) : c = b ∨ s.quarantined c = true := by
  obtain ⟨files, -, rfl⟩ := quarantine_ok.mp hrun
  by_cases hcb : c = b
  · exact .inl hcb
  · refine .inr ?_
    simpa [Shard.quarantined, Shard.setBlock, hcb] using hc

theorem unquarantine_quarantined (hrun : (unquarantine b).run s = .ok () s') (c : UInt64)
    (hc : s'.quarantined c = true) : s.quarantined c = true := by
  obtain ⟨files, hq, rfl⟩ := unquarantine_ok.mp hrun
  by_cases hcb : c = b
  · subst hcb
    rw [Shard.quarantined]
    cases hblkq : (s.blocks c).blkQuarantine with
    | none => simp [BlockFiles.unquarantine, hblkq] at hq
    | some blk => rfl
  · simpa [Shard.quarantined, Shard.setBlock, hcb] using hc

theorem Rebuilding.Inv.quarantine (h : x.Inv docs R)
    (hst : RebuildStep.InOrder x (.event (.quarantine b)))
    (hrun : (Scrap.quarantine b).run x.shard = .ok () s') :
    Rebuilding.Inv docs R { x with shard := s' } := by
  refine ⟨h.tracks.quarantine hst.1 hrun, h.projection, h.scan, fun c hc hnot => ?_⟩
  have hcases : c = b ∧ x.shard.quarantined c = false ∨ x.shard.quarantined c = true := by
    cases hq : x.shard.quarantined c with
    | true => exact .inr rfl
    | false =>
      refine .inl ⟨(quarantine_quarantined hrun c hc).resolve_right ?_, rfl⟩
      simp [hq]
  rcases hcases with ⟨rfl, hvisible⟩ | hq
  · have hnone := hst.2 hnot
    rw [h.tracks.tailIn_eq x.bulk hvisible] at hnone
    exact List.map_eq_nil_iff.mp hnone
  · exact h.hidden c hq hnot

theorem Rebuilding.Inv.read (h : x.Inv docs R) {todo : List UInt64} (htodo : x.todo = b :: todo)
    {bulk : Bulk} (hread : x.bulk.readBlock x.shard b = .ok bulk) :
    Rebuilding.Inv docs (R ++ x.shard.recordsIn b) { x with todo := todo, bulk := bulk } := by
  obtain ⟨hr, hrep, hseen⟩ := Bulk.readBlock_ok h.projection hread
  have hvisible := hr.not_quarantined h.tracks
  have hidx := h.tracks.idx_visible hvisible
  have hcounted : bulk.counted =
      update x.bulk.counted b ((Ledger.ofDocs docs).inBlock b).length := by
    funext c
    by_cases hc : c = b <;> simp [Bulk.counted, hseen, hc, hidx]
  have hscan := h.scan
  rw [htodo] at hscan
  refine ⟨h.tracks, hrep, ?_, fun c hc hnot => ?_⟩
  · rw [Shard.recordsIn, hidx]
    show Ledger.Scan _ _ todo bulk.counted
    rw [hcounted]
    exact hscan.next
  · have hne : c ≠ b := fun heq => by
      rw [heq] at hc
      exact absurd (hc.symm.trans hvisible) (by simp)
    show _ = []
    rw [hcounted, update_of_ne hne]
    refine h.hidden c hc ?_
    rw [htodo, List.mem_cons, not_or]
    exact ⟨hne, hnot⟩

theorem RebuildStep.run_event_ok {ev : MemberEvent} :
    (RebuildStep.run (.event ev)).run x = .ok () x' ↔
      ∃ s', ev.run.run x.shard = .ok () s' ∧ { x with shard := s' } = x' := by
  show (match ev.run.run x.shard with
    | .ok () s => .ok () { x with shard := s }
    | .error err s => .error (.event err) { x with shard := s } :
      EStateM.Result RebuildingErr Rebuilding Unit) = .ok () x' ↔ _
  cases ev.run.run x.shard with
  | ok u s => simp
  | error err s => simp

theorem RebuildStep.run_read_ok :
    (RebuildStep.run .read).run x = .ok () x' ↔ (x.todo = [] ∧ x = x') ∨
      ∃ b todo bulk, x.todo = b :: todo ∧ x.bulk.readBlock x.shard b = .ok bulk ∧
        { x with todo := todo, bulk := bulk } = x' := by
  show (match x.todo with
    | [] => .ok () x
    | b :: todo =>
        match x.bulk.readBlock x.shard b with
        | .error err => .error (.read err) x
        | .ok bulk => .ok () { x with todo := todo, bulk := bulk } :
      EStateM.Result RebuildingErr Rebuilding Unit) = .ok () x' ↔ _
  cases htodo : x.todo with
  | nil => simp
  | cons b todo => ?_
  cases hread : x.bulk.readBlock x.shard b with
  | error err => simp [hread]
  | ok bulk => simp [hread]

theorem Rebuilding.Inv.step (h : x.Inv docs R) (st : RebuildStep) (hst : st.InOrder x)
    (hrun : st.run.run x = .ok () x') : ∃ docs' R', x'.Inv docs' R' := by
  cases st with
  | event ev =>
    obtain ⟨s', hev, rfl⟩ := RebuildStep.run_event_ok.mp hrun
    cases ev with
    | entry st =>
      obtain ⟨⟨henv, htells⟩, horder⟩ := hst
      exact ⟨_, _, (h.env henv).apply htells (fun hw => (horder hw).1)
        (fun hw => (horder hw).2) hev⟩
    | quarantine b => exact ⟨_, _, h.quarantine hst hev⟩
    | unquarantine b =>
      exact ⟨_, _, h.tracks.unquarantine hev, h.projection, h.scan,
        fun c hc => h.hidden c (unquarantine_quarantined hev c hc)⟩
  | read =>
    rcases RebuildStep.run_read_ok.mp hrun with ⟨-, rfl⟩ | ⟨b, todo, bulk, htodo, hread, rfl⟩
    · exact ⟨docs, R, h⟩
    · exact ⟨_, _, h.read htodo hread⟩

theorem Rebuilding.Inv.run {steps : List RebuildStep} (h : ∃ docs R, x.Inv docs R)
    (hmeets : Meets RebuildStep.run RebuildStep.InOrder x steps)
    (hrun : (runAll RebuildStep.run steps).run x = .ok () x') : ∃ docs R, x'.Inv docs R :=
  Meets.invariant (P := fun y => ∃ docs R, Rebuilding.Inv docs R y)
    (fun st _ _ ⟨_, _, hy⟩ hst hstep => hy.step st hst hstep) h hmeets hrun

theorem Rebuilding.Inv.ofTx_finalize (h : x.Inv docs R) (hdone : x.todo = [])
    (hdir : x.shard.IndexDir dir) (t : String) :
    Ledger.ofTx (R ++ (listBlockIndexIDs dir).flatMap (x.shard.tailIn x.bulk.seenEntries)) t =
      (Ledger.ofDocs docs).ofTx t := by
  have hscan := h.scan
  rw [hdone] at hscan
  have htails : (listBlockIndexIDs dir).flatMap (x.shard.tailIn x.bulk.seenEntries) =
      (listBlockIndexIDs dir).flatMap fun b =>
        (((Ledger.ofDocs docs).inBlock b).drop (x.bulk.counted b)).map (Prod.mk b) := by
    refine List.flatMap_congr fun b hb => h.tracks.tailIn_eq x.bulk ?_
    have hidx := (hdir.2 b).mp (mem_listBlockIndexIDs.mp hb)
    rcases h.tracks.apart b with ⟨hnone, -⟩ | ⟨-, -, hnone⟩
    · simp [Shard.quarantined, hnone]
    · rw [hnone] at hidx
      cases hidx
  rw [htails]
  refine hscan.finish (strict_listBlockIndexIDs hdir.1) (fun b hb => ?_) t
  cases hq : x.shard.quarantined b with
  | true => exact h.hidden b hq (by simp [hdone])
  | false => rw [← h.tracks.idx_visible hq, hdir.view_idx hb, List.drop_nil]

theorem Rebuilding.Inv.finalize (h : x.Inv docs R) (hdone : x.todo = [])
    (hdir : x.shard.IndexDir dir) {fsState : UInt64 → RebuildBlockFS} {rebuilt : Index}
    (hfin : x.shard.finalizeRebuild fsState x.bulk dir = .ok rebuilt) (t : String) :
    rebuilt.get t = x.shard.idx.get t := by
  unfold Shard.finalizeRebuild at hfin
  split at hfin
  · cases hfin
  rename_i hdelta
  have hrep := (Shard.applyBlockIndexDelta_ok h.projection hdelta).of_txs
    (Shard.rebuildUploadOutbox_txs hfin)
  refine hrep.wf.get_congr h.tracks.good.wf ?_
  calc (rebuilt.get t).toOption = Ledger.record _ t := hrep.rep.tx t
    _ = (Ledger.ofDocs docs).record t := Ledger.record_congr (h.ofTx_finalize hdone hdir t)
    _ = (x.shard.idx.get t).toOption := (h.tracks.rep.tx t).symm

end Window

/-- A rebuild of a Shard whose Projection is right, whose records are all in sight and whose
Transactions list their Blocks in ascending order: if the steps of the window keep the order, the
new Projection has the old one's records. -/
theorem rebuild_window_keeps_records {docs : List CommitDocument} {s : Shard}
    (h : s.TracksApart docs) (hvisible : ∀ d, ¬ s.InQuarantine d) (hasc : s.Ascending)
    {dir : List UInt64} (hdir : s.IndexDir dir) {steps : List RebuildStep} {x : Rebuilding}
    (hmeets : Meets RebuildStep.run RebuildStep.InOrder (.start s dir) steps)
    (hrun : (runAll RebuildStep.run steps).run (.start s dir) = .ok () x) (hdone : x.todo = [])
    {dir' : List UInt64} (hdir' : x.shard.IndexDir dir') {fsState : UInt64 → RebuildBlockFS}
    {rebuilt : Index} (hfin : x.shard.finalizeRebuild fsState x.bulk dir' = .ok rebuilt)
    (t : String) : rebuilt.get t = x.shard.idx.get t := by
  obtain ⟨docs', R, hinv⟩ :=
    Rebuilding.Inv.run ⟨docs, [], Rebuilding.Inv.start h hvisible hasc hdir⟩ hmeets hrun
  exact hinv.finalize hdone hdir' hfin t

/-! ## A Block in quarantine -/

theorem LogStep.idx_after {st : LogStep} {s : Shard} (hg : (st.env s).Good)
    (h : outcome st.run s = .ok ()) (hb : b ≠ st.doc.blockID) :
    (after st.run s).view.idx b = (st.env s).view.idx b := by
  obtain ⟨hview, -, -⟩ := applyCommitDocument_ok hg (outcome_ok_iff.mp h)
  obtain hsame | ⟨-, es, e, -, hidx⟩ := View.commit_idx hview
  · exact congrFun hsame b
  · exact (congrFun hidx b).trans (update_of_ne hb _ _)

theorem afterX_idx (hb : b ≠ 1) : afterX.view.idx b = none := by
  have hfresh : (Shard.fresh 1 false).blocks b = .absent := update_of_ne hb _ _
  have hsame : afterX.view.idx b = (Shard.fresh 1 false).view.idx b :=
    LogStep.idx_after (Shard.fresh_fresh 1 false).1 (by decide +kernel) hb
  rw [hsame]
  simp [Shard.view, hfresh, BlockFiles.absent]

theorem afterY_idx (h1 : b ≠ 1) (h2 : b ≠ 2) : afterY.view.idx b = none := by
  have hsame : afterY.view.idx b = afterX.openNewBlock.view.idx b :=
    LogStep.idx_after afterX_allowed.1.1.1 (by decide +kernel) h2
  have hnext : afterX.nextBlockID = 2 := by decide +kernel
  have hopen : afterX.openNewBlock.view.idx b = afterX.view.idx b := by
    simp [Shard.view, Shard.openNewBlock, update_of_ne (hnext ▸ h2)]
  rw [hsame, hopen, afterX_idx h1]

/-- `x` in Block `1`, which is in quarantine, and `y` in Block `2`. -/
def hiddenX : Shard := after (Scrap.quarantine 1) afterY

def scannedX : Rebuilding := after (RebuildStep.run .read) (.start hiddenX [2])

theorem afterY_quarantine : (Scrap.quarantine 1).run afterY = .ok () hiddenX :=
  outcome_ok_iff.mp (by decide +kernel)

theorem hiddenX_indexDir : hiddenX.IndexDir [2] := by
  refine Shard.indexDir_of_view (by decide) (fun b hb => ?_) fun b hb => ?_
  · obtain rfl := List.mem_singleton.mp hb
    decide +kernel
  by_cases h1 : b = 1
  · subst h1
    decide +kernel
  obtain ⟨files, -, hset⟩ := quarantine_ok.mp afterY_quarantine
  have hidx : hiddenX.view.idx b = afterY.view.idx b := by
    rw [← hset]
    simp [Shard.view, Shard.setBlock, h1]
  rw [hidx]
  exact afterY_idx h1 (by simpa using hb)

/-- The rebuild forgets `x`. -/
theorem quarantined_block_forgotten : ∃ rebuilt,
    (runAll MemberEvent.run (twoBlocks.map .entry ++ [.quarantine 1])).run (Shard.fresh 1 false) =
      .ok () hiddenX ∧
    hiddenX.TracksApart (twoBlocks.map (·.doc)) ∧ hiddenX.IndexDir [2] ∧
    (runAll RebuildStep.run [.read]).run (.start hiddenX [2]) = .ok () scannedX ∧
    scannedX.todo = [] ∧ scannedX.shard.IndexDir [2] ∧
    scannedX.shard.finalizeRebuild (hiddenX.snapshotBlockFS fun _ => 0) scannedX.bulk [2] =
      .ok rebuilt ∧
    scannedX.shard.idx.get "t" = .ok ⟨[1, 2], 2, false⟩ ∧
    rebuilt.get "t" = .ok ⟨[2], 1, false⟩ := by
  have hread : (RebuildStep.run .read).run (.start hiddenX [2]) = .ok () scannedX :=
    outcome_ok_iff.mp (by decide +kernel)
  have hrebuilt : ((hiddenX.finalizeRebuild (hiddenX.snapshotBlockFS fun _ => 0)
      scannedX.bulk [2]).toOption.map fun r => (r.get "t").toOption) =
        some (some ⟨[2], 1, false⟩) := by decide +kernel
  obtain ⟨rebuilt, hfin, hget⟩ := Option.map_eq_some_iff.mp hrebuilt
  have hold : (hiddenX.idx.get "t").toOption = some ⟨[1, 2], 2, false⟩ := by decide +kernel
  have htracks : hiddenX.TracksApart (twoBlocks.map (·.doc)) :=
    afterY_tracks.quarantine (by decide +kernel) afterY_quarantine
  have hrun : (runAll MemberEvent.run (twoBlocks.map .entry ++ [.quarantine 1])).run
      (Shard.fresh 1 false) = .ok () hiddenX :=
    runAll_cons_ok.mpr ⟨afterX, outcome_ok_iff.mp (by decide +kernel),
      runAll_cons_ok.mpr ⟨afterY, outcome_ok_iff.mp (by decide +kernel),
      runAll_cons_ok.mpr ⟨hiddenX, afterY_quarantine, rfl⟩⟩⟩
  exact ⟨rebuilt, hrun, htracks, hiddenX_indexDir, runAll_cons_ok.mpr ⟨scannedX, hread, rfl⟩,
    by decide +kernel, hiddenX_indexDir, toOption_eq_some.mp hfin, toOption_eq_some.mp hold,
    toOption_eq_some.mp hget⟩

/-! `y` is committed in the window, before the only Block of the listing is read. -/

def windowY : Rebuilding :=
  after (RebuildStep.run (.event (.entry ⟨Shard.openNewBlock, docOfT "y" 2 40, 2⟩)))
    (.start afterX [1])

def windowRead : Rebuilding := after (RebuildStep.run .read) windowY

theorem afterX_visible (d : ResolvedDocument) : ¬ afterX.InQuarantine d := by
  rintro ⟨f, hf, -⟩
  have hrun : (LogStep.run ⟨id, docOfT "x" 1 40, 1⟩).run (Shard.fresh 1 false) = .ok () afterX :=
    outcome_ok_iff.mp (by decide +kernel)
  rw [(applyCommitDocument_quarantine fresh_tracksApart.good hrun d.1).2, (fresh_whole d.1).2] at hf
  cases hf

theorem afterX_ascending : afterX.Ascending := by
  intro t r hr
  obtain ⟨-, hids, -, -⟩ := afterX_tracks.rep.tx_eq_some hr
  have hblocks : ((Ledger.ofDocs [docOfT "x" 1 40]).blocks t).Sublist [1] :=
    (List.filter_sublist).map Prod.fst
  rw [hids]
  exact (List.pairwise_singleton (· ≤ ·) 1).sublist
    ((List.destutter_sublist (· ≠ ·) _).trans hblocks)

theorem rebuild_window_keeps_records_open : ∃ rebuilt,
    windowRead.shard.finalizeRebuild (windowRead.shard.snapshotBlockFS fun _ => 0) windowRead.bulk
      [2, 1] = .ok rebuilt ∧
    windowRead.shard.idx.get "t" = .ok ⟨[1, 2], 2, false⟩ ∧
    rebuilt.get "t" = windowRead.shard.idx.get "t" := by
  have hcommit : (RebuildStep.run (.event (.entry ⟨Shard.openNewBlock, docOfT "y" 2 40, 2⟩))).run
      (.start afterX [1]) = .ok () windowY := outcome_ok_iff.mp (by decide +kernel)
  have hread : (RebuildStep.run .read).run windowY = .ok () windowRead :=
    outcome_ok_iff.mp (by decide +kernel)
  have hshard : windowRead.shard = afterY := by
    obtain ⟨s, hs, hwindow⟩ := RebuildStep.run_event_ok.mp hcommit
    have hY : windowY.shard = afterY := by
      rw [← hwindow]
      exact (after_of_ok hs).symm
    rw [← hY]
    rcases RebuildStep.run_read_ok.mp hread with ⟨-, hsame⟩ | ⟨b, todo, bulk, -, -, hsame⟩
    · rw [hsame]
    · rw [← hsame]
  have hrebuilt : (windowRead.shard.finalizeRebuild (windowRead.shard.snapshotBlockFS fun _ => 0)
      windowRead.bulk [2, 1]).toOption.isSome = true := by decide +kernel
  obtain ⟨rebuilt, hsome⟩ := Option.isSome_iff_exists.mp hrebuilt
  have hfin := toOption_eq_some.mp hsome
  have hold : (windowRead.shard.idx.get "t").toOption = some ⟨[1, 2], 2, false⟩ := by decide +kernel
  have hdir : afterX.IndexDir [1] := Shard.indexDir_of_view (by decide)
    (fun b hb => by obtain rfl := List.mem_singleton.mp hb; decide +kernel)
    fun b hb => afterX_idx (by simpa using hb)
  have hdir' : windowRead.shard.IndexDir [2, 1] := by
    rw [hshard]
    exact Shard.indexDir_two ⟨by decide +kernel, by decide +kernel⟩ fun b => afterY_idx
  have hmeets : Meets RebuildStep.run RebuildStep.InOrder (.start afterX [1])
      [.event (.entry ⟨Shard.openNewBlock, docOfT "y" 2 40, 2⟩), .read] := by
    refine ⟨⟨afterX_allowed, fun _ => ⟨fun r hr => ?_, fun hb => ?_⟩⟩, trivial, trivial⟩
    · cases hr
      intro c hc
      obtain rfl : c = 1 := List.mem_singleton.mp hc
      decide
    · exact absurd hb (by decide +kernel)
  have hrun : (runAll RebuildStep.run
      [.event (.entry ⟨Shard.openNewBlock, docOfT "y" 2 40, 2⟩), .read]).run (.start afterX [1]) =
        .ok () windowRead :=
    runAll_cons_ok.mpr ⟨windowY, hcommit, runAll_cons_ok.mpr ⟨windowRead, hread, rfl⟩⟩
  exact ⟨rebuilt, hfin, toOption_eq_some.mp hold,
    rebuild_window_keeps_records afterX_tracks afterX_visible afterX_ascending hdir hmeets hrun
      (by decide +kernel) hdir' hfin "t"⟩

end Scrap
