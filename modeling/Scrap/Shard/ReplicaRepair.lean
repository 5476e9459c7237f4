/-
# A Block copied from a peer while both apply the log

A follower that is short of a leader's offset replaces its open Block by a peer's copy of it
(`promoteReplicaRepair`), `.idx` included. The peer has applied another part of the log, so the
installed `.idx` may have fewer records than the follower has counted, or records it has yet to
apply.

`View.Between v L T` is what holds as long as the peers are not behind: the Transaction records are
those of the ledger `L` applied so far, and every `.idx` is between the records of `L` and those of
the whole log's ledger `T`. Applying the rest of the log then ends at `T`, except that the first
Document of a Transaction in the Block, which the installed `.idx` has already, is appended a second
time if the Block is open (`View.Between.commit`).
-/
import Scrap.Shard.BlockRepair
import Scrap.Shard.Replay

namespace Scrap

open Block Fallible Function Scrap.Group

/-! ## Between two ledgers -/

/-- The Transaction records are the ledger's, the `.idx` files between it and the whole log's. -/
structure View.Between (v : View) (L T : Ledger) : Prop extends View.TxRep v L where
  grows : L <+: T
  counted : ∀ b, L.inBlock b <+: (v.idx b).getD []
  known : ∀ b, (v.idx b).getD [] <+: T.inBlock b

variable {o : Bool} {L T : Ledger} {es : List IndexEntry} {b : UInt64} {v : View}

theorem View.Between.rep (h : v.Between L L) : v.Rep L :=
  ⟨h.toTxRep, fun b => (h.known b).eq_of_length_le (h.counted b).length_le⟩

theorem View.Rep.between (h : v.Rep L) (hgrow : L <+: T) :
    v.Between L T := by
  refine ⟨h.toTxRep, hgrow, fun b => (h.idx b).symm ▸ List.prefix_rfl, fun b => ?_⟩
  obtain ⟨M, rfl⟩ := hgrow
  rw [h.idx b, Ledger.inBlock_append]
  exact List.prefix_append _ _

theorem View.Between.env {s s' : Shard} (h : s.view.Between L T) (henv : s.Env s') :
    s'.view.Between L T := by
  obtain ⟨-, htx, hidx⟩ := henv
  exact ⟨⟨fun t => htx ▸ h.tx t, h.small⟩, h.grows, fun b => (hidx b).symm ▸ h.counted b,
    fun b => (hidx b).symm ▸ h.known b⟩

section Between

variable {v v' : View} {L T : Ledger} {t : String} {b : UInt64} {e : IndexEntry}
  {doc : CommitDocument}

/-- A Block with a record that is yet to be applied is the last one of its Transaction. -/
theorem View.Between.last (h : v.Between L T) (hnr : T.NeverReturns t)
    (hb : b ∈ runs (L.blocks t))
    (hmore : v.entriesOf t b ≠ findByTransaction (L.inBlock b) t) :
    (runs (L.blocks t)).getLast? = some b := by
  obtain ⟨M, rfl⟩ := h.grows
  obtain ⟨X, hX⟩ := h.counted b
  have hXM : X <+: Ledger.inBlock M b := by
    have hknown := h.known b
    rw [← hX, Ledger.inBlock_append] at hknown
    exact (List.prefix_append_right_inj _).mp hknown
  obtain ⟨x, hx⟩ : ∃ x, x ∈ findByTransaction X t := by
    refine List.exists_mem_of_ne_nil _ fun hnil => hmore ?_
    rw [View.entriesOf, ← hX, findByTransaction, List.filter_append]
    exact (congrArg _ hnil).trans (List.append_nil _)
  obtain ⟨hxX, hxt⟩ := List.mem_filter.mp hx
  have hxM : b ∈ Ledger.blocks M t :=
    List.mem_map.mpr ⟨(b, x), Ledger.mem_ofTx.mpr ⟨Ledger.mem_inBlock.mp (hXM.subset hxX),
      by simpa using hxt⟩, rfl⟩
  rw [getLast?_runs]
  refine getLast?_of_mem_of_nodup_runs (mem_runs.mp hb) _ hxM ?_
  have hblocks : Ledger.blocks (L ++ M) t = L.blocks t ++ Ledger.blocks M t := by
    simp [Ledger.blocks, Ledger.ofTx]
  exact hblocks ▸ hnr

/-- In sight are the Transaction's Documents, and behind them some that are yet to be applied. -/
theorem View.Between.visible (h : v.Between L T) (hnr : T.NeverReturns t) :
    ∃ B : Ledger, v.visible t (runs (L.blocks t)) =
      gather Prod.fst (L.ofTx t) (runs (L.blocks t)) ++ B := by
  have hnodup : (runs (L.blocks t)).Nodup := hnr.of_grows h.grows
  have hlast := fun c => h.last (b := c) hnr
  rw [← Ledger.flatMap_inBlock_eq_gather]
  generalize runs (L.blocks t) = ids at hnodup hlast ⊢
  rcases List.eq_nil_or_concat' ids with rfl | ⟨ids, c, rfl⟩
  · exact ⟨[], rfl⟩
  obtain ⟨X, hX⟩ := h.counted c
  refine ⟨(findByTransaction X t).map (Prod.mk c), ?_⟩
  rw [View.visible, List.flatMap_append, List.flatMap_append, List.append_assoc]
  congr 1
  · refine List.flatMap_congr fun d hd => ?_
    have hcd : c ≠ d := by
      rintro rfl
      exact (List.nodup_append.mp hnodup).2.2 c hd c (by simp) rfl
    by_contra hne
    have hd' := hlast d (by simp [hd]) fun heq => hne (by rw [heq])
    exact hcd (by simpa using hd')
  · simp [View.entriesOf, ← hX, findByTransaction]

theorem View.mem_named {x : ResolvedDocument} (hx : x ∈ v.named doc) :
    ∃ r, v.tx doc.transactionID = some r ∧ x ∈ v.visible doc.transactionID r.blockIDs ∧
      x.2.docName = doc.documentName := by
  unfold View.named at hx
  cases hr : v.tx doc.transactionID with
  | none => simp [hr] at hx
  | some r => ?_
  rw [hr] at hx
  obtain ⟨hmem, hname⟩ := List.mem_filter.mp hx
  exact ⟨r, rfl, hmem, by simpa using hname⟩

theorem View.Between.sees_iff (h : v.Between L T) (hnr : T.NeverReturns doc.transactionID) :
    v.Sees doc ↔ L.Has doc.transactionID doc.documentName := by
  have key : ∀ r, v.tx doc.transactionID = some r →
      ((v.visible doc.transactionID r.blockIDs).take r.docCount.toNat).Perm
        (L.ofTx doc.transactionID) := by
    intro r hr
    obtain ⟨-, hids, hcount, -⟩ := h.tx_eq_some hr
    obtain ⟨B, hB⟩ := h.visible hnr
    have hperm := gather_perm (Ledger.covered _) (hnr.of_grows h.grows)
    rw [hids, hB, List.take_left' (hperm.length_eq.trans hcount.symm)]
    exact hperm
  constructor
  · rintro ⟨r, hr, d, hd, hname⟩
    obtain ⟨hdL, hdt⟩ := Ledger.mem_ofTx.mp ((key r hr).mem_iff.mp hd)
    exact ⟨d, hdL, hdt, hname⟩
  · rintro ⟨d, hd, ht, hname⟩
    have hmem : d ∈ L.ofTx doc.transactionID := Ledger.mem_ofTx.mpr ⟨hd, ht⟩
    obtain ⟨r, hr⟩ := Option.ne_none_iff_exists'.mp
      (mt h.tx_eq_none.mp (List.ne_nil_of_mem hmem))
    exact ⟨r, hr, d, (key r hr).mem_iff.mpr hmem, hname⟩

theorem View.Between.inSight (h : v.Between L T) (hnr : T.NeverReturns t) : v.InSight t := by
  intro r hr
  obtain ⟨-, hids, hcount, -⟩ := h.tx_eq_some hr
  obtain ⟨B, hB⟩ := h.visible hnr
  rw [hids, hB, hcount, List.length_append]
  exact (length_le_gather (Ledger.covered t)).trans (Nat.le_add_right _ _)

theorem View.Between.commit_again (h : v.Between L T) (hnr : T.NeverReturns doc.transactionID)
    (hhas : L.Has doc.transactionID doc.documentName) (hcommit : v.commit o doc = some v') :
    v' = v := by
  have hdone := (View.sees_iff_done ⟨v', hcommit⟩).mp ((h.sees_iff hnr).mpr hhas)
  rw [View.commit, hdone] at hcommit
  exact (Option.some.inj hcommit).symm

/-- A new Document is counted, and taken as indexed exactly if its record is in sight. -/
theorem View.Between.action_new (h : v.Between L T) (hnr : T.NeverReturns doc.transactionID)
    (hnew : ¬ L.Has doc.transactionID doc.documentName) (hcommit : v.commit o doc = some v') :
    (v.named doc = [] ∧ v.action doc = .write false false) ∨
      ∃ x, v.named doc = [x] ∧ x.1 = doc.blockID ∧ v.action doc = .write true false := by
  have hsees := mt (h.sees_iff hnr).mp hnew
  match hnamed : v.named doc with
  | [] => exact .inl ⟨rfl, View.action_of_new hnamed (h.inSight hnr)⟩
  | [x] =>
    obtain ⟨r, l₁, l₂, hr, hvis, hx, hother⟩ := View.named_split hnamed
    have hact := View.action_of_match hr hvis hx hother
    rw [View.sees_iff hr hvis hx hother] at hsees
    rw [decide_eq_false hsees] at hact
    obtain ⟨hmatch, hown⟩ := commitAction_found fun err => hact ▸
      View.commit_not_reject ⟨v', hcommit⟩ err
    have hb : x.1 = doc.blockID := hown rfl
    refine .inr ⟨x, rfl, hb, ?_⟩
    simp [hact, commitAction, hb, hmatch]
  | x :: y :: l =>
    rw [View.commit_named_twice hnamed] at hcommit
    cases hcommit

/-- The Block is searched for the record, or might as well be, unless it is open and not listed. -/
theorem View.Between.indexed_iff {a : Bool} (hes : v.idx doc.blockID = some es)
    (hfound : (v.named doc = [] ∧ a = false) ∨
      ∃ x, v.named doc = [x] ∧ x.1 = doc.blockID ∧ a = true)
    (hopen : View.hasRecord es doc = true → ¬ v.Lists doc → o = false) :
    (if o then a else View.hasRecord es doc) = View.hasRecord es doc := by
  cases o with
  | false => rfl
  | true => ?_
  rcases hfound with ⟨hnil, rfl⟩ | ⟨x, hx, hb, rfl⟩
  · refine (Bool.eq_false_iff.mpr fun hrec => ?_).symm
    by_cases hlists : v.Lists doc
    · obtain ⟨r, hr, hmem⟩ := hlists
      obtain ⟨e, he, ht, hn⟩ := View.hasRecord_iff.mp hrec
      have hvis : (doc.blockID, e) ∈ v.named doc := by
        rw [View.named_of_tx hr, List.mem_filter]
        refine ⟨View.mem_visible.mpr ⟨hmem, ?_⟩, by simpa using hn⟩
        simp [View.entriesOf, findByTransaction, hes, he, ht]
      simp [hnil] at hvis
    · exact absurd (hopen hrec hlists) (by simp)
  · have hxn : x ∈ v.named doc := by simp [hx]
    obtain ⟨r, -, hvis, hn⟩ := View.mem_named hxn
    obtain ⟨-, hmem⟩ := View.mem_visible.mp hvis
    obtain ⟨hmem, ht⟩ := View.mem_entriesOf hmem
    rw [hb, hes] at hmem
    exact (View.hasRecord_iff.mpr ⟨x.2, hmem, ht, hn⟩).symm

theorem Ledger.inBlock_of_grows (h : L <+: T) (b : UInt64) :
    L.inBlock b <+: T.inBlock b := by
  obtain ⟨M, rfl⟩ := h
  rw [Ledger.inBlock_append]
  exact List.prefix_append _ _

theorem View.Between.next (h : v.Between L T)
    (hgrow : (L ++ [(b, e)] : Ledger) <+: T) :
    (v.idx b).getD [] = L.inBlock b ∨ L.inBlock b ++ [e] <+: (v.idx b).getD [] := by
  have hnext := Ledger.inBlock_of_grows hgrow b
  rw [Ledger.inBlock_concat_self] at hnext
  rcases List.prefix_or_prefix_of_prefix (h.known b) hnext with hle | hle
  · rcases List.prefix_concat_iff.mp hle with heq | hle
    · exact .inr (heq ▸ List.prefix_rfl)
    · exact .inl (hle.eq_of_length_le (h.counted b).length_le)
  · exact .inr hle

theorem View.Between.count (h : v.Between L T) {w : View}
    (hgrow : (L ++ [(b, e)] : Ledger) <+: T) (htx : w.tx = v.tx)
    (hidx : ∀ c, c ≠ b → w.idx c = v.idx c) (hown : L.inBlock b ++ [e] <+: (w.idx b).getD [])
    (hknown : (w.idx b).getD [] <+: T.inBlock b)
    (hcount : w.count e.transactionID b = some v') : v'.Between (L ++ [(b, e)]) T := by
  have hrep : w.TxRep L := ⟨htx ▸ h.tx, h.small⟩
  have hroom : w.hasRoom e.transactionID := (View.count_some.mp hcount).1.1
  obtain ⟨v'', hcount', hidx', hrep'⟩ := hrep.count hroom
  cases hcount'.symm.trans hcount
  refine ⟨hrep', hgrow, fun c => ?_, fun c => ?_⟩
  · rw [hidx']
    by_cases hc : c = b
    · subst hc
      rwa [Ledger.inBlock_concat_self]
    · rw [hidx c hc, Ledger.inBlock_concat_of_ne L e (Ne.symm hc)]
      exact h.counted c
  · rw [hidx']
    by_cases hc : c = b
    · subst hc
      exact hknown
    · rw [hidx c hc]
      exact h.known c

theorem View.Between.commitWrite (h : v.Between L T)
    (hnew : ¬ L.Has doc.transactionID doc.documentName) (hgrow : L.commit doc <+: T) {a : Bool}
    (hes : v.idx doc.blockID = some es)
    (hindexed : (if o then a else View.hasRecord es doc) = View.hasRecord es doc)
    (hcommit : v.commitWrite o doc a false = some v') : v'.Between (L.commit doc) T := by
  obtain ⟨entry, v₁, hentry, hw, ⟨hc, -⟩ | ⟨-, hcount⟩⟩ := View.commitWrite_some.mp hcommit
  · cases hc
  obtain ⟨ht, hn⟩ := CommitDocument.indexEntry?_some hentry
  have hL : L.commit doc = L ++ [(doc.blockID, entry)] := by
    simp [Ledger.commit, hnew, CommitDocument.resolved?, hentry]
  rw [hL] at hgrow ⊢
  have hnext := h.next hgrow
  rw [hes, Option.getD_some] at hnext
  rw [← ht] at hcount
  obtain ⟨es', hes', hv₁⟩ := View.writeIdx_some.mp hw
  cases hes.symm.trans hes'
  rw [hindexed] at hv₁
  obtain ⟨hrec, rfl⟩ | ⟨hrec, -, rfl⟩ := hv₁
  · refine h.count hgrow rfl (fun _ _ => rfl) ?_ (h.known _) hcount
    rw [hes]
    refine hnext.resolve_left fun heq => hnew ?_
    obtain ⟨x, hx, hxt, hxn⟩ := View.hasRecord_iff.mp hrec
    exact ⟨_, Ledger.mem_inBlock.mp (heq ▸ hx), hxt, hxn⟩
  · have hend : es = L.inBlock doc.blockID := by
      refine hnext.resolve_right fun hle => Bool.eq_false_iff.mp hrec ?_
      exact View.hasRecord_iff.mpr ⟨entry, hle.subset (by simp), ht, hn⟩
    have hown := Ledger.inBlock_of_grows hgrow doc.blockID
    rw [Ledger.inBlock_concat_self, ← hend] at hown
    refine h.count (w := ⟨update v.idx doc.blockID (some (es ++ [entry])), v.tx⟩)
      hgrow rfl (fun c hc => update_of_ne hc _ _) ?_ ?_ hcount
    · simp [hend]
    · simpa using hown

/-- What one apply does, unless it appends a Transaction's first Document to the open Block a second
time. -/
theorem View.Between.commit (h : v.Between L T) (hnr : T.NeverReturns doc.transactionID)
    (hgrow : L.commit doc <+: T)
    (hopen : ∀ es, v.idx doc.blockID = some es → View.hasRecord es doc = true →
      ¬ v.Lists doc → o = false) (hcommit : v.commit o doc = some v') :
    v'.Between (L.commit doc) T := by
  by_cases hhas : L.Has doc.transactionID doc.documentName
  · obtain rfl := h.commit_again hnr hhas hcommit
    rwa [Ledger.commit, if_pos hhas]
  obtain ⟨a, haction, hfound⟩ : ∃ a, v.action doc = .write a false ∧
      ((v.named doc = [] ∧ a = false) ∨ ∃ x, v.named doc = [x] ∧ x.1 = doc.blockID ∧ a = true) := by
    rcases h.action_new hnr hhas hcommit with ⟨hnil, haction⟩ | ⟨x, hx, hb, haction⟩
    · exact ⟨false, haction, .inl ⟨hnil, rfl⟩⟩
    · exact ⟨true, haction, .inr ⟨x, hx, hb, rfl⟩⟩
  rw [View.commit, haction] at hcommit
  obtain ⟨-, es, -, hes, -⟩ := View.commitWrite_iff.mp ⟨v', hcommit⟩
  exact h.commitWrite hhas hgrow hes
    (View.Between.indexed_iff hes hfound (hopen es hes)) hcommit

end Between

/-! ## Runs with repairs -/

/-- The Member has applied `docs`, a part of the log. Some Blocks may be copies of peers that were
ahead. -/
structure Shard.Applied (log docs : List CommitDocument) (s : Shard) : Prop where
  part : docs <+: log
  good : s.Good
  intact : s.Intact
  between : s.view.Between (Ledger.ofDocs docs) (Ledger.ofDocs log)

theorem Shard.Tracks.applied {log docs : List CommitDocument} {s : Shard} (h : s.Tracks docs)
    (hi : s.Intact) (hpart : docs <+: log) : s.Applied log docs := by
  refine ⟨hpart, h.good, hi, h.rep.between ?_⟩
  obtain ⟨rest, rfl⟩ := hpart
  exact Ledger.ofDocs_grows docs rest

/-- A log entry, or the repair of the open Block from one peer's copy. -/
inductive ReplicaEvent where
  | entry (st : LogStep)
  | repair (c : Crypto) (blockID : UInt64) (want : Nat) (now : Int) (copy : StagedBlock)

def ReplicaEvent.run : ReplicaEvent → ShardM Unit
  | .entry st => st.run
  | .repair c blockID want now copy => do
      let _ ← repairFromPeers c blockID want now [some copy]

def ReplicaEvent.docs : ReplicaEvent → List CommitDocument
  | .entry st => [st.doc]
  | .repair .. => []

/-- The copy is the Block of a Member that has applied a part of the log. -/
def StagedBlock.FromPeer (log : List CommitDocument) (b : UInt64) (copy : StagedBlock) : Prop :=
  ∃ (peer : Shard) (docs : List CommitDocument), peer.Applied log docs ∧
    (peer.blocks b).blk = some copy.blk ∧ (peer.blocks b).idx = some copy.idx

/-- An entry: what happens before it leaves the records alone, and if the open Block has the
Document's record, its Transaction lists the Block. A repair: the peer's `.idx` is not shorter. -/
def ReplicaEvent.Allowed (log : List CommitDocument) (s : Shard) : ReplicaEvent → Prop
  | .entry st =>
    s.Env (st.env s) ∧ (st.env s).Intact ∧
      ∀ es, (st.env s).view.idx st.doc.blockID = some es → View.hasRecord es st.doc = true →
        ¬ (st.env s).view.Lists st.doc → (st.env s).isOpen st.doc.blockID = false
  | .repair _ b _ _ copy =>
    copy.FromPeer log b ∧ ((s.view.idx b).getD []).length ≤ copy.idx.entries.length

section Repair

variable {log docs : List CommitDocument} {s s' : Shard}

theorem Shard.view_reopenBestEffort (s : Shard) (b : UInt64) :
    (s.reopenReplicaWritersBestEffort b).view = s.view := by
  unfold Shard.reopenReplicaWritersBestEffort
  split
  · rfl
  · split
    · rfl
    · split <;> rfl

theorem requeue_keeps_view (v : View) (b : UInt64) (gen : Int) :
    Keeps (fun s => s.view = v) (requeueBlockUploadAfterIndexAppend b gen) := by
  intro s hs
  by_cases hready : s.RequeueReady b gen
  · obtain ⟨p, hrun⟩ := requeue_ok hready
    rw [after_of_ok hrun]
    exact hs
  · obtain ⟨err, hrun⟩ := requeue_error hready
    rw [after, hrun]
    exact hs

theorem promoteReplicaRepair_view (s : Shard) (b : UInt64) (want : Nat) (staged : StagedBlock)
    (now : Int) :
    (after (promoteReplicaRepair b want staged now) s).view =
      { s.view with idx := update s.view.idx b (some staged.idx.entries) } := by
  have hset := s.view_setBlock b
    { s.blocks b with blk := some staged.blk, idx := some staged.idx }
  rw [promoteReplicaRepair, after_get_bind]
  cases openWriter staged.blk b with
  | error err => exact (Shard.view_reopenBestEffort _ b).trans hset
  | ok bw => ?_
  simp only
  split
  · exact (Shard.view_reopenBestEffort _ b).trans hset
  rw [after_set_bind]
  refine Keeps.tryCatch (I := fun u : Shard => u.view = _) ?_ ?_ _ hset
  · exact (requeue_keeps_view _ b now).bind fun _ => Keeps.pure _
  · exact fun _ => (Keeps.modify fun u hu =>
      (Shard.view_reopenBestEffort u b).trans hu).bind fun _ => Keeps.pure _

theorem repairFromPeers_view {c : Crypto} {want : Nat} {now : Int} {copy : StagedBlock}
    {done : Bool} (hrun : (repairFromPeers c b want now [some copy]).run s = .ok done s') :
    s'.view = s.view ∨
      s'.view = { s.view with idx := update s.view.idx b (some copy.idx.entries) } := by
  unfold repairFromPeers at hrun
  cases hready : prepareReplicaRepairStaging c copy want with
  | none =>
    simp only [hready] at hrun
    cases hrun
    exact .inl rfl
  | some ready =>
    simp only [hready] at hrun
    obtain ⟨done', t, hpromote, hrest⟩ := bind_ok.mp hrun
    have hview := promoteReplicaRepair_view s b want ready now
    rw [after_of_ok hpromote, (prepareReplicaRepairStaging_idx c hready).1] at hview
    have hend : s' = t := by
      cases done' with
      | true => exact (EStateM.Result.ok.inj hrest).2.symm
      | false => exact (EStateM.Result.ok.inj hrest).2.symm
    exact .inr (hend ▸ hview)

theorem View.Between.replace (h : v.Between L T) (hes : es <+: T.inBlock b)
    (hlen : ((v.idx b).getD []).length ≤ es.length) :
    View.Between { v with idx := update v.idx b (some es) } L T := by
  have hsub : (v.idx b).getD [] <+: es := List.prefix_of_prefix_length_le (h.known b) hes hlen
  refine ⟨⟨h.tx, h.small⟩, h.grows, fun c => ?_, fun c => ?_⟩
  · by_cases hc : c = b
    · subst hc
      simpa using (h.counted c).trans hsub
    · simpa [hc] using h.counted c
  · by_cases hc : c = b
    · subst hc
      simpa using hes
    · simpa [hc] using h.known c

theorem Shard.Applied.sound (h : s.Applied log docs) : s.Sound := by
  refine ⟨h.good, h.intact, fun t r hr => ?_⟩
  obtain ⟨-, hids, hcount, -⟩ := h.between.tx_eq_some hr
  rw [hids, hcount]
  exact (length_runs_le _).trans (by simp [Ledger.blocks])

theorem Shard.Applied.repair (h : s.Applied log docs) {c : Crypto} {want : Nat} {now : Int}
    {copy : StagedBlock} (hallowed : ReplicaEvent.Allowed log s (.repair c b want now copy))
    (hrun : (ReplicaEvent.repair c b want now copy).run.run s = .ok () s') :
    s'.Applied log docs := by
  obtain ⟨done, t, hrepair, hend⟩ := bind_ok.mp hrun
  obtain rfl : t = s' := (EStateM.Result.ok.inj hend).2
  have hsound := (repairFromPeers_sound c b want now [some copy]).ok h.sound hrepair
  refine ⟨h.part, hsound.good, hsound.intact, ?_⟩
  obtain ⟨⟨peer, docs', hpeer, -, hidx⟩, hlen⟩ := hallowed
  rcases repairFromPeers_view hrepair with hview | hview
  · exact hview ▸ h.between
  · rw [hview]
    refine h.between.replace ?_ hlen
    simpa [Shard.view, hidx] using hpeer.between.known b

theorem Shard.Applied.entry (h : s.Applied log docs) (hnr : NeverReturnsLog log) {st : LogStep}
    (hpart : docs ++ [st.doc] <+: log) (hallowed : ReplicaEvent.Allowed log s (.entry st))
    (hrun : (ReplicaEvent.entry st).run.run s = .ok () s') :
    s'.Applied log (docs ++ [st.doc]) := by
  obtain ⟨henv, hintact, hopen⟩ := hallowed
  have hbetween := h.between.env henv
  obtain ⟨hcommit, hgood, hrest⟩ := applyCommitDocument_ok henv.1 hrun
  refine ⟨hpart, hgood, hrest.intact hintact, ?_⟩
  rw [Ledger.ofDocs_concat]
  refine hbetween.commit (hnr _) ?_ hopen hcommit
  obtain ⟨rest, rfl⟩ := hpart
  rw [← Ledger.ofDocs_concat]
  exact Ledger.ofDocs_grows _ rest

theorem Shard.Applied.run : ∀ (events : List ReplicaEvent) {docs : List CommitDocument}
    {s s' : Shard}, s.Applied (docs ++ events.flatMap (·.docs)) docs →
      NeverReturnsLog (docs ++ events.flatMap (·.docs)) →
      Meets ReplicaEvent.run (ReplicaEvent.Allowed (docs ++ events.flatMap (·.docs))) s events →
      (runAll ReplicaEvent.run events).run s = .ok () s' →
      s'.Applied (docs ++ events.flatMap (·.docs)) (docs ++ events.flatMap (·.docs))
  | [], docs, s, s', h, _, _, hrun => by
    cases hrun
    simpa using h
  | .repair c b want now copy :: events, docs, s, s', h, hnr, ⟨hallowed, hmeets⟩, hrun => by
    obtain ⟨t, hstep, hrest⟩ := runAll_cons_ok.mp hrun
    rw [after_of_ok hstep] at hmeets
    exact Shard.Applied.run events (h.repair hallowed hstep) hnr hmeets hrest
  | .entry st :: events, docs, s, s', h, hnr, ⟨hallowed, hmeets⟩, hrun => by
    obtain ⟨t, hstep, hrest⟩ := runAll_cons_ok.mp hrun
    rw [after_of_ok hstep] at hmeets
    have hlog : docs ++ (ReplicaEvent.entry st :: events).flatMap (·.docs) =
        (docs ++ [st.doc]) ++ events.flatMap (·.docs) := by
      simp [ReplicaEvent.docs]
    rw [hlog] at h hnr hallowed hmeets ⊢
    exact Shard.Applied.run events (h.entry hnr (List.prefix_append _ _) hallowed hstep) hnr
      hmeets hrest

theorem Ledger.distinct_ofDocs (docs : List CommitDocument) : (Ledger.ofDocs docs).Distinct := by
  induction docs using List.reverseRecOn with
  | nil => exact List.nodup_nil
  | append_singleton docs doc ih =>
    rw [Ledger.ofDocs_concat, Ledger.commit]
    split
    · exact ih
    rename_i hnew
    unfold CommitDocument.resolved?
    cases hentry : doc.indexEntry? with
    | none => simpa using ih
    | some entry =>
      obtain ⟨ht, hn⟩ := CommitDocument.indexEntry?_some hentry
      exact ih.concat (by simpa [ht, hn] using hnew)

/-- In a run of repairs that are not behind, and of entries that find no record of theirs in an open
Block that is not listed, every Block ends with the record of each of its Documents once, in commit
order, and every Transaction can be listed. -/
theorem replica_repair_keeps_records (docs : List CommitDocument) (events : List ReplicaEvent)
    (h : s.Applied (docs ++ events.flatMap (·.docs)) docs)
    (hnr : NeverReturnsLog (docs ++ events.flatMap (·.docs)))
    (hmeets : Meets ReplicaEvent.run
      (ReplicaEvent.Allowed (docs ++ events.flatMap (·.docs))) s events)
    (hrun : (runAll ReplicaEvent.run events).run s = .ok () s') :
    (Ledger.ofDocs (docs ++ events.flatMap (·.docs))).Distinct ∧ (∀ b, (s'.view.idx b).getD [] =
        (Ledger.ofDocs (docs ++ events.flatMap (·.docs))).inBlock b) ∧
      ∀ t, ∃ l, s'.projectionResolver.listDocuments t = .ok l ∧
        l.Perm ((Ledger.ofDocs (docs ++ events.flatMap (·.docs))).ofTx t) := by
  have hend := Shard.Applied.run events h hnr hmeets hrun
  have hrep := hend.between.rep
  refine ⟨Ledger.distinct_ofDocs _, hrep.idx, fun t => ?_⟩
  rcases Shard.listDocuments_rep hend.good hend.intact hrep t with ⟨-, hlist⟩ | ⟨hret, -⟩
  · exact hlist
  · exact absurd (hnr t) hret

end Repair

/-! ## The first Document of a Transaction is indexed twice -/

def Shard.copyOne (s : Shard) : StagedBlock :=
  match (s.blocks 1).transferBlock 1 with
  | .ok copy => copy
  | .error _ => ⟨newBlkFile, newIndexFile⟩

/-- The follower has missed the bytes of `x`, and copies Block `1` up to offset `80` from a peer
that has applied `x`. -/
def copiedX : List ReplicaEvent :=
  [.repair keylessCrypto 1 80 1 heldX.copyOne, .entry ⟨id, docOfT "x" 1 40, 1⟩]

/-- When it then applies `x`, the open Block has the record twice. -/
theorem copied_record_appended_again :
    heldX.copyOne.FromPeer [docOfT "x" 1 40] 1 ∧ (Shard.fresh 1 true).Tracks [] ∧
      outcome (repairFromPeers keylessCrypto 1 80 1 [some heldX.copyOne]) (Shard.fresh 1 true) =
        .ok true ∧
      outcome (runAll ReplicaEvent.run copiedX) (Shard.fresh 1 true) = .ok () ∧
      ((after (runAll ReplicaEvent.run copiedX) (Shard.fresh 1 true)).view.idx 1).map
        (·.map (·.docName)) = some ["x", "x"] ∧
      (after (runAll ReplicaEvent.run copiedX)
        (Shard.fresh 1 true)).projectionResolver.listDocuments "t" =
          .error (.docCountMismatch "t" 1 2) := by
  refine ⟨⟨heldX, _, heldX_tracks.1.applied heldX_tracks.2 List.prefix_rfl, ?_, ?_⟩,
    (Shard.fresh_fresh 1 true).tracks, ?_⟩
  · decide +kernel
  · decide +kernel
  · decide +kernel

def appliedX : Shard := after (applyCommitDocument (docOfT "x" 1 40) 1) (Shard.fresh 1 true)

/-- It copies Block `1` up to offset `120` from a peer that has applied `x` and `y`, and then
applies `y`. -/
def copiedXY : List ReplicaEvent :=
  [.repair keylessCrypto 1 120 1 heldXY.copyOne, .entry ⟨id, docOfT "y" 1 80, 2⟩]

theorem appliedX_applied : appliedX.Applied [docOfT "x" 1 40, docOfT "y" 1 80] [docOfT "x" 1 40] := by
  have hrun : (applyCommitDocument (docOfT "x" 1 40) 1).run (Shard.fresh 1 true) =
      .ok () appliedX := outcome_ok_iff.mp (by decide +kernel)
  exact ((Shard.fresh_fresh 1 true).tracks.apply (by decide) hrun).applied
    (applyCommitDocument_intact (Shard.fresh_fresh 1 true).1 (Shard.fresh_intact 1 true) hrun).2
    ⟨[docOfT "y" 1 80], rfl⟩

/-- A peer that is ahead by a Document of a listed Transaction does no harm. -/
theorem replica_repair_keeps_records_ahead :
    outcome (runAll ReplicaEvent.run copiedXY) appliedX = .ok () ∧
      ((after (runAll ReplicaEvent.run copiedXY) appliedX).view.idx 1).getD [] =
        (Ledger.ofDocs [docOfT "x" 1 40, docOfT "y" 1 80]).inBlock 1 ∧
      ∃ l, (after (runAll ReplicaEvent.run copiedXY) appliedX).projectionResolver.listDocuments
        "t" = .ok l := by
  have hok : outcome (runAll ReplicaEvent.run copiedXY) appliedX = .ok () := by decide +kernel
  have hpeer : heldXY.copyOne.FromPeer [docOfT "x" 1 40, docOfT "y" 1 80] 1 :=
    ⟨heldXY, _, heldXY_tracks.1.applied heldXY_tracks.2 List.prefix_rfl, by decide +kernel⟩
  have hrepair : ReplicaEvent.Allowed [docOfT "x" 1 40, docOfT "y" 1 80] appliedX
      (.repair keylessCrypto 1 120 1 heldXY.copyOne) := ⟨hpeer, by decide +kernel⟩
  have hstep : (ReplicaEvent.repair keylessCrypto 1 120 1 heldXY.copyOne).run.run appliedX =
      .ok () (after (ReplicaEvent.repair keylessCrypto 1 120 1 heldXY.copyOne).run appliedX) :=
    outcome_ok_iff.mp (by decide +kernel)
  have hcopied := appliedX_applied.repair hrepair hstep
  have hlists : (after (ReplicaEvent.repair keylessCrypto 1 120 1 heldXY.copyOne).run
      appliedX).view.Lists (docOfT "y" 1 80) := ⟨⟨[1], 1, false⟩, by decide +kernel, by decide⟩
  have hmeets : Meets ReplicaEvent.run
      (ReplicaEvent.Allowed [docOfT "x" 1 40, docOfT "y" 1 80]) appliedX copiedXY :=
    ⟨hrepair, ⟨hcopied.good.env_refl, hcopied.intact, fun _ _ _ hnot => absurd hlists hnot⟩, trivial⟩
  have hsorted : SortedLog [docOfT "x" 1 40, docOfT "y" 1 80] := fun t =>
    (show ([docOfT "x" 1 40, docOfT "y" 1 80].map (·.blockID)).Pairwise (· ≤ ·) by decide).sublist
      (List.filter_sublist.map _)
  obtain ⟨-, hidx, hlist⟩ := replica_repair_keeps_records [docOfT "x" 1 40] copiedXY
    appliedX_applied hsorted.neverReturns hmeets (outcome_ok_iff.mp hok)
  obtain ⟨l, hl, -⟩ := hlist "t"
  exact ⟨hok, hidx 1, l, hl⟩

end Scrap
