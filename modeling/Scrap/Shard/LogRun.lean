/-
# Runs of a log on one Member

A `LogStep` is an apply and, before it, anything that leaves the records alone (`Shard.Env`): Blocks
are opened and reopened, the Member is restarted, uploads and prep files come and go. A run of a
log is `runAll LogStep.run`.

`Tracks docs s` says that the Member has applied `docs`: its records represent the ledger of the
log, and every command of the log is settled. `Tracks.apply` and `Tracks.run` hold for logs in
which no Transaction comes back to a Block it has left (`NeverReturnsLog`), as in a log whose Block
IDs never decrease within a Transaction (`SortedLog`).
-/
import Scrap.Shard.CommitLog
import Scrap.Shard.Settled

namespace Scrap

open Block Scrap.Group Fallible

structure LogStep where
  /-- what happens on the Member before the apply -/
  env : Shard → Shard
  doc : CommitDocument
  index : UInt64

def LogStep.run (st : LogStep) : ShardM Unit := do
  modify st.env
  applyCommitDocument st.doc st.index

theorem LogStep.run_eq (st : LogStep) (s : Shard) :
    st.run.run s = (applyCommitDocument st.doc st.index).run (st.env s) := rfl

/-- What happens before the apply leaves the records alone. -/
def LogStep.Quiet (s : Shard) (st : LogStep) : Prop := s.Env (st.env s)

/-! ## The ledger of a log -/

def Ledger.ofDocs (docs : List CommitDocument) : Ledger := docs.foldl Ledger.commit []

theorem Ledger.ofDocs_concat (docs : List CommitDocument) (doc : CommitDocument) :
    Ledger.ofDocs (docs ++ [doc]) = (Ledger.ofDocs docs).commit doc := by
  simp [Ledger.ofDocs]

/-- No Transaction of the log commits to a Block again after it has committed to another. -/
def NeverReturnsLog (docs : List CommitDocument) : Prop :=
  ∀ t, (Ledger.ofDocs docs).NeverReturns t

theorem Ledger.commit_grows (L : Ledger) (doc : CommitDocument) : L <+: L.commit doc := by
  unfold Ledger.commit
  split
  · exact List.prefix_rfl
  · exact List.prefix_append _ _

theorem Ledger.ofDocs_grows (docs docs' : List CommitDocument) :
    Ledger.ofDocs docs <+: Ledger.ofDocs (docs ++ docs') := by
  induction docs' using List.reverseRecOn with
  | nil => simp
  | append_singleton docs' doc ih =>
    rw [← List.append_assoc, Ledger.ofDocs_concat]
    exact ih.trans (Ledger.commit_grows _ doc)

variable {doc : CommitDocument} {L : Ledger} {docs : List CommitDocument} {s s' : Shard}

theorem Ledger.NeverReturns.of_grows {L' : Ledger} {t : String} (h : L'.NeverReturns t)
    (hgrow : L <+: L') : L.NeverReturns t := by
  obtain ⟨M, rfl⟩ := hgrow
  have hblocks : Ledger.blocks (L ++ M) t = L.blocks t ++ Ledger.blocks M t := by
    simp [Ledger.blocks, Ledger.ofTx]
  unfold Ledger.NeverReturns at h ⊢
  rw [hblocks] at h
  exact h.sublist (runs_grow _ _).sublist

theorem NeverReturnsLog.of_append {docs' : List CommitDocument}
    (h : NeverReturnsLog (docs ++ docs')) : NeverReturnsLog docs :=
  fun t => (h t).of_grows (Ledger.ofDocs_grows docs docs')

/-- The Block IDs never decrease within a Transaction. -/
def SortedLog (docs : List CommitDocument) : Prop :=
  ∀ t, ((docs.filter (fun d => d.transactionID = t)).map (·.blockID)).Pairwise (· ≤ ·)

theorem SortedLog.of_append {docs' : List CommitDocument} (h : SortedLog (docs ++ docs')) :
    SortedLog docs := by
  intro t
  have ht := h t
  rw [List.filter_append, List.map_append] at ht
  exact (List.pairwise_append.mp ht).1

namespace Ledger

theorem blocks_commit_sublist (L : Ledger) (doc : CommitDocument) (t : String) :
    ((L.commit doc).blocks t).Sublist
      (L.blocks t ++ if doc.transactionID = t then [doc.blockID] else []) := by
  unfold commit
  split
  · exact List.sublist_append_left _ _
  unfold CommitDocument.resolved?
  cases hentry : doc.indexEntry? with
  | none => simp
  | some e => ?_
  obtain ⟨htx, -⟩ := CommitDocument.indexEntry?_some hentry
  by_cases ht : doc.transactionID = t <;> simp [blocks, ofTx, htx, ht]

theorem blocks_ofDocs_sublist (docs : List CommitDocument) (t : String) :
    ((ofDocs docs).blocks t).Sublist
      ((docs.filter (fun d => d.transactionID = t)).map (·.blockID)) := by
  induction docs using List.reverseRecOn with
  | nil => simp [ofDocs, blocks, ofTx]
  | append_singleton docs doc ih =>
    rw [ofDocs_concat, List.filter_append, List.map_append]
    refine (blocks_commit_sublist _ doc t).trans (ih.append ?_)
    by_cases ht : doc.transactionID = t <;> simp [ht]

end Ledger

theorem SortedLog.neverReturns (h : SortedLog docs) :
    NeverReturnsLog docs :=
  fun t => nodup_runs_of_sorted (fun _ _ h h' => UInt64.le_antisymm h h')
    ((h t).sublist (Ledger.blocks_ofDocs_sublist docs t))

/-! ## What a Member has applied -/

structure Shard.Tracks (docs : List CommitDocument) (s : Shard) : Prop where
  good : s.Good
  rep : s.view.Rep (Ledger.ofDocs docs)
  distinct : (Ledger.ofDocs docs).Distinct
  settled : ∀ doc ∈ docs, (Ledger.ofDocs docs).Has doc.transactionID doc.documentName ∧
    (Ledger.ofDocs docs).Agrees doc

theorem Shard.Fresh.tracks (h : s.Fresh) : s.Tracks [] := ⟨h.1, h.2, List.nodup_nil, by simp⟩

theorem Shard.Tracks.env (h : s.Tracks docs) (henv : s.Env s') : s'.Tracks docs :=
  ⟨henv.1, h.rep.env henv, h.distinct, h.settled⟩

theorem Ledger.settled_commit {doc' : CommitDocument}
    (h : L.Has doc.transactionID doc.documentName ∧ L.Agrees doc) :
    (L.commit doc').Has doc.transactionID doc.documentName ∧ (L.commit doc').Agrees doc := by
  obtain ⟨⟨d, hd, htx, hn⟩, hag⟩ := h
  unfold Ledger.commit
  split
  · exact ⟨⟨d, hd, htx, hn⟩, hag⟩
  rename_i hnew
  refine ⟨⟨d, List.mem_append_left _ hd, htx, hn⟩, ?_⟩
  intro x hx hid
  rcases List.mem_append.mp hx with hx | hx
  · exact hag x hx hid
  -- the appended Document has an identity the ledger did not have
  · exfalso
    obtain ⟨e, hentry, rfl⟩ := Option.map_eq_some_iff.mp (Option.mem_toList.mp hx)
    obtain ⟨htx', hn'⟩ := CommitDocument.indexEntry?_some hentry
    have hid' := Prod.mk.inj hid
    refine hnew ⟨d, hd, ?_, ?_⟩
    · rw [htx, ← htx']
      exact hid'.1.symm
    · rw [hn, ← hn']
      exact hid'.2.symm

theorem Shard.Tracks.apply {i : UInt64} (h : s.Tracks docs)
    (hnr : (Ledger.ofDocs docs).NeverReturns doc.transactionID)
    (hrun : (applyCommitDocument doc i).run s = .ok () s') : s'.Tracks (docs ++ [doc]) := by
  obtain ⟨hcommit, hg, -⟩ := applyCommitDocument_ok h.good hrun
  obtain ⟨hrep, hdist, hhas, hag, -⟩ := h.rep.commit h.distinct hnr hcommit
  rw [← Ledger.ofDocs_concat] at hrep hdist hhas hag
  refine ⟨hg, hrep, hdist, ?_⟩
  intro m hm
  rcases List.mem_append.mp hm with hm | hm
  · rw [Ledger.ofDocs_concat]
    exact Ledger.settled_commit (h.settled m hm)
  · obtain rfl : m = doc := by simpa using hm
    exact ⟨hhas, hag⟩

theorem Shard.Tracks.run : ∀ (steps : List LogStep) {docs : List CommitDocument} {s s' : Shard},
    s.Tracks docs → NeverReturnsLog (docs ++ steps.map (·.doc)) →
      Meets LogStep.run LogStep.Quiet s steps → (runAll LogStep.run steps).run s = .ok () s' →
      s'.Tracks (docs ++ steps.map (·.doc))
  | [], docs, s, s', h, _, _, hrun => by
    cases hrun
    simpa using h
  | st :: steps, docs, s, s', h, hnrs, hmeets, hrun => by
    obtain ⟨t, hstep, hrest⟩ := runAll_cons_ok.mp hrun
    obtain ⟨hquiet, hmeets⟩ := hmeets
    rw [after_of_ok hstep] at hmeets
    rw [List.map_cons, List.append_cons] at hnrs ⊢
    have hnr := hnrs.of_append.of_append st.doc.transactionID
    exact Shard.Tracks.run steps ((h.env hquiet).apply hnr hstep) hnrs hmeets hrest

/-! ## Two Members -/

/-- The `.idx` entries of all Blocks and the Transaction records are the same. -/
def Shard.SameRecords (s s' : Shard) : Prop :=
  (∀ b, (s.view.idx b).getD [] = (s'.view.idx b).getD []) ∧ s.view.tx = s'.view.tx

theorem View.Rep.sameRecords (h : s.view.Rep L) (h' : s'.view.Rep L) :
    s.SameRecords s' :=
  ⟨fun b => (h.idx b).trans (h'.idx b).symm, funext fun t => (h.tx t).trans (h'.tx t).symm⟩

/-- What an entry needs on the Member: if it is to be written, its Block's `.idx` is there, and a
closed Block can be requeued. -/
def LogStep.Ready (s : Shard) (st : LogStep) : Prop :=
  s.Env (st.env s) ∧ ((st.env s).view.Writes st.doc →
    ((st.env s).blocks st.doc.blockID).idx.isSome ∧ (st.env s).CanRequeue st.doc st.index)

/-- An entry that one Member has applied applies on every Member that has applied the same log and
is ready. -/
theorem Shard.Tracks.apply_again {u : Shard} {i j : UInt64} (h : s.Tracks docs) (hu : u.Tracks docs)
    (hnr : (Ledger.ofDocs docs).NeverReturns doc.transactionID)
    (hrun : (applyCommitDocument doc i).run s = .ok () s')
    (hready : u.view.Writes doc → (u.blocks doc.blockID).idx.isSome ∧ u.CanRequeue doc j) :
    ∃ u', (applyCommitDocument doc j).run u = .ok () u' := by
  obtain ⟨hcommit, -⟩ := applyCommitDocument_ok h.good hrun
  have hs := (h.rep.commit_isSome_iff h.distinct hnr _).mp ⟨_, hcommit⟩
  refine (applyCommitDocument_ok_iff hu.good doc j).mpr ⟨?_, fun hw => (hready hw).2⟩
  refine (hu.rep.commit_isSome_iff hu.distinct hnr _).mpr ?_
  by_cases hhas : (Ledger.ofDocs docs).Has doc.transactionID doc.documentName
  · rw [if_pos hhas] at hs ⊢
    exact hs
  rw [if_neg hhas] at hs ⊢
  obtain ⟨entry, hentry, hfit, -, hroom⟩ := hs
  have hidx := (hready ⟨_, _, hu.rep.action_new hhas⟩).1
  refine ⟨entry, hentry, hfit, by simpa [Shard.view] using hidx, ?_⟩
  intro e he
  exact hroom e (by rw [h.rep.tx, ← hu.rep.tx]; exact he)

theorem Shard.Tracks.run_again : ∀ (steps steps' : List LogStep) {docs : List CommitDocument}
    {s s' u : Shard}, s.Tracks docs → u.Tracks docs →
      steps'.map (·.doc) = steps.map (·.doc) → NeverReturnsLog (docs ++ steps.map (·.doc)) →
      Meets LogStep.run LogStep.Quiet s steps → (runAll LogStep.run steps).run s = .ok () s' →
      Meets LogStep.run LogStep.Ready u steps' →
      ∃ u', (runAll LogStep.run steps').run u = .ok () u' ∧ u'.Tracks (docs ++ steps.map (·.doc))
  | [], steps', docs, s, s', u, _, hu, hdocs, _, _, _, _ => by
    obtain rfl : steps' = [] := by simpa using hdocs
    exact ⟨u, rfl, by simpa using hu⟩
  | st :: steps, [], _, _, _, _, _, _, hdocs, _, _, _, _ => by simp at hdocs
  | st :: steps, st' :: steps', docs, s, s', u, h, hu, hdocs, hnrs, hquiet, hrun, hready => by
    obtain ⟨t, hstep, hrest⟩ := runAll_cons_ok.mp hrun
    obtain ⟨hq, hquiet⟩ := hquiet
    obtain ⟨⟨henv, hr⟩, hready⟩ := hready
    rw [after_of_ok hstep] at hquiet
    rw [List.map_cons, List.map_cons, List.cons.injEq] at hdocs
    obtain ⟨hdoc, hdocs⟩ := hdocs
    rw [List.map_cons, List.append_cons] at hnrs ⊢
    have hnr := hnrs.of_append.of_append st.doc.transactionID
    rw [hdoc] at hr
    obtain ⟨u', hu'⟩ := (h.env hq).apply_again (hu.env henv) hnr hstep hr
    have hstep' : st'.run.run u = .ok () u' := by rw [LogStep.run_eq, hdoc]; exact hu'
    rw [after_of_ok hstep'] at hready
    obtain ⟨w, hw, htracks⟩ := Shard.Tracks.run_again steps steps'
      ((h.env hq).apply hnr hstep) ((hu.env henv).apply hnr hu') hdocs hnrs hquiet hrest
      hready
    exact ⟨w, runAll_cons_ok.mpr ⟨u', hstep', hw⟩, htracks⟩

/-! ## Lookups -/

theorem Shard.Tracks.findDocEntry_ok (h : s.Tracks docs) (hnr : NeverReturnsLog docs)
    (hi : s.Intact) {t name : String} {d : ResolvedDocument} :
    s.findDocEntry t name = .ok d ↔
      d ∈ Ledger.ofDocs docs ∧ d.2.transactionID = t ∧ d.2.docName = name := by
  obtain ⟨-, found, hlist, hperm⟩ | ⟨hret, -⟩ := Shard.listDocuments_rep h.good hi h.rep t
  case inr => exact absurd (hnr t) hret
  have hmem := fun x => hperm.mem_iff.trans (Ledger.mem_ofTx (d := x))
  rw [Shard.findDocEntry, Resolver.resolveDocument, hlist]
  cases hfind : found.find? (fun x => x.2.docName = name) with
  | none =>
    have hno := List.find?_eq_none.mp hfind
    simp only [hfind, reduceCtorEq, false_iff]
    rintro ⟨hd, ht, hname⟩
    exact hno d ((hmem d).mpr ⟨hd, ht⟩) (by simpa using hname)
  | some x =>
    have hx := (hmem x).mp (List.mem_of_find?_eq_some hfind)
    have hname : x.2.docName = name := by simpa using List.find?_some hfind
    simp only [hfind, Except.ok.injEq]
    constructor
    · rintro rfl
      exact ⟨hx.1, hx.2, hname⟩
    · rintro ⟨hd, ht, hname'⟩
      refine h.distinct.eq_of_identity hx.1 hd ?_
      rw [Ledger.identity, Ledger.identity, hx.2, ht, hname, hname']

section Lookups

variable {u u' : Shard} {steps steps' : List LogStep} {d : ResolvedDocument} (hs : s.Fresh)
  (hquiet : Meets LogStep.run LogStep.Quiet s steps)
  (hrun : (runAll LogStep.run steps).run s = .ok () s')

include hs hquiet hrun

/-- After a log, with retries and local events in between, a lookup finds the Document that the
ledger has under the name, and nothing else. -/
theorem findDocEntry_after_log (hnr : NeverReturnsLog (steps.map (·.doc))) (hi : s'.Intact)
    (t name : String) : s'.findDocEntry t name = .ok d ↔
      d ∈ Ledger.ofDocs (steps.map (·.doc)) ∧ d.2.transactionID = t ∧ d.2.docName = name :=
  (hs.tracks.run steps hnr hquiet hrun).findDocEntry_ok hnr hi

variable (hnr : NeverReturnsLog (steps'.map (·.doc)))
  (hlog : steps.map (·.doc) <+: steps'.map (·.doc)) (hu : u.Fresh)
  (hquiet' : Meets LogStep.run LogStep.Quiet u steps')
  (hrun' : (runAll LogStep.run steps').run u = .ok () u')

include hnr hlog hu hquiet' hrun'

/-- What one Member finds, every Member finds that has applied as much of the log or more. -/
theorem findDocEntry_stays (hi : s'.Intact) (hi' : u'.Intact) {t name : String}
    (hfound : s'.findDocEntry t name = .ok d) : u'.findDocEntry t name = .ok d := by
  obtain ⟨rest, hrest⟩ := hlog
  have hnr' : NeverReturnsLog (steps.map (·.doc)) := (hrest ▸ hnr).of_append
  obtain ⟨hd, hname⟩ := ((hs.tracks.run steps hnr' hquiet hrun).findDocEntry_ok hnr' hi).mp hfound
  refine ((hu.tracks.run steps' hnr hquiet' hrun').findDocEntry_ok hnr hi').mpr ⟨?_, hname⟩
  rw [List.nil_append, ← hrest]
  exact (Ledger.ofDocs_grows _ rest).subset hd

/-- Its `.idx` of a Block starts with the other's. -/
theorem idx_entries_extend (b : UInt64) :
    (s'.view.idx b).getD [] <+: (u'.view.idx b).getD [] := by
  obtain ⟨rest, hrest⟩ := hlog
  have hnr' : NeverReturnsLog (steps.map (·.doc)) := (hrest ▸ hnr).of_append
  rw [(hs.tracks.run steps hnr' hquiet hrun).rep.idx,
    (hu.tracks.run steps' hnr hquiet' hrun').rep.idx, List.nil_append, List.nil_append, ← hrest]
  exact ((Ledger.ofDocs_grows _ rest).filter _).map _

end Lookups

/-- Nothing happens before the apply, or a new Block is opened. -/
def LogStep.OpensBlocks (s : Shard) (st : LogStep) : Prop :=
  st.env = id ∨ st.env = Shard.openNewBlock ∧ (s.blocks s.nextBlockID).idx = none

theorem LogStep.run_intact : ∀ {steps : List LogStep} {s s' : Shard}, s.Good → s.Intact →
    (runAll LogStep.run steps).run s = .ok () s' → Meets LogStep.run LogStep.OpensBlocks s steps →
      Meets LogStep.run LogStep.Quiet s steps ∧ s'.Intact
  | [], s, s', _, hi, hrun, _ => by
    cases hrun
    exact ⟨trivial, hi⟩
  | st :: steps, s, s', hg, hi, hrun, ⟨hopens, hmeets⟩ => by
    obtain ⟨t, hstep, hrest⟩ := runAll_cons_ok.mp hrun
    have henv : s.Env (st.env s) ∧ (st.env s).Intact := by
      rcases hopens with heq | ⟨heq, hnew⟩ <;> rw [heq]
      · exact ⟨hg.env_refl, hi⟩
      · exact ⟨hg.openNewBlock_env hnew, hi.openNewBlock⟩
    obtain ⟨hg', hi'⟩ := applyCommitDocument_intact henv.1.1 henv.2 hstep
    rw [after_of_ok hstep] at hmeets
    obtain ⟨hquiet, hlast⟩ := LogStep.run_intact hg' hi' hrest hmeets
    refine ⟨⟨henv.1, ?_⟩, hlast⟩
    rwa [after_of_ok hstep]

/-- `x` is committed twice. -/
def retriedX : List LogStep := [⟨id, docOfT "x" 1 40, 1⟩, ⟨id, docOfT "x" 1 80, 2⟩]

def twoBlockLog : List LogStep :=
  retriedX ++ [⟨id, docOfT "z" 1 80, 3⟩, ⟨Shard.openNewBlock, docOfT "y" 2 40, 4⟩]

theorem length_digestOfT : (List.replicate 32 (7 : UInt8)).length = 32 := rfl

def entryOfT (name : String) (firstFrameOff : Nat) : IndexEntry :=
  ⟨"t", name, "text/plain", 1, firstFrameOff, 1, 8, ⟨List.replicate 32 7, length_digestOfT⟩, []⟩

theorem twoBlockLog_neverReturns : NeverReturnsLog (twoBlockLog.map (·.doc)) :=
  SortedLog.neverReturns fun _ => (show [1, 1, 1, 2].Pairwise (α := UInt64) (· ≤ ·) by decide).sublist
    (List.filter_sublist.map _)

theorem retriedX_run : Meets LogStep.run LogStep.Quiet (.fresh 1 false) retriedX ∧
    ∃ s', (runAll LogStep.run retriedX).run (.fresh 1 false) = .ok () s' ∧ s'.Intact ∧
      s'.findDocEntry "t" "x" = .ok (1, entryOfT "x" 40) ∧
      (s'.view.idx 1).getD [] = [entryOfT "x" 40] := by
  have hrun := outcome_ok_iff.mp (show outcome (runAll LogStep.run retriedX)
    (Shard.fresh 1 false) = .ok () by decide +kernel)
  obtain ⟨hquiet, hi⟩ := LogStep.run_intact (Shard.fresh_fresh 1 false).1
    (Shard.fresh_intact 1 false) hrun ⟨.inl rfl, .inl rfl, trivial⟩
  exact ⟨hquiet, _, hrun, hi, by decide +kernel, by decide +kernel⟩

theorem twoBlockLog_run : Meets LogStep.run LogStep.Quiet (.fresh 1 true) twoBlockLog ∧
    ∃ u', (runAll LogStep.run twoBlockLog).run (.fresh 1 true) = .ok () u' ∧ u'.Intact := by
  have hrun := outcome_ok_iff.mp (show outcome (runAll LogStep.run twoBlockLog)
    (Shard.fresh 1 true) = .ok () by decide +kernel)
  obtain ⟨hquiet, hi⟩ := LogStep.run_intact (Shard.fresh_fresh 1 true).1 (Shard.fresh_intact 1 true)
    hrun ⟨.inl rfl, .inl rfl, .inl rfl, .inr ⟨rfl, by decide +kernel⟩, trivial⟩
  exact ⟨hquiet, _, hrun, hi⟩

theorem findDocEntry_after_log_two : ∃ u',
    (runAll LogStep.run twoBlockLog).run (.fresh 1 true) = .ok () u' ∧
      u'.findDocEntry "t" "x" = .ok (1, entryOfT "x" 40) ∧
      u'.findDocEntry "t" "y" = .ok (2, entryOfT "y" 40) := by
  obtain ⟨hquiet, u', hrun, hi⟩ := twoBlockLog_run
  have hfind := fun d => findDocEntry_after_log (d := d) (Shard.fresh_fresh 1 true) hquiet hrun
    twoBlockLog_neverReturns hi "t"
  exact ⟨u', hrun, (hfind _ "x").mpr (by decide +kernel), (hfind _ "y").mpr (by decide +kernel)⟩

theorem findDocEntry_stays_two : ∃ u',
    (runAll LogStep.run twoBlockLog).run (.fresh 1 true) = .ok () u' ∧
      u'.findDocEntry "t" "x" = .ok (1, entryOfT "x" 40) := by
  obtain ⟨hquiet, s', hrun, hi, hfound, -⟩ := retriedX_run
  obtain ⟨hquiet', u', hrun', hi'⟩ := twoBlockLog_run
  exact ⟨u', hrun', findDocEntry_stays (Shard.fresh_fresh 1 false) hquiet hrun
    twoBlockLog_neverReturns (List.prefix_append _ _) (Shard.fresh_fresh 1 true) hquiet' hrun' hi
    hi' hfound⟩

theorem idx_entries_extend_two : ∃ u',
    (runAll LogStep.run twoBlockLog).run (.fresh 1 true) = .ok () u' ∧
      [entryOfT "x" 40] <+: (u'.view.idx 1).getD [] := by
  obtain ⟨hquiet, s', hrun, -, -, hidx⟩ := retriedX_run
  obtain ⟨hquiet', u', hrun', -⟩ := twoBlockLog_run
  exact ⟨u', hrun', hidx ▸ idx_entries_extend (Shard.fresh_fresh 1 false) hquiet hrun
    twoBlockLog_neverReturns (List.prefix_append _ _) (Shard.fresh_fresh 1 true) hquiet' hrun' 1⟩

end Scrap
