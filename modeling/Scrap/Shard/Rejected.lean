/-
# CommitDocument commands that lose

Cancelled and retried writes put commands into the log that cannot commit any more: another command
has committed the Document with other content, or the Transaction is full.

* Such a command writes no record (`applyCommitDocument_conflict`, `applyCommitDocument_full`).
* Its outcome is sent to the waiter under its own proposal key and to no other
  (`applyCommitDocumentCommand_waiters`).
* A full Transaction fails the apply, and with it the Member. The Documents of one Transaction
  therefore end at 65535 (`full_transaction_stops_member`).
-/
import Mathlib.Data.String.Basic
import Scrap.Shard.ApplyFrame
import Scrap.Shard.LogRun
import Scrap.Shard.Member

namespace Scrap

open Block Fallible

/-! ## The waiters -/

/-- `s'` is `s` after an apply of the command with the outcome `r`: the waiter under its key, if
any, has been sent the outcome and is gone, all others are as they were. -/
structure WaiterSent (s s' : Shard) (doc : CommitDocument) (r : Except ShardErr Unit) : Prop where
  others : ∀ key, key ≠ commitProposalWaiterKey doc → s'.proposals key = s.proposals key
  channels : ∀ ch, s.proposals (commitProposalWaiterKey doc) ≠ some ch →
    s'.channels ch = s.channels ch
  own : ∀ ch, s.proposals (commitProposalWaiterKey doc) = some ch →
    s'.proposals (commitProposalWaiterKey doc) = none ∧ s'.channels ch = some (reported r)

theorem waiterSent_wake {s t : Shard} (hp : t.proposals = s.proposals)
    (hc : t.channels = s.channels) (doc : CommitDocument) (r : Except ShardErr Unit) :
    WaiterSent s (t.wake (commitProposalWaiterKey doc) (reported r)) doc r := by
  unfold Shard.wake
  rw [hp]
  cases hkey : s.proposals (commitProposalWaiterKey doc) with
  | none => exact ⟨fun key _ => congrFun hp key, fun ch _ => congrFun hc ch, by simp [hkey]⟩
  | some n => ?_
  refine ⟨fun key hne => ?_, fun ch hne => ?_, fun ch hch => ?_⟩
  · simp [hne]
  · have hne' : ch ≠ n := fun h => hne (h ▸ hkey)
    simp [hne', hc]
  · obtain rfl : n = ch := Option.some.inj (hkey.symm.trans hch)
    simp

section Command

variable (s : Shard) (doc : CommitDocument) (i : UInt64)

theorem applyCommitDocumentCommand_waiters :
    WaiterSent s (after (applyCommitDocumentCommand doc i) s) doc
      (outcome (applyCommitDocumentCommand doc i) s) := by
  rw [applyCommitDocumentCommand_outcome, applyCommitDocumentCommand_after]
  have hframe := applyCommitDocument_indexOnly s doc i
  exact waiterSent_wake hframe.proposals hframe.channels doc _

end Command

/-! ## The records -/

section Losing

variable {s : Shard} (hg : s.Good) {doc : CommitDocument} (i : UInt64)

include hg

theorem applyCommitDocument_settled (hact : s.view.action doc = .done) :
    outcome (applyCommitDocument doc i) s = .ok () ∧
      (after (applyCommitDocument doc i) s).view = s.view := by
  obtain ⟨t, hm, heq⟩ := applyCommitDocument_eq hg doc i
  simp only [hact] at heq
  unfold outcome after
  rw [heq]
  exact ⟨rfl, hm.view⟩

theorem applyCommitDocument_conflict {err : ShardErr} (hact : s.view.action doc = .reject err) :
    (after (applyCommitDocument doc i) s).view = s.view := by
  obtain ⟨t, hm, heq⟩ := applyCommitDocument_eq hg doc i
  simp only [hact] at heq
  obtain ⟨s', hrun, hview, -⟩ := heq
  unfold after
  rw [hrun]
  exact hview

theorem applyCommitDocument_full {a : Bool} (hact : s.view.action doc = .write a false)
    (hentry : doc.indexEntry?.isSome) (hfull : ¬ s.view.hasRoom doc.transactionID) :
    outcome (applyCommitDocument doc i) s = .error (.incrementDocCount .docCountAtMaximum) ∧
      (after (applyCommitDocument doc i) s).view = s.view := by
  obtain ⟨t, hm, heq⟩ := applyCommitDocument_eq hg doc i
  simp only [hact] at heq
  obtain ⟨entry, hentry⟩ := Option.isSome_iff_exists.mp hentry
  have hpre : (preflightProjectionDocCount doc.transactionID).run t =
      .error (.incrementDocCount .docCountAtMaximum) t := by
    rcases preflight_run (hm.good hg) doc.transactionID with ⟨hroom, -⟩ | ⟨-, hpre⟩
    · exact absurd (hm.view ▸ hroom) hfull
    · exact hpre
  have hrun : (commitNewDocument doc i a false).run t =
      .error (.incrementDocCount .docCountAtMaximum) t := by
    simp only [commitNewDocument, hentry]
    exact bind_of_error hpre
  unfold outcome after
  rw [heq, hrun]
  exact ⟨rfl, hm.view⟩

end Losing

/-! ## The next entry of a log -/

def CommitDocument.Fits (doc : CommitDocument) : Prop :=
  ∀ entry, doc.indexEntry? = some entry → FieldsFit entry

theorem WriteAttempt.indexEntry?_isSome (a : WriteAttempt) :
    a.commitCommand.indexEntry?.isSome := by
  simp [CommitDocument.indexEntry?, WriteAttempt.commitCommand, a.result.sha256.property]

theorem View.Short.listFits {v : View} (h : v.Short) {t : String} (hroom : v.hasRoom t)
    (b : UInt64) : v.listFits t b := by
  intro e he
  have hlen := h t e he
  have hne : e.docCount.toNat ≠ 65535 := fun hmax => hroom e he (UInt16.toNat_inj.mp hmax)
  have hlt := e.docCount.toNat_lt
  simp only [Entry.addDocument]
  split
  · omega
  · simp only [List.length_append, List.length_singleton]
    omega

section Next

variable {c : Crypto} {shardID : UInt64} {uploads : Bool} {steps : List MemberStep} {s : Shard}

/-- A Member has applied a log, and the next entry is a command that a call built. -/
theorem next_commit_entry
    (hrun : (runAll (MemberStep.run c) steps).run (Shard.fresh shardID uploads) = .ok () s)
    {doc : CommitDocument} (hcall : ∃ a : WriteAttempt, a.commitCommand = doc) (i : UInt64) :
    -- a new Document of a Block whose `.idx` is there
    (s.view.named doc = [] → (s.blocks doc.blockID).idx.isSome → doc.Fits →
        s.CanRequeue doc i → s.view.hasRoom doc.transactionID →
          outcome (applyEntryCommand c (.commitDoc doc) i) s = .ok ()) ∧
      -- committed before with the same content
      (∀ d, s.view.named doc = [d] → s.view.Sees doc →
        commitDocumentMatchesExisting doc d.2 = true →
          outcome (applyEntryCommand c (.commitDoc doc) i) s = .ok () ∧
            (after (applyEntryCommand c (.commitDoc doc) i) s).view = s.view) ∧
      -- committed before with other content
      (∀ d, s.view.named doc = [d] → s.view.Sees doc →
        commitDocumentMatchesExisting doc d.2 = false →
          (after (applyEntryCommand c (.commitDoc doc) i) s).view = s.view) ∧
      -- a new Document of a full Transaction
      (s.view.named doc = [] → s.view.InSight doc.transactionID →
        ¬ s.view.hasRoom doc.transactionID → outcome (applyEntryCommand c (.commitDoc doc) i) s =
              .error (.incrementDocCount .docCountAtMaximum) ∧
            (after (applyEntryCommand c (.commitDoc doc) i) s).view = s.view) ∧
      WaiterSent s (after (applyEntryCommand c (.commitDoc doc) i) s) doc
        (outcome (applyEntryCommand c (.commitDoc doc) i) s) := by
  obtain ⟨a, rfl⟩ := hcall
  have hs : s.Sound := runAll_invariant
    (Shard.fresh_sound shardID uploads) (fun _ _ _ _ hs h => MemberStep.run_sound hs h) hrun
  have hview : (after (applyEntryCommand c (.commitDoc a.commitCommand) i) s).view =
      (after (applyCommitDocument a.commitCommand i) s).view := by
    rw [applyEntryCommand, applyCommitDocumentCommand_after, Shard.view_wake]
  have hout : outcome (applyEntryCommand c (.commitDoc a.commitCommand) i) s =
      outcome (applyCommitDocument a.commitCommand i) s :=
    applyCommitDocumentCommand_outcome s _ i
  rw [hview, hout]
  refine ⟨fun hno hidx hfits hrequeue hroom => ?_, fun d hone hsees hm => ?_,
    fun d hone hsees hm => ?_, fun hno hsight hfull => ?_, ?_⟩
  · obtain ⟨entry, hentry⟩ := Option.isSome_iff_exists.mp a.indexEntry?_isSome
    obtain ⟨f, hf⟩ := Option.isSome_iff_exists.mp hidx
    have htakes : s.view.Takes (s.isOpen a.commitCommand.blockID) a.commitCommand :=
      .unnamed hno ⟨entry, f.entries, hentry, by simp [Shard.view, hf], .inl (hfits entry hentry)⟩
        (.inr ⟨hroom, hs.short.listFits hroom _⟩)
    obtain ⟨s', hs'⟩ := (applyCommitDocument_nil_iff hs.good a.commitCommand i).mpr
      ⟨htakes, .inr hrequeue⟩
    simp [outcome, hs']
  · exact applyCommitDocument_settled hs.good i (by rw [View.action_of_sees hone hsees, if_pos hm])
  · exact applyCommitDocument_conflict hs.good i
      (by rw [View.action_of_sees hone hsees, hm]; rfl)
  · exact applyCommitDocument_full hs.good i (View.action_of_new hno hsight)
      a.indexEntry?_isSome hfull
  · rw [← hout]
    exact applyCommitDocumentCommand_waiters s a.commitCommand i

end Next

/-! ## A full Transaction -/

def binaryName (k : Nat) : String :=
  String.ofList ((List.range 16).map fun j => if k.testBit j then '1' else '0')

def manyDocs (k : Nat) : CommitDocument := docOfT (binaryName k) 1 (UInt64.ofNat (40 * (k + 1)))

def commitMany (n : Nat) : List MemberStep :=
  (List.range n).map fun k => .commit (manyDocs k) (UInt64.ofNat (k + 1))

theorem binaryName_injOn {j k : Nat} (hj : j < 65536) (hk : k < 65536)
    (h : binaryName j = binaryName k) : j = k := by
  refine Nat.eq_of_testBit_eq fun n => ?_
  by_cases hn : n < 16
  · have hchar := List.map_inj_left.mp (String.ofList_injective h) n (List.mem_range.mpr hn)
    cases hjn : j.testBit n <;> cases hkn : k.testBit n <;> simp [hjn, hkn] at hchar ⊢
  · have hpow : 2 ^ 16 ≤ 2 ^ n := Nat.pow_le_pow_right (by decide) (by omega)
    rw [Nat.testBit_lt_two_pow (by omega), Nat.testBit_lt_two_pow (by omega)]

theorem utf8Len_le (cs : List Char) : String.utf8Len cs ≤ 4 * cs.length := by
  induction cs with
  | nil => simp
  | cons c cs ih =>
    have hc := c.utf8Size_le_four
    simp only [String.utf8Len_cons, List.length_cons]
    omega

theorem manyDocs_entry (k : Nat) : ∃ entry, CommitDocument.indexEntry? (manyDocs k) = some entry ∧
    FieldsFit entry ∧ entry.transactionID = "t" := by
  refine ⟨_, rfl, ?_, rfl⟩
  have hname : (binaryName k).utf8ByteSize ≤ 64 := by
    rw [binaryName, String.utf8ByteSize_ofList]
    exact (utf8Len_le _).trans (by simp)
  intro field hfield
  simp only [lenPrefixedFields, List.mem_cons, List.not_mem_nil, or_false] at hfield
  rcases hfield with rfl | rfl | rfl | rfl
  · show "t".utf8ByteSize ≤ maxUint16
    decide
  · exact hname.trans (by decide)
  · show "text/plain".utf8ByteSize ≤ maxUint16
    decide
  · exact Nat.zero_le _

theorem manyDocs_nodup {n : Nat} (hn : n ≤ 65536) :
    (((List.range n).map manyDocs).map CommitDocument.identity).Nodup := by
  rw [List.map_map]
  refine List.Nodup.map_on (fun j hj k hk h => ?_) List.nodup_range
  have hj' := List.mem_range.mp hj
  have hk' := List.mem_range.mp hk
  exact binaryName_injOn (by omega) (by omega) (Prod.mk.inj h).2

theorem commitMany_succ (n : Nat) : commitMany (n + 1) =
    commitMany n ++ [.commit (manyDocs n) (UInt64.ofNat (n + 1))] := by
  simp [commitMany, List.range_succ]

theorem Shard.Good.wake_env {s : Shard} (hg : s.Good) (key : String) (r : Option ShardErr) :
    s.Env (s.wake key r) := by
  have hview := s.view_wake key r
  refine ⟨?_, by rw [hview], fun b => by rw [hview]⟩
  unfold Shard.wake
  split
  · exact hg
  · exact ⟨hg.wf, hg.openIdx⟩

theorem Shard.wake_isOpen (s : Shard) (key : String) (r : Option ShardErr) (b : UInt64) :
    (s.wake key r).isOpen b = s.isOpen b := by
  unfold Shard.wake
  split <;> rfl

structure Filled (n : Nat) (s : Shard) : Prop where
  run : CommitRun (Shard.fresh 1 false) ((List.range n).map manyDocs) s
  isOpen : s.isOpen 1 = true

section Filled

variable {n : Nat} {s : Shard}

theorem Filled.rep (h : Filled n s) (hn : n ≤ 65536) :
    s.Good ∧ s.view.Rep (Ledger.ofLog ((List.range n).map manyDocs)) :=
  h.run.rep (Shard.fresh_fresh 1 false) (manyDocs_nodup hn)

theorem ofLog_manyDocs_length (n : Nat) :
    ((Ledger.ofLog ((List.range n).map manyDocs)).ofTx "t").length = n := by
  induction n with
  | zero => rfl
  | succ n ih =>
    obtain ⟨entry, hentry, -, htx⟩ := manyDocs_entry n
    have hlog : Ledger.ofLog ((List.range (n + 1)).map manyDocs) =
        Ledger.ofLog ((List.range n).map manyDocs) ++ [((manyDocs n).blockID, entry)] := by
      simp [Ledger.ofLog, List.range_succ, CommitDocument.resolved?, hentry]
    rw [hlog, ← htx, Ledger.ofTx_concat_self, List.length_append, htx, ih]
    rfl

theorem Filled.hasRoom_iff (h : Filled n s) (hn : n ≤ 65535) :
    s.view.hasRoom "t" ↔ n < 65535 := by
  obtain ⟨-, hrep⟩ := h.rep (by omega)
  have hlen := ofLog_manyDocs_length n
  constructor
  · intro hroom
    by_contra hfull
    cases htx : s.view.tx "t" with
    | none =>
      rw [hrep.tx_eq_none.mp htx, List.length_nil] at hlen
      omega
    | some e =>
      obtain ⟨-, -, hcount, -⟩ := hrep.tx_eq_some htx
      refine hroom e htx (UInt16.toNat_inj.mp ?_)
      rw [hcount, hlen]
      exact (by omega : n = 65535)
  · intro hlt e he hmax
    obtain ⟨-, -, hcount, -⟩ := hrep.tx_eq_some he
    rw [hlen, hmax] at hcount
    have : (65535 : Nat) = n := hcount
    omega

theorem manyDocs_new (hn : n < 65536) :
    ¬ (Ledger.ofLog ((List.range n).map manyDocs)).Has (manyDocs n).transactionID
      (manyDocs n).documentName := by
  intro hhas
  have hnodup := manyDocs_nodup (n := n + 1) (by omega)
  rw [List.range_succ, List.map_append, List.map_append, List.nodup_append] at hnodup
  exact hnodup.2.2 _ (Ledger.has_ofLog hhas) _ (by simp [CommitDocument.identity]) rfl

theorem Filled.next (h : Filled n s) (hn : n < 65535) :
    ∃ u, (applyCommitDocumentCommand (manyDocs n) (UInt64.ofNat (n + 1))).run s = .ok () u ∧
      Filled (n + 1) u := by
  obtain ⟨hg, hrep⟩ := h.rep (by omega)
  obtain ⟨entry, hentry, hfit, -⟩ := manyDocs_entry n
  obtain ⟨f, hf, -⟩ := hg.openIdx 1 h.isOpen
  rcases hrep.commit_new (s.isOpen (manyDocs n).blockID) (manyDocs_new (by omega)) with
    ⟨-, -, -, -, -, v', hv', -⟩ | ⟨-, hno⟩
  · obtain ⟨u, hu⟩ := (applyCommitDocument_ok_iff hg (manyDocs n) (UInt64.ofNat (n + 1))).mpr
      ⟨⟨v', hv'⟩, fun _ hclosed => absurd (hclosed.symm.trans h.isOpen) (by simp)⟩
    obtain ⟨-, hgu, hrest⟩ := applyCommitDocument_ok hg hu
    refine ⟨u.wake (commitProposalWaiterKey (manyDocs n)) none, ?_, ?_, ?_⟩
    · rw [applyCommitDocumentCommand_run, hu]
    · rw [List.range_succ, List.map_append]
      exact .env (.apply (manyDocs n) _ h.run hu) (hgu.wake_env _ _)
    · rw [Shard.wake_isOpen, hrest.isOpen]
      exact h.isOpen
  · refine absurd ⟨entry, hentry, hfit, ?_, (h.hasRoom_iff (by omega)).mpr hn⟩ hno
    simp [Shard.view, show (manyDocs n).blockID = 1 from rfl, hf]

theorem commitMany_fills (c : Crypto) : ∀ n, n ≤ 65535 →
    ∃ s, (runAll (MemberStep.run c) (commitMany n)).run (Shard.fresh 1 false) = .ok () s ∧
      Filled n s
  | 0, _ => ⟨_, rfl, .start, rfl⟩
  | n + 1, hn => by
    obtain ⟨s, hrun, hfilled⟩ := commitMany_fills c n (by omega)
    obtain ⟨u, hu, hnext⟩ := hfilled.next (by omega)
    refine ⟨u, ?_, hnext⟩
    rw [commitMany_succ]
    exact runAll_append_ok.mpr ⟨s, hrun, runAll_cons_ok.mpr ⟨u, hu, rfl⟩⟩

end Filled

theorem manyDocs_called (k : Nat) : ∃ a : WriteAttempt, a.commitCommand = manyDocs k :=
  ⟨⟨⟨binaryName k, "t", binaryName k, 1, 0, "text/plain"⟩, 0,
    ⟨⟨List.replicate 32 7, by decide⟩, 8, 1, 40 * (k + 1)⟩, 1, []⟩, rfl⟩

/-- 65536 writes of distinct Documents of one Transaction: the last entry stops every Member. -/
theorem full_transaction_stops_member :
    (((List.range 65536).map manyDocs).map CommitDocument.identity).Nodup ∧
      (∀ k, ∃ a : WriteAttempt, a.commitCommand = manyDocs k) ∧
      ∀ c : Crypto, ∃ s', (runAll (MemberStep.run c) (commitMany 65536)).run
        (Shard.fresh 1 false) = .error (.incrementDocCount .docCountAtMaximum) s' := by
  refine ⟨manyDocs_nodup le_rfl, manyDocs_called, fun c => ?_⟩
  obtain ⟨s, hrun, hfilled⟩ := commitMany_fills c 65535 le_rfl
  obtain ⟨hg, hrep⟩ := hfilled.rep (by omega)
  have hfull : ¬ s.view.hasRoom (manyDocs 65535).transactionID := fun hroom =>
    absurd ((hfilled.hasRoom_iff le_rfl).mp hroom) (by omega)
  obtain ⟨entry, hentry, -⟩ := manyDocs_entry 65535
  obtain ⟨hout, -⟩ := applyCommitDocument_full hg (UInt64.ofNat (65535 + 1))
    (hrep.action_new (manyDocs_new (by omega))) (by rw [hentry]; rfl) hfull
  have hsplit : commitMany 65536 =
      commitMany 65535 ++ [.commit (manyDocs 65535) (UInt64.ofNat (65535 + 1))] :=
    commitMany_succ 65535
  rw [hsplit, runAll_append_of_ok hrun]
  rw [← applyCommitDocumentCommand_outcome] at hout
  exact ⟨_, bind_of_error (outcome_error_iff.mp hout)⟩

/-- `x` is committed; `y` commits next, and a second `x` with other content changes nothing. -/
theorem next_commit_entry_after_one :
    (∀ c : Crypto, outcome (applyEntryCommand c (.commitDoc (manyDocs 1)) 2)
        (after (applyEntryCommand c (.commitDoc (manyDocs 0)) 1) (Shard.fresh 1 false)) = .ok ()) ∧
      ∀ c : Crypto, (after (applyEntryCommand c
          (.commitDoc { manyDocs 0 with sha256 := List.replicate 32 8 }) 2)
          (after (applyEntryCommand c (.commitDoc (manyDocs 0)) 1) (Shard.fresh 1 false))).view =
        (after (applyEntryCommand c (.commitDoc (manyDocs 0)) 1) (Shard.fresh 1 false)).view := by
  have hrun : ∀ c : Crypto, (runAll (MemberStep.run c) [.commit (manyDocs 0) 1]).run
      (Shard.fresh 1 false) = .ok ()
        (after (applyEntryCommand c (.commitDoc (manyDocs 0)) 1) (Shard.fresh 1 false)) :=
    fun _ => rfl
  refine ⟨fun c => ?_, fun c => ?_⟩
  · refine (next_commit_entry (hrun c) (manyDocs_called 1) 2).1 rfl rfl ?_ ?_ ?_
    · intro entry hentry
      obtain ⟨entry', hentry', hfit, -⟩ := manyDocs_entry 1
      exact Option.some.inj (hentry'.symm.trans hentry) ▸ hfit
    · intro hclosed
      cases hclosed
    · intro e he
      cases he
      decide
  · refine (next_commit_entry (hrun c) ⟨⟨⟨binaryName 0, "t", binaryName 0, 1, 0, "text/plain"⟩, 0,
      ⟨⟨List.replicate 32 8, by decide⟩, 8, 1, 40⟩, 1, []⟩, rfl⟩ 2).2.2.1 _ rfl ?_ rfl
    exact ⟨_, rfl, _, .head _, rfl⟩

end Scrap
