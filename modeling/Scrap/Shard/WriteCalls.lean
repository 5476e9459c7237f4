/-
# WriteDocument calls and their waiters

A call registers a channel of one slot under the key of its proposal, proposes, and waits for the
apply of its entry or for its context. The apply sends the outcome to the channel under the key of
the entry, if there is one, and removes it, both under the same lock.

`WriteCalls` runs any number of calls, each by one event at a time, between applies of any entries.
A call need not propose at all: the duplicate check may answer it with the result of an earlier
write (`duplicate_returns_without_entry`).

The main part of the invariant, `WriteCalls.Sound`, is `waiter`: whoever is in the table has an
empty channel that was never sent to.
-/
import Scrap.Shard.Generations
import Scrap.Shard.Rejected
import Scrap.Shard.ReplicatedAppend

namespace Scrap

open Block Fallible Function

/-! ## Calls -/

inductive CallReturn where
  /-- the result of an earlier write, of the record that the duplicate check found -/
  | duplicate (req : WriteRequest) (existing : IndexEntry) (result : WriteResult)
  /-- the result of the call's own write -/
  | written (a : WriteAttempt)
  | failed
deriving DecidableEq

inductive CallStage where
  | idle
  /-- before the lock of the write order -/
  | queued (req : WriteRequest)
  | admitted (req : WriteRequest)
  /-- the Frames are written; the replication is next -/
  | appended (a : WriteAttempt)
  /-- the waiter is in the table; the command is marshalled next -/
  | registered (a : WriteAttempt)
  /-- inside of `Propose` -/
  | proposing (a : WriteAttempt)
  | waiting (a : WriteAttempt)
  | returned (r : CallReturn)
deriving DecidableEq

/-- The attempt of a call whose waiter was registered and that has not returned. -/
def CallStage.listens : CallStage → Option WriteAttempt
  | .registered a => some a
  | .proposing a => some a
  | .waiting a => some a
  | _ => none

/-- The attempt of a call that has not returned without it. -/
def CallStage.attempt : CallStage → Option WriteAttempt
  | .appended a => some a
  | .registered a => some a
  | .proposing a => some a
  | .waiting a => some a
  | .returned (.written a) => some a
  | _ => none

def CallStage.early : CallStage → Bool
  | .idle | .queued _ | .admitted _ | .appended _ => true
  | _ => false

def CallStage.unnamed : CallStage → Bool
  | .idle | .queued _ | .admitted _ => true
  | _ => false

structure AppliedCommit where
  doc : CommitDocument
  outcome : Except ShardErr Unit

/-- The calls of a Member. Call `k` makes channel `k`. -/
structure WriteCalls where
  shard : Shard
  /-- `requireWritableLeader` passes -/
  writable : Bool
  /-- the call that holds `writeOrderMu` -/
  writeOrder : Option Nat
  calls : Nat → CallStage
  /-- the proposal IDs that calls have taken -/
  ids : Nat → Option String
  /-- the commands that calls have given to `Propose` -/
  proposed : List (Nat × CommitDocument)
  /-- the CommitDocument entries applied so far -/
  applied : List AppliedCommit
  /-- the commands whose outcome was sent, with the channel -/
  sent : List (Nat × CommitDocument)
  /-- an apply has found the slot of its channel taken -/
  blocked : Bool

def WriteCalls.start (s : Shard) : WriteCalls :=
  ⟨{ s with proposals := fun _ => none, channels := fun _ => none }, false, none, fun _ => .idle,
    fun _ => none, [], [], [], false⟩

/-- How `Propose` returns. After a context error the command may still be committed. -/
inductive ProposeResult where
  | ok
  | contextDone
  | refused
deriving DecidableEq

inductive CallEvent where
  | leadership (writable : Bool)
  /-- anything else that happens to the Shard -/
  | other (s : Shard)
  | start (k : Nat) (req : WriteRequest)
  | prepare (k : Nat) (sealSize : Nat) (allowed pressure : Except ShardErr Unit)
  | append (k : Nat) (encryptor : Option Encryptor) (writeID : String) (now : Int)
  | replicated (k : Nat) (ok : Bool)
  | marshal (k : Nat) (ok : Bool)
  | proposeReturns (k : Nat) (result : ProposeResult)
  | receive (k : Nat)
  | contextDone (k : Nat)
  | apply (doc : CommitDocument) (index : UInt64)
  | applyRewrap (cmd : RewrapDocumentEnvelope) (index : UInt64)

namespace WriteCalls

def move (w : WriteCalls) (k : Nat) (stage : CallStage) : WriteCalls :=
  { w with calls := update w.calls k stage }

def withShard (w : WriteCalls) (s : Shard) : WriteCalls := { w with shard := s }

def finish (w : WriteCalls) (k : Nat) (r : CallReturn) : WriteCalls :=
  { w.move k (.returned r) with writeOrder := none }

def receiver (w : WriteCalls) (doc : CommitDocument) : Option Nat :=
  w.shard.proposals (commitProposalWaiterKey doc)

def drop (w : WriteCalls) (a : WriteAttempt) : WriteCalls :=
  w.withShard (w.shard.dropWaiter (commitProposalWaiterKey a.commitCommand))

def take (w : WriteCalls) (k : Nat) : WriteCalls :=
  w.withShard { w.shard with channels := update w.shard.channels k none }

def abort (w : WriteCalls) (a : WriteAttempt) : WriteCalls :=
  w.withShard (after (abortWriteAttempt a.prep.writeID a.startOffset) w.shard)

def applyCommit (w : WriteCalls) (doc : CommitDocument) (index : UInt64) : WriteCalls :=
  { w with
    shard := after (applyCommitDocumentCommand doc index) w.shard
    applied := ⟨doc, outcome (applyCommitDocumentCommand doc index) w.shard⟩ :: w.applied
    sent := match w.receiver doc with
      | none => w.sent
      | some ch => (ch, doc) :: w.sent
    blocked := w.blocked || (w.receiver doc).any fun ch => (w.shard.channels ch).isSome }

def step (c : Crypto) (w : WriteCalls) : CallEvent → WriteCalls
  | .leadership writable => { w with writable := writable }
  | .other s => w.withShard { s with proposals := w.shard.proposals, channels := w.shard.channels }
  | .start k req =>
    match w.calls k with
    | .idle => w.move k (.queued req)
    | _ => w
  | .prepare k sealSize allowed pressure =>
    match w.calls k, w.writeOrder with
    | .queued req, none =>
      if !w.writable then w.finish k .failed
      else
        match (admitWrite c sealSize req allowed pressure).run w.shard,
            w.shard.duplicateDocumentEntry req.txID req.docName with
        | .ok (some result) s, .ok (some d) => 
            (w.withShard s).finish k (.duplicate req d.2 result)
        | .ok none s, _ => { (w.withShard s).move k (.admitted req) with writeOrder := some k }
        | .ok _ s, _ => (w.withShard s).finish k .failed
        | .error _ s, _ => (w.withShard s).finish k .failed
    | _, _ => w
  | .append k encryptor writeID now =>
    match w.calls k with
    | .admitted req =>
      match (appendWrite c req encryptor writeID now).run w.shard with
      | .error _ s => (w.withShard s).finish k .failed
      | .ok a s =>
        { (w.withShard s).move k (.appended a) with
          ids := update w.ids k (some writeID) }
    | _ => w
  | .replicated k ok =>
    match w.calls k with
    | .appended a =>
      if ok then
        (w.withShard (w.shard.installWaiter (commitProposalWaiterKey a.commitCommand) k)).move k
          (.registered a)
      else (w.abort a).finish k .failed
    | _ => w
  | .marshal k ok =>
    match w.calls k with
    | .registered a =>
      if ok then
        { w.move k (.proposing a) with proposed := (k, a.commitCommand) :: w.proposed }
      else ((w.drop a).abort a).finish k .failed
    | _ => w
  | .proposeReturns k result =>
    match w.calls k with
    | .proposing a =>
      match result with
      | .ok => w.move k (.waiting a)
      | .contextDone => (w.drop a).finish k .failed
      | .refused => ((w.drop a).abort a).finish k .failed
    | _ => w
  | .receive k =>
    match w.calls k with
    | .waiting a =>
      match w.shard.channels k with
      | none => w
      | some none =>
        let w' := w.take k
        (w'.withShard (w'.shard.complete a)).finish k (.written a)
      | some (some err) =>
        let w' := w.take k
        (w'.withShard (after (resolveCommitApplyFailure a err) w'.shard)).finish k .failed
    | _ => w
  | .contextDone k =>
    match w.calls k with
    | .waiting a => (w.drop a).finish k .failed
    | _ => w
  | .apply doc index => w.applyCommit doc index
  | .applyRewrap cmd index =>
    w.withShard (after (applyRewrapDocumentEnvelopeCommand c cmd index) w.shard)

end WriteCalls

def CallEvent.run (c : Crypto) (event : CallEvent) : EStateM ShardErr WriteCalls Unit :=
  modify fun w => w.step c event

/-- A call takes a proposal ID that no other has, and an entry with the ID of a call is the command
it proposed. -/
def CallEvent.UniqueID (w : WriteCalls) : CallEvent → Prop
  | .append _ _ writeID _ => writeID ≠ "" ∧ ∀ k, w.ids k ≠ some writeID
  | .apply doc _ => doc.proposalID ≠ "" ∧ ∀ k, w.ids k = some doc.proposalID → (k, doc) ∈ w.proposed
  | _ => True

/-! ## What touches the table of waiters -/

/-- The waiters and their channels are those of `s`. -/
structure Shard.SameWaiters (s t : Shard) : Prop where
  proposals : t.proposals = s.proposals
  channels : t.channels = s.channels

variable {st stage : CallStage} {doc : CommitDocument} {c : Crypto} {a : WriteAttempt}
  {req : WriteRequest}

section Frames

variable {s t : Shard}

theorem Shard.SameWaiters.streamClosed (s : Shard) (b : UInt64) :
    Shard.StreamClosed b s.SameWaiters where
  noWriter h := ⟨h.proposals, h.channels⟩
  preps h _ := ⟨h.proposals, h.channels⟩
  withPending h _ := ⟨h.proposals, h.channels⟩
  writeBlk h _ _ _ _ := ⟨h.proposals, h.channels⟩
  repair h _ _ _ := ⟨h.proposals, h.channels⟩
  withWriter h _ _ := ⟨h.proposals, h.channels⟩

theorem Shard.SameWaiters.refl (s : Shard) : s.SameWaiters s := ⟨rfl, rfl⟩

theorem abortWriteAttempt_waiters (s : Shard) (writeID : String) (offset : Nat) :
    s.SameWaiters (after (abortWriteAttempt writeID offset) s) :=
  keeps_of_closed (fun b => abortWriteAttempt_closed (Shard.SameWaiters.streamClosed s b).writesTo
    (fun _ h => h.2) writeID offset) s (.refl s)

theorem appendWrite_waiters (c : Crypto) (s : Shard) (req : WriteRequest)
    (encryptor : Option Encryptor) (writeID : String) (now : Int) :
    s.SameWaiters (after (appendWrite c req encryptor writeID now) s) :=
  keeps_of_closed (fun b => appendWrite_closed (Shard.SameWaiters.streamClosed s b).writesTo c
    (fun _ h => h.2) req encryptor writeID now) s (.refl s)

theorem admitWrite_waiters (c : Crypto) (s : Shard) (sealSize : Nat) (req : WriteRequest)
    (allowed pressure : Except ShardErr Unit) :
    s.SameWaiters (after (admitWrite c sealSize req allowed pressure) s) := by
  rcases after_admitWrite_cases c s sealSize req allowed pressure with hsame | ⟨hnew, -⟩
  · exact hsame.symm ▸ .refl s
  · exact hnew.symm ▸ ⟨rfl, rfl⟩

theorem resolveCommitApplyFailure_waiters (s : Shard) (a : WriteAttempt) (err : ShardErr) :
    s.SameWaiters (after (resolveCommitApplyFailure a err) s) := by
  unfold resolveCommitApplyFailure
  split
  · exact abortWriteAttempt_waiters s _ _
  · exact ⟨rfl, rfl⟩

theorem admitWrite_duplicate {sealSize : Nat} {allowed pressure : Except ShardErr Unit}
    {result : WriteResult} {d : UInt64 × IndexEntry}
    (h : (admitWrite c sealSize req allowed pressure).run s = .ok (some result) t)
    (hd : s.duplicateDocumentEntry req.txID req.docName = .ok (some d)) :
    classifyDuplicateDocumentWrite c req d.2 = .ok result := by
  unfold admitWrite at h
  rw [get_bind] at h
  simp only [hd] at h
  cases allowed with
  | error err => cases h
  | ok u => ?_
  cases hcls : classifyDuplicateDocumentWrite c req d.2 with
  | error err =>
    rw [hcls] at h
    cases h
  | ok r =>
    rw [hcls] at h
    cases h
    rfl

theorem applyRewrapDocumentEnvelopeCommand_wakes (c : Crypto) (s : Shard)
    (cmd : RewrapDocumentEnvelope) (i : UInt64) :
    ∃ r, after (applyRewrapDocumentEnvelopeCommand c cmd i) s =
      (after (applyRewrapDocumentEnvelope c cmd (rewrapUploadGeneration cmd i)) s).wake
        (rewrapProposalKey cmd.proposalID cmd.transactionID cmd.documentName) r := by
  unfold after
  rw [applyRewrapDocumentEnvelopeCommand_run]
  cases (applyRewrapDocumentEnvelope c cmd (rewrapUploadGeneration cmd i)).run s with
  | ok u t => exact ⟨none, rfl⟩
  | error err t => cases err <;> exact ⟨_, rfl⟩

theorem appendWrite_writeID {encryptor : Option Encryptor} {writeID : String} {now : Int}
    (h : (appendWrite c req encryptor writeID now).run s = .ok a t) : a.prep.writeID = writeID := by
  have hrun := h
  rw [appendWrite, get_bind] at hrun
  cases hw : s.blockWriter with
  | none =>
    rw [hw] at hrun
    cases hrun
  | some w =>
    simp only [hw] at hrun
    cases hf : (s.blocks w.blockID).blk with
    | none =>
      rw [hf] at hrun
      cases hrun
    | some f =>
      obtain ⟨result, envelope, w', f', -, rfl, -⟩ := appendWrite_result hw hf h
      rfl

end Frames

/-! ## The invariant -/

def WriteAttempt.waiterKey (a : WriteAttempt) : String := commitProposalWaiterKey a.commitCommand

structure WriteCalls.Stands (w : WriteCalls) (k : Nat) (stage : CallStage) : Prop where
  early : stage.early = true → w.shard.channels k = none ∧ k ∉ w.sent.map Prod.fst
  /-- what is in the channel of a call is the outcome of its own command -/
  filled : ∀ a r, stage.listens = some a → w.shard.channels k = some r →
    ∃ e ∈ w.applied, e.doc = a.commitCommand ∧ reported e.outcome = r
  named : ∀ a, stage.attempt = some a → w.ids k = some a.prep.writeID
  unnamed : stage.unnamed = true → w.ids k = none
  proposed : ∀ doc, (k, doc) ∈ w.proposed → w.ids k = some doc.proposalID ∧
    ∀ a, stage.attempt = some a → doc = a.commitCommand
  written : ∀ a, stage = .returned (.written a) →
    ∃ e ∈ w.applied, e.doc = a.commitCommand ∧ e.outcome = .ok ()

structure WriteCalls.Sound (w : WriteCalls) : Prop where
  call : ∀ k, w.Stands k (w.calls k)
  /-- whoever is in the table listens, and nothing was sent to it -/
  waiter : ∀ key k, w.shard.proposals key = some k → ∃ a, (w.calls k).listens = some a ∧
    key = a.waiterKey ∧ w.shard.channels k = none ∧ k ∉ w.sent.map Prod.fst
  unique : ∀ j k id, w.ids j = some id → w.ids k = some id → j = k
  nonempty : ∀ k id, w.ids k = some id → id ≠ ""
  own : ∀ k doc, (k, doc) ∈ w.sent → (k, doc) ∈ w.proposed
  once : (w.sent.map Prod.fst).Nodup
  unblocked : w.blocked = false

theorem CallStage.attempt_of_listens (h : st.listens = some a) :
    st.attempt = some a := by
  cases st <;> first | exact h | cases h

theorem CallStage.not_early_of_listens (h : st.listens = some a) : st.early = false := by
  cases st <;> first | rfl | cases h

theorem CallStage.not_unnamed_of_listens (h : st.listens = some a) : st.unnamed = false := by
  cases st <;> first | rfl | cases h

theorem CallStage.of_unnamed (h : st.unnamed = true) :
    st.early = true ∧ st.listens = none ∧ st.attempt = none := by
  cases st <;> simp_all [CallStage.unnamed, CallStage.early, CallStage.listens, CallStage.attempt]

section Keys

theorem commitProposalWaiterKey_inj {doc' : CommitDocument} (hne : doc.proposalID ≠ "")
    (hne' : doc'.proposalID ≠ "") (h : commitProposalWaiterKey doc = commitProposalWaiterKey doc') :
    doc.proposalID = doc'.proposalID := by
  rw [commitProposalWaiterKey, commitProposalWaiterKey, if_pos hne, if_pos hne'] at h
  exact (String.append_right_inj _).mp h

/-- No rewrap waits under the key of a write: the first letters differ. -/
theorem rewrapProposalKey_ne_commit (hne : doc.proposalID ≠ "") (proposalID txID docName : String) :
    rewrapProposalKey proposalID txID docName ≠ commitProposalWaiterKey doc := by
  intro h
  have hlist := congrArg String.toList h
  rw [commitProposalWaiterKey, rewrapProposalKey] at hlist
  split at hlist <;> simp [String.toList_append] at hlist

end Keys

namespace WriteCalls.Sound

variable {w : WriteCalls} {k : Nat}

theorem withShard (h : w.Sound) {t : Shard} (ht : w.shard.SameWaiters t) : (w.withShard t).Sound :=
  { h with
    call := fun k => { h.call k with
      early := fun hk => ⟨(congrFun ht.channels k).trans ((h.call k).early hk).1,
        ((h.call k).early hk).2⟩
      filled := fun a r hl hr => (h.call k).filled a r hl ((congrFun ht.channels k).symm.trans hr) }
    waiter := fun key k hk => by
      obtain ⟨a, hl, hkey, hch, hsent⟩ := h.waiter key k (ht.proposals ▸ hk)
      exact ⟨a, hl, hkey, (congrFun ht.channels k).trans hch, hsent⟩ }

theorem gone_of_deaf (h : w.Sound) (hk : (w.calls k).listens = none) (key : String) :
    w.shard.proposals key ≠ some k := by
  intro hkey
  obtain ⟨a, ha, -⟩ := h.waiter key k hkey
  rw [hk] at ha
  cases ha

theorem gone_of_filled (h : w.Sound) {r : Option ShardErr} (hr : w.shard.channels k = some r)
    (key : String) : w.shard.proposals key ≠ some k := by
  intro hkey
  obtain ⟨-, -, -, hch, -⟩ := h.waiter key k hkey
  rw [hch] at hr
  cases hr

/-- A call goes on to another stage. If it has a waiter, it listens as before. -/
theorem move (h : w.Sound) (hk : w.Stands k stage)
    (hwaits : ∀ key, w.shard.proposals key = some k → stage.listens = (w.calls k).listens) :
    (w.move k stage).Sound :=
  { h with
    call := (Function.forall_update_iff _ (w.move k stage).Stands).mpr
      ⟨{ hk with }, fun j _ => { h.call j with }⟩
    waiter := fun key j hj => by
      obtain ⟨a, hl, hrest⟩ := h.waiter key j hj
      refine ⟨a, ?_, hrest⟩
      by_cases hjk : j = k
      · subst hjk
        rw [show (w.move j stage).calls j = stage from update_self .., hwaits key hj, hl]
      · rw [show (w.move k stage).calls j = w.calls j from update_of_ne hjk .., hl] }

/-- The call returns, without a waiter, and with a success of its own only if its entry was applied.
-/
theorem finish (h : w.Sound) (hgone : ∀ key, w.shard.proposals key ≠ some k) {r : CallReturn}
    (hr : ∀ a, r = .written a → (w.calls k).attempt = some a ∧
      ∃ e ∈ w.applied, e.doc = a.commitCommand ∧ e.outcome = .ok ()) : (w.finish k r).Sound := by
  have hattempt : ∀ a, (CallStage.returned r).attempt = some a → (w.calls k).attempt = some a := by
    intro a ha
    cases r with
    | written b =>
      obtain rfl := Option.some.inj ha
      exact (hr b rfl).1
    | duplicate req e res => cases ha
    | failed => cases ha
  have hstands : w.Stands k (.returned r) := {
    early := nofun
    filled := fun _ _ h => nomatch h
    named := fun a ha => (h.call k).named a (hattempt a ha)
    unnamed := nofun
    proposed := fun doc hm => ⟨((h.call k).proposed doc hm).1, fun a ha =>
      ((h.call k).proposed doc hm).2 a (hattempt a ha)⟩
    written := fun a ha => (hr a (CallStage.returned.inj ha)).2 }
  have hmoved := h.move hstands fun key hk => absurd hk (hgone key)
  exact { hmoved with call := fun j => { hmoved.call j with } }

theorem fail (h : w.Sound) (hgone : ∀ key, w.shard.proposals key ≠ some k) :
    (w.finish k .failed).Sound := h.finish hgone nofun

theorem gone_of_unnamed (h : w.Sound) (hk : (w.calls k).unnamed = true) (key : String) :
    w.shard.proposals key ≠ some k := h.gone_of_deaf (CallStage.of_unnamed hk).2.1 key

theorem advance (h : w.Sound) (hk : (w.calls k).unnamed = true) (hst : stage.unnamed = true) :
    (w.move k stage).Sound := by
  have hcall := h.call k
  have hnone : w.ids k = none := hcall.unnamed hk
  obtain ⟨-, hdeaf, hfree⟩ := CallStage.of_unnamed hst
  refine h.move ?_ fun key hkey => absurd hkey (h.gone_of_unnamed hk key)
  exact {
    early := fun _ => hcall.early (CallStage.of_unnamed hk).1
    filled := fun a r hl => absurd (hdeaf.symm.trans hl) (by simp)
    named := fun a ha => absurd (hfree.symm.trans ha) (by simp)
    unnamed := fun _ => hnone
    proposed := fun doc hm => absurd (hnone.symm.trans (hcall.proposed doc hm).1) (by simp)
    written := fun a hw => by rw [hw] at hst; cases hst }

theorem drop (h : w.Sound) (a : WriteAttempt) : (w.drop a).Sound :=
  { h with
    call := fun k => { h.call k with }
    waiter := fun key k hk => by
      by_cases hkey : key = a.waiterKey
      · subst hkey
        exact absurd hk (by simp [WriteCalls.drop, WriteCalls.withShard, Shard.dropWaiter,
          WriteAttempt.waiterKey])
      · exact h.waiter key k ((update_of_ne hkey ..).symm.trans hk) }

/-- Behind `drop` the call has no waiter: it had the one of its own key. -/
theorem gone_of_drop (h : w.Sound) (ha : (w.calls k).listens = some a) (key : String) :
    (w.drop a).shard.proposals key ≠ some k := by
  intro hk
  obtain ⟨b, hb, rfl, -⟩ := (h.drop a).waiter key k hk
  obtain rfl : b = a := Option.some.inj (hb.symm.trans ha)
  simp [WriteCalls.drop, WriteCalls.withShard, Shard.dropWaiter, WriteAttempt.waiterKey] at hk

/-- A listening call gives up: its waiter goes, whatever else it does to the Shard. -/
theorem giveUp (h : w.Sound) (ha : (w.calls k).listens = some a) {t : Shard}
    (ht : (w.drop a).shard.SameWaiters t) : (((w.drop a).withShard t).finish k .failed).Sound := by
  apply ((h.drop a).withShard ht).fail
  intro key hkey
  exact h.gone_of_drop ha key (ht.proposals ▸ hkey)

theorem take (h : w.Sound) (k : Nat) : (w.take k).Sound := by
  have hchannel : ∀ j, (w.take k).shard.channels j = if j = k then none else w.shard.channels j :=
    update_apply _ _ _
  have hempty : ∀ j, w.shard.channels j = none → (w.take k).shard.channels j = none := by
    intro j hj
    rw [hchannel, hj, ite_self]
  have hfull : ∀ j r, (w.take k).shard.channels j = some r → w.shard.channels j = some r := by
    intro j r hr
    rw [hchannel] at hr
    split at hr
    · cases hr
    · exact hr
  refine { h with
    call := fun j => { h.call j with
      early := fun he => ⟨hempty j ((h.call j).early he).1, ((h.call j).early he).2⟩
      filled := fun a r hl hr => (h.call j).filled a r hl (hfull j r hr) }
    waiter := fun key j hj => ?_ }
  obtain ⟨a, hl, hkey, hch, hsent⟩ := h.waiter key j hj
  exact ⟨a, hl, hkey, hempty j hch, hsent⟩

theorem install (h : w.Sound) (ha : (w.calls k).listens = some a) (hch : w.shard.channels k = none)
    (hsent : k ∉ w.sent.map Prod.fst) :
    (w.withShard (w.shard.installWaiter a.waiterKey k)).Sound :=
  { h with
    call := fun j => { h.call j with }
    waiter := fun key j hj => by
      by_cases hkey : key = a.waiterKey
      · subst hkey
        have hself : (w.shard.installWaiter a.waiterKey k).proposals a.waiterKey = some k :=
          update_self ..
        obtain rfl : k = j := Option.some.inj (hself.symm.trans hj)
        exact ⟨a, ha, rfl, hch, hsent⟩
      · exact h.waiter key j ((update_of_ne hkey ..).symm.trans hj) }

theorem register (h : w.Sound) (hk : w.calls k = .appended a) :
    ((w.withShard (w.shard.installWaiter a.waiterKey k)).move k (.registered a)).Sound := by
  have hcall := h.call k
  rw [hk] at hcall
  obtain ⟨hch, hsent⟩ := hcall.early rfl
  have hstands : w.Stands k (.registered a) := {
    early := nofun
    filled := fun _ _ _ hr => nomatch hch.symm.trans hr
    named := hcall.named
    unnamed := nofun
    proposed := hcall.proposed
    written := fun _ hw => nomatch hw }
  have hmoved := h.move hstands fun key hkey => absurd hkey (h.gone_of_deaf (by rw [hk]; rfl) key)
  have hlistens : ((w.move k (.registered a)).calls k).listens = some a := by
    rw [show (w.move k (.registered a)).calls k = .registered a from update_self ..]
    rfl
  exact hmoved.install hlistens hch hsent

theorem name (h : w.Sound) (hk : w.calls k = .admitted req) (hne : a.prep.writeID ≠ "")
    (hnew : ∀ j, w.ids j ≠ some a.prep.writeID) :
    WriteCalls.Sound { w.move k (.appended a) with
      ids := update w.ids k (some a.prep.writeID) } := by
  have hcall := h.call k
  rw [hk] at hcall
  have hself : update w.ids k (some a.prep.writeID) k = some a.prep.writeID := update_self ..
  have hid : ∀ j id, update w.ids k (some a.prep.writeID) j = some id →
      (j = k ∧ id = a.prep.writeID) ∨ w.ids j = some id := by
    intro j id hj
    by_cases hjk : j = k
    · subst hjk
      exact .inl ⟨rfl, (Option.some.inj (hself.symm.trans hj)).symm⟩
    · exact .inr ((update_of_ne hjk ..).symm.trans hj)
  -- without an ID, the call has proposed nothing
  have hnothing : ∀ doc, (k, doc) ∉ w.proposed := fun doc hm =>
    nomatch (hcall.unnamed rfl).symm.trans (hcall.proposed doc hm).1
  refine ⟨fun j => ?_, fun key j hj => ?_, fun i j id hi hj => ?_, fun j id hj => ?_, h.own, h.once,
    h.unblocked⟩
  · by_cases hjk : j = k
    · subst hjk
      simp only [WriteCalls.move, update_self]
      exact {
        early := fun _ => hcall.early rfl
        filled := fun _ _ h => nomatch h
        named := fun b hb => by rw [← Option.some.inj hb]; exact hself
        unnamed := nofun
        proposed := fun doc hm => absurd hm (hnothing doc)
        written := fun _ hw => nomatch hw }
    · have hj := h.call j
      have hsame : update w.ids k (some a.prep.writeID) j = w.ids j := update_of_ne hjk ..
      simp only [WriteCalls.move, update_of_ne hjk]
      exact ⟨hj.early, hj.filled, fun b hb => hsame.trans (hj.named b hb),
        fun hu => hsame.trans (hj.unnamed hu),
        fun doc hm => ⟨hsame.trans (hj.proposed doc hm).1, (hj.proposed doc hm).2⟩, hj.written⟩
  · obtain ⟨b, hl, hrest⟩ := h.waiter key j hj
    have hjk : j ≠ k := fun hjk => h.gone_of_deaf (by rw [hk]; rfl) key (hjk ▸ hj)
    refine ⟨b, ?_, hrest⟩
    rw [← hl]
    exact congrArg CallStage.listens (update_of_ne hjk ..)
  · rcases hid i id hi with ⟨rfl, rfl⟩ | hi'
    · rcases hid j _ hj with ⟨rfl, -⟩ | hj'
      · rfl
      · exact absurd hj' (hnew j)
    · rcases hid j id hj with ⟨-, rfl⟩ | hj'
      · exact absurd hi' (hnew i)
      · exact h.unique i j id hi' hj'
  · rcases hid j id hj with ⟨-, rfl⟩ | hj'
    · exact hne
    · exact h.nonempty j id hj'

theorem goOn (h : w.Sound) (hk : (w.calls k).listens = some a) (hst : stage.listens = some a) :
    (w.move k stage).Sound := by
  have hcall := h.call k
  have hatt := CallStage.attempt_of_listens hk
  refine h.move ?_ fun _ _ => hst.trans hk.symm
  have hsame : ∀ b, stage.attempt = some b → (w.calls k).attempt = some b := by
    intro b hb
    rw [CallStage.attempt_of_listens hst] at hb
    rw [hatt, hb]
  exact {
    early := fun he => nomatch (CallStage.not_early_of_listens hst).symm.trans he
    filled := fun b r hl hr => hcall.filled b r (hk.trans (hst.symm.trans hl)) hr
    named := fun b hb => hcall.named b (hsame b hb)
    unnamed := fun hu => nomatch (CallStage.not_unnamed_of_listens hst).symm.trans hu
    proposed := fun doc hm => ⟨(hcall.proposed doc hm).1, fun b hb =>
      (hcall.proposed doc hm).2 b (hsame b hb)⟩
    written := fun b hw => by rw [hw] at hst; cases hst }

theorem propose (h : w.Sound) (hk : (w.calls k).listens = some a) :
    WriteCalls.Sound { w with proposed := (k, a.commitCommand) :: w.proposed } := by
  have hatt := CallStage.attempt_of_listens hk
  refine { h with
    call := fun j => { h.call j with proposed := fun doc hm => ?_ }
    own := fun j doc hm => List.mem_cons_of_mem _ (h.own j doc hm) }
  have hj := h.call j
  rcases List.mem_cons.mp hm with heq | hm
  · cases heq
    refine ⟨hj.named a hatt, fun b hb => ?_⟩
    rw [Option.some.inj (hb.symm.trans hatt)]
  · exact hj.proposed doc hm

/-- Who receives the outcome of a command is the call that proposed it. -/
theorem receiver_own (h : w.Sound) (hne : doc.proposalID ≠ "")
    (hown : ∀ k, w.ids k = some doc.proposalID → (k, doc) ∈ w.proposed)
    (hl : (w.calls k).listens = some a) (hkey : commitProposalWaiterKey doc = a.waiterKey) :
    (k, doc) ∈ w.proposed ∧ doc = a.commitCommand := by
  have hatt := CallStage.attempt_of_listens hl
  have hnamed := (h.call k).named a hatt
  have hid : doc.proposalID = a.commitCommand.proposalID :=
    commitProposalWaiterKey_inj hne (h.nonempty k _ hnamed) hkey
  have hmem : (k, doc) ∈ w.proposed := hown k (hid ▸ hnamed)
  exact ⟨hmem, ((h.call k).proposed doc hmem).2 a hatt⟩

/-- The outcome of a command is sent to the waiter under its key, if there is one. -/
theorem deliver (h : w.Sound) (hne : doc.proposalID ≠ "")
    (hown : ∀ k, w.ids k = some doc.proposalID → (k, doc) ∈ w.proposed) (r : Except ShardErr Unit) :
    WriteCalls.Sound { w with
      shard := w.shard.wake (commitProposalWaiterKey doc) (reported r)
      applied := ⟨doc, r⟩ :: w.applied
      sent := match w.receiver doc with
        | none => w.sent
        | some ch => (ch, doc) :: w.sent
      blocked := w.blocked || (w.receiver doc).any fun ch => (w.shard.channels ch).isSome } := by
  have hmore : ∀ {P : AppliedCommit → Prop}, (∃ e ∈ w.applied, P e) →
      ∃ e ∈ (⟨doc, r⟩ : AppliedCommit) :: w.applied, P e := by
    rintro P ⟨e, he, hP⟩
    exact ⟨e, List.mem_cons_of_mem _ he, hP⟩
  cases hrec : w.shard.proposals (commitProposalWaiterKey doc) with
  | none =>
    have hwake : w.shard.wake (commitProposalWaiterKey doc) (reported r) = w.shard := by
      simp only [Shard.wake, hrec]
    simp only [WriteCalls.receiver, hrec, hwake]
    exact { h with
      call := fun j => { h.call j with
        filled := fun a x hl hx => hmore ((h.call j).filled a x hl hx)
        written := fun a ha => hmore ((h.call j).written a ha) }
      unblocked := by simp [h.unblocked] }
  | some ch =>
    obtain ⟨a, hl, hkey, hch, hsent⟩ := h.waiter _ ch hrec
    obtain ⟨hmem, hdoc⟩ := h.receiver_own hne hown hl hkey
    have hwake : w.shard.wake (commitProposalWaiterKey doc) (reported r) = { w.shard with
          proposals := update w.shard.proposals (commitProposalWaiterKey doc) none
          channels := update w.shard.channels ch (some (reported r)) } := by
      simp only [Shard.wake, hrec]
    have hself : update w.shard.channels ch (some (reported r)) ch =
        some (reported r) := update_self ..
    simp only [WriteCalls.receiver, hrec, hwake]
    refine ⟨fun j => ?_, fun key j hj => ?_, h.unique, h.nonempty, fun j doc' hm => ?_, ?_, ?_⟩
    · have hj := h.call j
      refine ⟨fun he => ?_, fun b x hb hx => ?_, hj.named, hj.unnamed, hj.proposed,
        fun b hb => hmore (hj.written b hb)⟩
      · have hjne : j ≠ ch := by
          rintro rfl
          cases (CallStage.not_early_of_listens hl).symm.trans he
        refine ⟨(update_of_ne hjne ..).trans (hj.early he).1, ?_⟩
        simpa [hjne] using (hj.early he).2
      · by_cases hjch : j = ch
        · subst hjch
          obtain rfl : b = a := Option.some.inj (hb.symm.trans hl)
          exact ⟨⟨doc, r⟩, List.mem_cons_self, hdoc, Option.some.inj (hself.symm.trans hx)⟩
        · exact hmore (hj.filled b x hb ((update_of_ne hjch ..).symm.trans hx))
    · have hkeyne : key ≠ commitProposalWaiterKey doc := by
        rintro rfl
        simp at hj
      obtain ⟨b, hb, rfl, hjch, hjsent⟩ := h.waiter key j ((update_of_ne hkeyne ..).symm.trans hj)
      have hjne : j ≠ ch := by
        rintro rfl
        obtain rfl : b = a := Option.some.inj (hb.symm.trans hl)
        exact hkeyne hkey.symm
      refine ⟨b, hb, rfl, (update_of_ne hjne ..).trans hjch, ?_⟩
      simpa [hjne] using hjsent
    · rcases List.mem_cons.mp hm with heq | hm
      · cases heq
        exact hmem
      · exact h.own j doc' hm
    · rw [List.map_cons, List.nodup_cons]
      exact ⟨hsent, h.once⟩
    · simp [h.unblocked, hch]

theorem applyCommit (h : w.Sound) {index : UInt64} (hne : doc.proposalID ≠ "")
    (hown : ∀ k, w.ids k = some doc.proposalID → (k, doc) ∈ w.proposed) :
    (w.applyCommit doc index).Sound := by
  have hframe := applyCommitDocument_indexOnly w.shard doc index
  have hsame : w.shard.SameWaiters (after (applyCommitDocument doc index) w.shard) :=
    ⟨hframe.proposals, hframe.channels⟩
  have hsent := (h.withShard hsame).deliver hne hown
    (outcome (applyCommitDocument doc index) w.shard)
  unfold WriteCalls.applyCommit
  rw [applyCommitDocumentCommand_after, applyCommitDocumentCommand_outcome]
  simp only [WriteCalls.receiver, WriteCalls.withShard, hsame.proposals, hsame.channels] at hsent ⊢
  exact hsent

theorem applyRewrap (h : w.Sound) (c : Crypto) (cmd : RewrapDocumentEnvelope) (index : UInt64) :
    (w.withShard (after (applyRewrapDocumentEnvelopeCommand c cmd index) w.shard)).Sound := by
  have hframe := applyRewrapDocumentEnvelope_indexOnly w.shard c cmd
    (rewrapUploadGeneration cmd index)
  have hkey : w.shard.proposals (rewrapProposalKey cmd.proposalID cmd.transactionID
      cmd.documentName) = none := by
    cases hp : w.shard.proposals (rewrapProposalKey cmd.proposalID cmd.transactionID
        cmd.documentName) with
    | none => rfl
    | some k =>
      obtain ⟨a, hl, hkey, -⟩ := h.waiter _ k hp
      have hne := h.nonempty k _ ((h.call k).named a (CallStage.attempt_of_listens hl))
      exact absurd hkey (rewrapProposalKey_ne_commit hne _ _ _)
  obtain ⟨r, hafter⟩ := applyRewrapDocumentEnvelopeCommand_wakes c w.shard cmd index
  rw [hafter, Shard.wake, hframe.proposals, hkey]
  exact h.withShard ⟨hframe.proposals, hframe.channels⟩

end WriteCalls.Sound

/-! ## Runs -/

section Runs

variable {c : Crypto} {w : WriteCalls}

theorem reported_eq_none {r : Except ShardErr Unit} (h : reported r = none) : r = .ok () := by
  cases r with
  | ok u => rfl
  | error err => cases h

namespace WriteCalls

theorem Sound.prepare_sound (h : w.Sound) (k sealSize : Nat)
    (allowed pressure : Except ShardErr Unit) :
    (w.step c (.prepare k sealSize allowed pressure)).Sound := by
  simp only [step]
  split
  next req hk hfree =>
    have hunnamed : (w.calls k).unnamed = true := by rw [hk]; rfl
    split
    · exact h.fail (h.gone_of_unnamed hunnamed)
    have hsame := admitWrite_waiters c w.shard sealSize req allowed pressure
    have hfail : ∀ {t}, w.shard.SameWaiters t → ((w.withShard t).finish k .failed).Sound :=
      fun ht => (h.withShard ht).fail ((h.withShard ht).gone_of_unnamed hunnamed)
    unfold after at hsame
    cases hrun : (admitWrite c sealSize req allowed pressure).run w.shard with
    | error err t =>
      rw [hrun] at hsame
      exact hfail hsame
    | ok r t =>
      rw [hrun] at hsame
      cases r with
      | none =>
        have hmoved : ((w.withShard t).move k (.admitted req)).Sound :=
          (h.withShard hsame).advance hunnamed rfl
        exact { hmoved with call := fun j => { hmoved.call j with } }
      | some result =>
        cases w.shard.duplicateDocumentEntry req.txID req.docName with
        | error err => exact hfail hsame
        | ok d => ?_
        cases d with
        | none => exact hfail hsame
        | some d =>
          exact (h.withShard hsame).finish
            ((h.withShard hsame).gone_of_unnamed hunnamed) nofun
  next => exact h

theorem Sound.append_sound (h : w.Sound) (k : Nat) (encryptor : Option Encryptor)
    {writeID : String} (now : Int) (hne : writeID ≠ "") (hnew : ∀ j, w.ids j ≠ some writeID) :
    (w.step c (.append k encryptor writeID now)).Sound := by
  simp only [step]
  split
  next req hk =>
    have hsame := appendWrite_waiters c w.shard req encryptor writeID now
    unfold after at hsame
    split
    next err t hrun =>
      rw [hrun] at hsame
      exact (h.withShard hsame).fail
        ((h.withShard hsame).gone_of_unnamed (show (w.calls k).unnamed = true by rw [hk]; rfl))
    next a t hrun =>
      rw [hrun] at hsame
      obtain rfl := appendWrite_writeID hrun
      exact (h.withShard hsame).name hk hne hnew
  next => exact h

theorem Sound.receive_sound (h : w.Sound) (k : Nat) : (w.step c (.receive k)).Sound := by
  simp only [step]
  split
  next a hk =>
    have hl : (w.calls k).listens = some a := by rw [hk]; rfl
    split
    next => exact h
    next hch =>
      have hsame : (w.take k).shard.SameWaiters ((w.take k).shard.complete a) := ⟨rfl, rfl⟩
      refine ((h.take k).withShard hsame).finish (fun key => h.gone_of_filled hch key) fun b hb => ?_
      obtain rfl := CallReturn.written.inj hb
      refine ⟨CallStage.attempt_of_listens hl, ?_⟩
      obtain ⟨e, he, hdoc, hout⟩ := (h.call k).filled a none hl hch
      exact ⟨e, he, hdoc, reported_eq_none hout⟩
    next err hch =>
      have hsame := resolveCommitApplyFailure_waiters (w.take k).shard a err
      refine ((h.take k).withShard hsame).fail fun key hkey => ?_
      exact h.gone_of_filled hch key (hsame.proposals ▸ hkey)
  next => exact h

theorem step_sound (h : w.Sound) {event : CallEvent} (hid : event.UniqueID w) :
    (w.step c event).Sound := by
  cases event with
  | leadership writable => exact { h with call := fun k => { h.call k with } }
  | other s => exact h.withShard ⟨rfl, rfl⟩
  | start k req =>
    simp only [step]
    split
    next hk => exact h.advance (by rw [hk]; rfl) rfl
    next => exact h
  | prepare k sealSize allowed pressure => exact h.prepare_sound k sealSize allowed pressure
  | append k encryptor writeID now => exact h.append_sound k encryptor now hid.1 hid.2
  | replicated k ok =>
    simp only [step]
    split
    next a hk =>
      cases ok with
      | true => exact h.register hk
      | false => ?_
      have hsame := abortWriteAttempt_waiters w.shard a.prep.writeID a.startOffset
      exact (h.withShard hsame).fail ((h.withShard hsame).gone_of_deaf
        (show (w.calls k).listens = none by rw [hk]; rfl))
    next => exact h
  | marshal k ok =>
    simp only [step]
    split
    next a hk =>
      have hl : (w.calls k).listens = some a := by rw [hk]; rfl
      cases ok with
      | true =>
        have hmoved : (w.move k (.proposing a)).Sound := h.goOn hl rfl
        exact hmoved.propose (show (update w.calls k _ k).listens = some a by rw [update_self]; rfl)
      | false => exact h.giveUp hl (abortWriteAttempt_waiters _ _ _)
    next => exact h
  | proposeReturns k result =>
    simp only [step]
    split
    next a hk =>
      have hl : (w.calls k).listens = some a := by rw [hk]; rfl
      cases result with
      | ok => exact h.goOn hl rfl
      | contextDone => exact h.giveUp hl (.refl _)
      | refused => exact h.giveUp hl (abortWriteAttempt_waiters _ _ _)
    next => exact h
  | receive k => exact h.receive_sound k
  | contextDone k =>
    simp only [step]
    split
    next a hk => exact h.giveUp (by rw [hk]; rfl) (.refl _)
    next => exact h
  | apply doc index => exact h.applyCommit hid.1 hid.2
  | applyRewrap cmd index => exact h.applyRewrap c cmd index

end WriteCalls

def CallStage.answer : CallStage → Option (WriteRequest × IndexEntry × WriteResult)
  | .returned (.duplicate req existing result) => some (req, existing, result)
  | _ => none

theorem CallStage.answer_update {calls : Nat → CallStage} {j k : Nat}
    {x : WriteRequest × IndexEntry × WriteResult} (hst : stage.answer = none)
    (h : (update calls j stage k).answer = some x) : (calls k).answer = some x := by
  by_cases hkj : k = j
  · subst hkj
    rw [update_self, hst] at h
    cases h
  · rwa [update_of_ne hkj] at h

/-- The call is next to be answered: the duplicate check finds a record with its content here. -/
structure WriteCalls.Finds (c : Crypto) (w : WriteCalls) (k : Nat)
    (x : WriteRequest × IndexEntry × WriteResult) : Prop where
  queued : w.calls k = .queued x.1
  found : ∃ b, w.shard.duplicateDocumentEntry x.1.txID x.1.docName = .ok (some (b, x.2.1))
  same : classifyDuplicateDocumentWrite c x.1 x.2.1 = .ok x.2.2

theorem WriteCalls.step_answer {event : CallEvent} {k : Nat}
    {x : WriteRequest × IndexEntry × WriteResult} (h : ((w.step c event).calls k).answer = some x) :
    (w.calls k).answer = some x ∨ w.Finds c k x := by
  cases event with
  | prepare j sealSize allowed pressure =>
    simp only [WriteCalls.step] at h
    split at h
    next req hj hfree =>
      split at h
      · exact .inl (CallStage.answer_update rfl h)
      cases hrun : (admitWrite c sealSize req allowed pressure).run w.shard with
      | error err t =>
        rw [hrun] at h
        exact .inl (CallStage.answer_update rfl h)
      | ok r t =>
        rw [hrun] at h
        cases r with
        | none => exact .inl (CallStage.answer_update rfl h)
        | some result => ?_
        cases hd : w.shard.duplicateDocumentEntry req.txID req.docName with
        | error err =>
          rw [hd] at h
          exact .inl (CallStage.answer_update rfl h)
        | ok d =>
          rw [hd] at h
          cases d with
          | none => exact .inl (CallStage.answer_update rfl h)
          | some d => ?_
          by_cases hkj : k = j
          · subst hkj
            right
            have hself : update w.calls k
                (.returned (.duplicate req d.2 result)) k =
                  .returned (.duplicate req d.2 result) := update_self ..
            obtain rfl := Option.some.inj
              ((congrArg CallStage.answer hself).symm.trans h)
            exact ⟨hj, ⟨d.1, hd⟩, admitWrite_duplicate hrun hd⟩
          · left
            rwa [← show update w.calls j _ k = w.calls k from
              update_of_ne hkj ..]
    next => exact .inl h
  | _ =>
    left
    simp only [WriteCalls.step] at h
    repeat' split at h
    all_goals first
      | exact h
      | exact CallStage.answer_update rfl h

end Runs

namespace WriteCalls

theorem start_sound (s : Shard) : (start s).Sound where
  call _ := ⟨fun _ => ⟨rfl, List.not_mem_nil⟩, (fun _ _ h => nomatch h), nofun, fun _ => rfl,
    nofun, nofun⟩
  waiter _ _ hk := nomatch hk
  unique _ _ _ hj := nomatch hj
  nonempty _ _ hk := nomatch hk
  own _ _ hm := nomatch hm
  once := List.nodup_nil
  unblocked := rfl

theorem run_sound {s : Shard} {events : List CallEvent} {w : WriteCalls}
    (hids : Meets (CallEvent.run c) (fun v event => event.UniqueID v) (start s) events)
    (hrun : (runAll (CallEvent.run c) events).run (start s) = .ok () w) : w.Sound := by
  have hstep : ∀ event v v', Sound v → CallEvent.UniqueID v event →
      (CallEvent.run c event).run v = .ok () v' → v'.Sound := by
    intro event v v' hv hid hstep
    cases hstep
    exact step_sound hv hid
  exact Meets.invariant hstep (start_sound s) hids hrun

theorem run_answer {k : Nat} {x : WriteRequest × IndexEntry × WriteResult} {w' : WriteCalls}
    (h : (w'.calls k).answer = some x) : ∀ {events : List CallEvent} {w : WriteCalls},
    (runAll (CallEvent.run c) events).run w = .ok () w' → (w.calls k).answer = some x ∨
      ∃ pre v, pre <+: events ∧ (runAll (CallEvent.run c) pre).run w = .ok () v ∧ v.Finds c k x
  | [], w, hrun => by
    cases hrun
    exact .inl h
  | event :: events, w, hrun => by
    obtain ⟨v, hstep, hrest⟩ := runAll_cons_ok.mp hrun
    rcases run_answer h hrest with hv | ⟨pre, u, hpre, hu, hfinds⟩
    · cases hstep
      exact (step_answer hv).imp_right fun hw => ⟨[], w, List.nil_prefix, rfl, hw⟩
    · exact .inr ⟨event :: pre, u, List.cons_prefix_cons.mpr ⟨rfl, hpre⟩,
        runAll_cons_ok.mpr ⟨v, hstep, hu⟩, hfinds⟩

end WriteCalls

/-- A call that proposed returns success only after its own command was applied with nil; a call
that did not was answered from a record with the same content, which the duplicate check found on
this Member while the call was queued. No channel is sent two outcomes, or that of another call's
command, and no apply finds a slot taken. -/
theorem write_returns_after_own_apply (c : Crypto) (s : Shard) {events : List CallEvent}
    {w : WriteCalls}
    (hrun : (runAll (CallEvent.run c) events).run (WriteCalls.start s) = .ok () w)
    (hids : Meets (CallEvent.run c) (fun v event => event.UniqueID v) (WriteCalls.start s) events) :
    (∀ k a, w.calls k = .returned (.written a) → w.ids k = some a.prep.writeID ∧
        ∃ e ∈ w.applied, e.doc = a.commitCommand ∧ e.outcome = .ok ()) ∧
      (∀ k req existing result, w.calls k = .returned (.duplicate req existing result) →
        classifyDuplicateDocumentWrite c req existing = .ok result ∧
        ∃ pre v, pre <+: events ∧
          (runAll (CallEvent.run c) pre).run (WriteCalls.start s) = .ok () v ∧
          v.calls k = .queued req ∧
          ∃ b, v.shard.duplicateDocumentEntry req.txID req.docName = .ok (some (b, existing))) ∧
      (w.sent.map Prod.fst).Nodup ∧
      (∀ k doc, (k, doc) ∈ w.sent → (k, doc) ∈ w.proposed ∧ w.ids k = some doc.proposalID) ∧
      w.blocked = false := by
  have h := WriteCalls.run_sound hids hrun
  refine ⟨fun k a hk => ⟨(h.call k).named a (by rw [hk]; rfl), (h.call k).written a hk⟩,
    fun k req existing result hk => ?_, h.once,
    fun k doc hm => ⟨h.own k doc hm, ((h.call k).proposed doc (h.own k doc hm)).1⟩, h.unblocked⟩
  have hanswer : (w.calls k).answer = some (req, existing, result) := by rw [hk]; rfl
  obtain hstart | ⟨pre, v, hpre, hv, hfinds⟩ := WriteCalls.run_answer hanswer hrun
  · cases hstart
  · exact ⟨hfinds.same, pre, v, hpre, hv, hfinds.queued, hfinds.found⟩

/-! ## A call that proposes nothing -/

def writeX : WriteRequest := ⟨"t", "x", "text/plain", ⟨List.replicate 8 0, false⟩⟩

def freshCalls : WriteCalls := WriteCalls.start (Shard.fresh 1 true)

/-- Call `0` proposes to write `x`, and call `1`, which is to write the same, waits for the lock. -/
def proposeX : List CallEvent :=
  [.leadership true, .start 0 writeX, .prepare 0 1000 (.ok ()) (.ok ()), .start 1 writeX,
    .append 0 none "w" 1, .prepare 1 1000 (.ok ()) (.ok ()), .replicated 0 true, .marshal 0 true]

/-- The entry is applied before `Propose` returns; then call `1` gets the lock. -/
def bothWrites : List CallEvent :=
  proposeX ++ [.apply { docOfT "x" 1 40 with proposalID := "w" } 1, .proposeReturns 0 .ok,
    .receive 0, .prepare 1 1000 (.ok ()) (.ok ())]

theorem duplicate_returns_without_entry : ∃ w,
    (runAll (CallEvent.run keylessCrypto) bothWrites).run freshCalls = .ok () w ∧
    w.calls 1 = .returned (.duplicate writeX (entryOfT "x" 40) ⟨keylessCrypto.sha256 [], 8, 1⟩) ∧
    w.ids 1 = none ∧ w.proposed.map Prod.fst = [0] := by
  refine ⟨_, outcome_ok_iff.mp ?_, ?_⟩
  · decide +kernel
  · decide +kernel

def attemptX : WriteAttempt :=
  ⟨⟨"w", "t", "x", 1, 40, "text/plain"⟩, 40, ⟨keylessCrypto.sha256 [], 8, 1, 40⟩, 1, []⟩

theorem bothWrites_unique : Meets (CallEvent.run keylessCrypto) (fun v event => event.UniqueID v)
    freshCalls bothWrites := by
  have hrun := outcome_ok_iff.mp (show outcome (runAll (CallEvent.run keylessCrypto) proposeX)
    freshCalls = .ok () by decide +kernel)
  have hids : Meets (CallEvent.run keylessCrypto) (fun v event => event.UniqueID v)
      freshCalls proposeX :=
    ⟨trivial, trivial, trivial, trivial, ⟨by decide, fun _ => nofun⟩, trivial, trivial, trivial,
      trivial⟩
  refine (meets_append hrun).mpr ⟨hids, ⟨by decide, ?_⟩, trivial, trivial, trivial, trivial⟩
  intro k hk
  -- only call `0` has this ID
  obtain rfl := (WriteCalls.run_sound hids hrun).unique k 0 "w" hk (by decide +kernel)
  decide +kernel

/-- Call `0` returns from its own apply, call `1` from the record of it. -/
theorem write_returns_after_own_apply_once : ∃ w,
    (runAll (CallEvent.run keylessCrypto) bothWrites).run freshCalls = .ok () w ∧
    w.calls 0 = .returned (.written attemptX) ∧ w.sent.map Prod.fst = [0] ∧
    (w.ids 0 = some "w" ∧ ∃ e ∈ w.applied, e.doc = attemptX.commitCommand ∧ e.outcome = .ok ()) ∧
    (∃ pre v, pre <+: bothWrites ∧
      (runAll (CallEvent.run keylessCrypto) pre).run freshCalls = .ok () v ∧
      v.calls 1 = .queued writeX ∧
      ∃ b, v.shard.duplicateDocumentEntry "t" "x" = .ok (some (b, entryOfT "x" 40))) ∧
    w.blocked = false := by
  have hrun := outcome_ok_iff.mp (show outcome (runAll (CallEvent.run keylessCrypto) bothWrites)
    freshCalls = .ok () by decide +kernel)
  have hall := write_returns_after_own_apply keylessCrypto (Shard.fresh 1 true) hrun
    bothWrites_unique
  have hcalls :
      let w := after (runAll (CallEvent.run keylessCrypto) bothWrites) freshCalls
      w.calls 0 = .returned (.written attemptX) ∧
      w.calls 1 = .returned
        (.duplicate writeX (entryOfT "x" 40) ⟨keylessCrypto.sha256 [], 8, 1⟩) := by
    decide +kernel
  exact ⟨_, hrun, hcalls.1, by decide +kernel, hall.1 0 attemptX hcalls.1,
    (hall.2.1 1 _ _ _ hcalls.2).2, hall.2.2.2.2⟩

end Scrap
