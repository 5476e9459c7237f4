/-
# The light scrub

The leader asks every Member for the hash of its Projection and lets the hashes vote. A hash held
by more than half of the CONFIGURED voters wins, and the voters that reported another are asked to
rebuild:

    runOnce            the leader's own hash; a zero hash stops the run
    collectPeerHashes  one hash per peer; not ready or zero stops the run, a peer that
                       cannot be reached is left out
    majorityHash       the votes of the leader and of the peers that answered
    applyQuorumVerdict nobody without a majority, the minority otherwise

Three loops range over Go maps; `MapOrders` is the choice of their order.
-/
import Mathlib.Data.List.Sort
import Mathlib.Data.String.Basic
import Scrap.Lib.Majority
import Scrap.Block.Idx

namespace Scrap.Scrub

open Block Majority

/-! ## The run -/

/-- How the polling of a peer ends, `checkPeerConsistency`. -/
inductive PeerOutcome where
  | hash (sha256 : Digest)
  | notReady
  | unreachable
deriving DecidableEq

inductive LightErr where
  | proposalFailed
  /-- `leader projection hash missing` -/
  | leaderHashMissing
  /-- `ErrConsistencyResultNotReady` -/
  | peerNotReady (addr : String)
  /-- `peer %s projection hash missing` -/
  | peerHashMissing (addr : String)
  /-- `no peer consistency result compared across %d peer(s)` -/
  | nothingCompared (peers : Nat)
  /-- `no projection hash majority across %d configured voter(s)` -/
  | noMajority (voters : Nat)
deriving DecidableEq

structure LightConfig where
  peerAddrs : List String
  /-- a `Rebuilder` is wired -/
  rebuilder : Bool
  /-- a `SelfRebuilder` is wired -/
  selfRebuilder : Bool
deriving DecidableEq

def LightConfig.configuredVoters (cfg : LightConfig) : Nat := 1 + cfg.peerAddrs.length

def zeroHash : Digest := ⟨List.replicate 32 0, rfl⟩

/-- `map[string][32]byte` -/
abbrev PeerHashes := AList (fun _ : String => Digest)

/-- The loop of `collectPeerHashes`. -/
def collectLoop (outcome : String → PeerOutcome) :
    List String → PeerHashes → Except LightErr PeerHashes
  | [], hashes => .ok hashes
  | addr :: rest, hashes =>
    match outcome addr with
    | .notReady => .error (.peerNotReady addr)
    | .unreachable => collectLoop outcome rest hashes
    | .hash sha256 =>
      if sha256 = zeroHash then .error (.peerHashMissing addr)
      else collectLoop outcome rest (hashes.insert addr sha256)

def collectPeerHashes (cfg : LightConfig) (outcome : String → PeerOutcome) :
    Except LightErr PeerHashes :=
  match collectLoop outcome cfg.peerAddrs ∅ with
  | .error err => .error err
  | .ok hashes =>
    if 0 < cfg.peerAddrs.length ∧ hashes.entries.length = 0 then
      .error (.nothingCompared cfg.peerAddrs.length)
    else .ok hashes

/-- The order of each `range` over a map. -/
structure MapOrders where
  /-- `range peerHashes` in `majorityHash` -/
  ballots : RangeOrder (Sigma fun _ : String => Digest)
  /-- `range votes` -/
  votes : RangeOrder (Sigma fun _ : Digest => Nat)
  /-- `range peerHashes` in `applyQuorumVerdict` -/
  verdict : RangeOrder (Sigma fun _ : String => Digest)

def majorityHash (o : MapOrders) (leaderHash : Digest) (hashes : PeerHashes) (voters : Nat) :
    Option Digest :=
  let votes := tally (AList.singleton leaderHash 1)
    ((o.ballots.visit hashes.entries).map (·.2))
  firstAbove voters (o.votes.visit votes.entries)

/-- A rebuild request: to the leader itself or to a peer. -/
inductive Voter where
  | self
  | peer (addr : String)
deriving DecidableEq

/-- The label `RecordRun` counts the run under. -/
inductive RunLabel where
  | ok
  | mismatch
  | quorumTie
  | error
deriving DecidableEq

/-- What one run does: the label it records, the requests it makes, the error it returns. -/
structure LightRun where
  label : Option RunLabel
  requests : List Voter
  err : Option LightErr
deriving DecidableEq

def sortStrings (l : List String) : List String := l.insertionSort (· ≤ ·)

def divergentPeers (o : MapOrders) (hashes : PeerHashes) (majority : Digest) : List String :=
  sortStrings (((o.verdict.visit hashes.entries).filter (·.2 ≠ majority)).map (·.1))

def applyQuorumVerdict (cfg : LightConfig) (o : MapOrders) (leaderHash : Digest)
    (hashes : PeerHashes) : LightRun :=
  match majorityHash o leaderHash hashes cfg.configuredVoters with
  | none => ⟨some .quorumTie, [], some (.noMajority cfg.configuredVoters)⟩
  | some majority =>
    let divergent := divergentPeers o hashes majority
    if leaderHash = majority ∧ divergent = [] then ⟨some .ok, [], none⟩
    else
      ⟨some .mismatch, (if leaderHash ≠ majority ∧ cfg.selfRebuilder then [.self] else []) ++
          (if cfg.rebuilder then divergent.map .peer else []), none⟩

/-- What a run finds outside: leadership, the leader's hash (`none` when the proposal fails) and
each peer's outcome. -/
structure LightInput where
  isLeader : Bool
  leaderHash : Option Digest
  outcome : String → PeerOutcome

def runOnce (cfg : LightConfig) (o : MapOrders) (i : LightInput) : LightRun :=
  if !i.isLeader then ⟨none, [], none⟩
  else
    match i.leaderHash with
    | none => ⟨some .error, [], some .proposalFailed⟩
    | some leaderHash =>
      if leaderHash = zeroHash then ⟨some .error, [], some .leaderHashMissing⟩
      else
        match collectPeerHashes cfg i.outcome with
        | .error err => ⟨some .error, [], some err⟩
        | .ok hashes => applyQuorumVerdict cfg o leaderHash hashes

/-! ## What the voters reported -/

def PeerOutcome.reported : PeerOutcome → Option Digest
  | .hash sha256 => some sha256
  | .notReady => none
  | .unreachable => none

def LightConfig.voters (cfg : LightConfig) : List Voter := .self :: cfg.peerAddrs.map .peer

def LightInput.reported (i : LightInput) : Voter → Option Digest
  | .self => i.leaderHash
  | .peer addr => (i.outcome addr).reported

/-- More than half of the configured voters, silent ones counted, reported `h`. -/
def HasMajority (cfg : LightConfig) (i : LightInput) (h : Digest) : Prop :=
  cfg.voters.length < 2 * (cfg.voters.filter (fun v => i.reported v = some h)).length

theorem LightConfig.length_voters (cfg : LightConfig) :
    cfg.voters.length = cfg.configuredVoters := by
  simp [LightConfig.voters, LightConfig.configuredVoters, Nat.add_comm]

/-! ## What is collected -/

def reports (outcome : String → PeerOutcome) (addrs : List String) :
    List (Sigma fun _ : String => Digest) :=
  addrs.filterMap (fun addr => (outcome addr).reported.map (Sigma.mk addr))

variable {m : Digest} {cfg : LightConfig} {outcome : String → PeerOutcome}

theorem mem_reports {addrs : List String} {addr : String} {h : Digest} :
    (⟨addr, h⟩ : Sigma fun _ : String => Digest) ∈ reports outcome addrs ↔
      addr ∈ addrs ∧ (outcome addr).reported = some h := by
  unfold reports
  rw [List.mem_filterMap]
  constructor
  · rintro ⟨a, ha, hmap⟩
    obtain ⟨d, hd, heq⟩ := Option.map_eq_some_iff.mp hmap
    cases heq
    exact ⟨ha, hd⟩
  · rintro ⟨ha, hd⟩
    exact ⟨addr, ha, by rw [hd]; rfl⟩

/-- A run that collects has found every peer ready and no zero hash; it holds each report once. -/
theorem collectLoop_ok :
    ∀ {addrs : List String} {acc hashes : PeerHashes}, addrs.Nodup → (∀ addr ∈ addrs, addr ∉ acc) →
      collectLoop outcome addrs acc = .ok hashes →
      hashes.entries.Perm (acc.entries ++ reports outcome addrs) ∧
        ∀ addr ∈ addrs, outcome addr ≠ .notReady ∧ outcome addr ≠ .hash zeroHash
  | [], acc, hashes, _, _, h => by
    have heq : acc = hashes := Except.ok.inj h
    simp [heq, reports]
  | addr :: rest, acc, hashes, hnd, hout, h => by
    obtain ⟨haddr, hrest⟩ := List.nodup_cons.mp hnd
    rw [collectLoop] at h
    cases ho : outcome addr with
    | notReady => simp [ho] at h
    | unreachable =>
      rw [ho] at h
      have ih := collectLoop_ok hrest (fun a ha => hout a (List.mem_cons_of_mem _ ha)) h
      refine ⟨by simpa [reports, ho, PeerOutcome.reported] using ih.1, ?_⟩
      rintro a (_ | ⟨_, ha⟩)
      · simp [ho]
      · exact ih.2 a ha
    | hash sha256 =>
      by_cases hz : sha256 = zeroHash
      · simp [ho, hz] at h
      simp only [ho, if_neg hz] at h
      have hfresh := hout addr List.mem_cons_self
      have hout' : ∀ a ∈ rest, a ∉ acc.insert addr sha256 := by
        intro a ha hmem
        rcases AList.mem_insert _ |>.mp hmem with heq | hmem
        · exact haddr (heq ▸ ha)
        · exact hout a (List.mem_cons_of_mem _ ha) hmem
      have ih := collectLoop_ok hrest hout' h
      refine ⟨?_, ?_⟩
      · rw [AList.entries_insert_of_notMem hfresh] at ih
        refine ih.1.trans ?_
        simpa [reports, ho, PeerOutcome.reported] using List.perm_middle.symm
      · rintro a (_ | ⟨_, ha⟩)
        · simpa [ho] using hz
        · exact ih.2 a ha

theorem collectPeerHashes_ok {hashes : PeerHashes} (hnd : cfg.peerAddrs.Nodup)
    (h : collectPeerHashes cfg outcome = .ok hashes) :
    hashes.entries.Perm (reports outcome cfg.peerAddrs) ∧
      ∀ addr ∈ cfg.peerAddrs, outcome addr ≠ .notReady ∧ outcome addr ≠ .hash zeroHash := by
  unfold collectPeerHashes at h
  split at h
  · cases h
  rename_i hs hloop
  have hhs : hs = hashes := by
    by_cases hz : 0 < cfg.peerAddrs.length ∧ hs.entries.length = 0
    · simp only [if_pos hz, reduceCtorEq] at h
    · simpa only [if_neg hz, Except.ok.injEq] using h
  subst hhs
  simpa using collectLoop_ok hnd (by simp) hloop

/-! ## The vote -/

section Vote

variable {cfg : LightConfig} {i : LightInput} {leaderHash : Digest} {hashes : PeerHashes}

def ballots (cfg : LightConfig) (i : LightInput) (leaderHash : Digest) : List Digest :=
  leaderHash :: (reports i.outcome cfg.peerAddrs).map (·.2)

theorem length_ballots_le : (ballots cfg i leaderHash).length ≤ cfg.configuredVoters := by
  have h : (reports i.outcome cfg.peerAddrs).length ≤ cfg.peerAddrs.length :=
    List.length_filterMap_le _ _
  simp only [ballots, LightConfig.configuredVoters, List.length_cons, List.length_map]
  omega

theorem countP_reports (outcome : String → PeerOutcome) (h : Digest) : ∀ addrs : List String,
    ((reports outcome addrs).map (·.2)).countP (· = h) =
      (addrs.filter (fun addr => (outcome addr).reported = some h)).length
  | [] => rfl
  | addr :: rest => by
    have ih := countP_reports outcome h rest
    cases ho : (outcome addr).reported with
    | none => simpa [reports, ho] using ih
    | some d => ?_
    by_cases hd : d = h <;> simpa [reports, ho, hd] using ih

theorem hasMajority_iff (hl : i.leaderHash = some leaderHash) (h : Digest) :
    HasMajority cfg i h ↔ Strict cfg.configuredVoters (ballots cfg i leaderHash) h := by
  have hpeers : ((cfg.peerAddrs.map Voter.peer).filter (fun v => i.reported v = some h)).length =
      ((reports i.outcome cfg.peerAddrs).map (·.2)).countP (· = h) := by
    rw [countP_reports, List.filter_map, List.length_map]
    rfl
  have hself : i.reported .self = some leaderHash := hl
  unfold HasMajority Strict ballots
  rw [cfg.length_voters, LightConfig.voters, List.filter_cons, List.countP_cons, ← hpeers, hself]
  by_cases hh : leaderHash = h <;> simp [hh]

theorem majorityHash_eq_some_iff (hl : i.leaderHash = some leaderHash)
    (hperm : hashes.entries.Perm (reports i.outcome cfg.peerAddrs)) (o : MapOrders) (h : Digest) :
    majorityHash o leaderHash hashes cfg.configuredVoters = some h ↔ HasMajority cfg i h := by
  rw [hasMajority_iff hl]
  refine firstAbove_eq_some_iff length_ballots_le _ (fun a => ?_) o.votes
  have hcount : ((o.ballots.visit hashes.entries).map (·.2)).countP (· = a) =
      ((reports i.outcome cfg.peerAddrs).map (·.2)).countP (· = a) :=
    (((o.ballots.perm _).trans hperm).map _).countP_eq _
  rw [lookup_tally, hcount, ballots, List.countP_cons]
  by_cases ha : leaderHash = a
  · subst ha
    have hone : (AList.singleton leaderHash 1 : AList fun _ : Digest => Nat).lookup leaderHash =
        some 1 := List.dlookup_cons_eq _ _ _
    simp only [hone, Option.getD_some, decide_true, if_true]
    omega
  · have hnone : (AList.singleton leaderHash 1 : AList fun _ : Digest => Nat).lookup a = none :=
      (List.dlookup_cons_ne [] ⟨leaderHash, 1⟩ (Ne.symm ha)).trans (List.dlookup_nil ..)
    simp only [hnone, Option.getD_none, decide_eq_true_eq, if_neg ha, Nat.zero_add, Nat.add_zero]

theorem majorityHash_eq (hl : i.leaderHash = some leaderHash)
    (hperm : hashes.entries.Perm (reports i.outcome cfg.peerAddrs)) (o o' : MapOrders) :
    majorityHash o leaderHash hashes cfg.configuredVoters =
      majorityHash o' leaderHash hashes cfg.configuredVoters := by
  refine Option.ext (fun h => ?_)
  rw [majorityHash_eq_some_iff hl hperm, majorityHash_eq_some_iff hl hperm]

/-! ## Who is asked -/

theorem sortStrings_eq_of_perm {l l' : List String} (h : l.Perm l') :
    sortStrings l = sortStrings l' := by
  refine List.Perm.eq_of_pairwise' (List.pairwise_insertionSort _ l)
    (List.pairwise_insertionSort _ l') ?_
  exact (List.perm_insertionSort _ l).trans (h.trans (List.perm_insertionSort _ l').symm)

theorem divergentPeers_eq (o o' : MapOrders) (hashes : PeerHashes) (m : Digest) :
    divergentPeers o hashes m = divergentPeers o' hashes m :=
  sortStrings_eq_of_perm
    ((((o.verdict.perm _).trans (o'.verdict.perm _).symm).filter _).map _)

theorem divergentPeers_perm (o : MapOrders) (m : Digest)
    (hperm : hashes.entries.Perm (reports i.outcome cfg.peerAddrs)) :
    (divergentPeers o hashes m).Perm
      (((reports i.outcome cfg.peerAddrs).filter (·.2 ≠ m)).map (·.1)) :=
  (List.perm_insertionSort _ _).trans ((((o.verdict.perm _).trans hperm).filter _).map _)

theorem mem_divergentPeers (o : MapOrders) {addr : String}
    (hperm : hashes.entries.Perm (reports i.outcome cfg.peerAddrs)) :
    addr ∈ divergentPeers o hashes m ↔
      addr ∈ cfg.peerAddrs ∧ ∃ own, i.reported (.peer addr) = some own ∧ own ≠ m := by
  rw [(divergentPeers_perm o m hperm).mem_iff, List.mem_map]
  constructor
  · rintro ⟨⟨a, own⟩, hmem, rfl⟩
    obtain ⟨hmem, hne⟩ := List.mem_filter.mp hmem
    obtain ⟨ha, hown⟩ := mem_reports.mp hmem
    exact ⟨ha, own, hown, by simpa using hne⟩
  · rintro ⟨ha, own, hown, hne⟩
    exact ⟨⟨addr, own⟩, List.mem_filter.mpr ⟨mem_reports.mpr ⟨ha, hown⟩, by simpa using hne⟩, rfl⟩

theorem length_divergentPeers (o : MapOrders) (m : Digest)
    (hperm : hashes.entries.Perm (reports i.outcome cfg.peerAddrs)) :
    (divergentPeers o hashes m).length =
      ((reports i.outcome cfg.peerAddrs).map (·.2)).countP (· ≠ m) := by
  rw [(divergentPeers_perm o m hperm).length_eq, List.length_map, List.countP_map,
    List.countP_eq_length_filter]
  rfl

def verdictRequests (cfg : LightConfig) (o : MapOrders) (leaderHash : Digest)
    (hashes : PeerHashes) (m : Digest) : List Voter :=
  (if leaderHash ≠ m ∧ cfg.selfRebuilder then [.self] else []) ++
    (if cfg.rebuilder then (divergentPeers o hashes m).map .peer else [])

theorem applyQuorumVerdict_requests (o : MapOrders)
    (hm : majorityHash o leaderHash hashes cfg.configuredVoters = some m) :
    (applyQuorumVerdict cfg o leaderHash hashes).requests =
      verdictRequests cfg o leaderHash hashes m := by
  simp only [applyQuorumVerdict, hm]
  by_cases hok : leaderHash = m ∧ divergentPeers o hashes m = []
  · rw [if_pos hok]
    simp [verdictRequests, hok.1, hok.2]
  · rw [if_neg hok]
    rfl

theorem mem_verdictRequests (o : MapOrders) {v : Voter} (hl : i.leaderHash = some leaderHash)
    (hperm : hashes.entries.Perm (reports i.outcome cfg.peerAddrs))
    (hv : v ∈ verdictRequests cfg o leaderHash hashes m) :
    v ∈ cfg.voters ∧ ∃ own, i.reported v = some own ∧ own ≠ m := by
  rcases List.mem_append.mp hv with hself | hpeer
  · by_cases hc : leaderHash ≠ m ∧ cfg.selfRebuilder
    · rw [if_pos hc, List.mem_singleton] at hself
      subst hself
      exact ⟨List.mem_cons_self, leaderHash, hl, hc.1⟩
    · simp [if_neg hc] at hself
  · by_cases hc : cfg.rebuilder
    · rw [if_pos hc] at hpeer
      obtain ⟨addr, haddr, rfl⟩ := List.mem_map.mp hpeer
      obtain ⟨ha, hown⟩ := (mem_divergentPeers o hperm).mp haddr
      exact ⟨List.mem_cons_of_mem _ (List.mem_map_of_mem ha), hown⟩
    · simp [if_neg hc] at hpeer

theorem length_verdictRequests_le (o : MapOrders) (m : Digest)
    (hperm : hashes.entries.Perm (reports i.outcome cfg.peerAddrs)) :
    (verdictRequests cfg o leaderHash hashes m).length ≤
      (ballots cfg i leaderHash).countP (· ≠ m) := by
  have hself : (if leaderHash ≠ m ∧ cfg.selfRebuilder then [Voter.self] else []).length ≤
      if leaderHash ≠ m then 1 else 0 := by
    by_cases hc : leaderHash = m
    · simp [hc]
    · cases cfg.selfRebuilder <;> simp [hc]
  have hpeer : (if cfg.rebuilder then (divergentPeers o hashes m).map Voter.peer
      else []).length ≤ (divergentPeers o hashes m).length := by
    cases cfg.rebuilder <;> simp
  rw [length_divergentPeers o m hperm] at hpeer
  have hcount : (ballots cfg i leaderHash).countP (· ≠ m) =
      ((reports i.outcome cfg.peerAddrs).map (·.2)).countP (· ≠ m) +
        if leaderHash ≠ m then 1 else 0 := by
    rw [ballots, List.countP_cons]
    simp
  rw [verdictRequests, List.length_append]
  omega

end Vote

/-- A run that asks for a rebuild has compared: the leader's hash is there, every peer was ready
with one, and some hash has the majority. -/
theorem runOnce_requests {o : MapOrders} {i : LightInput} (hnd : cfg.peerAddrs.Nodup)
    (hne : (runOnce cfg o i).requests ≠ []) :
    ∃ leaderHash hashes m, i.leaderHash = some leaderHash ∧
      hashes.entries.Perm (reports i.outcome cfg.peerAddrs) ∧
      (∀ addr ∈ cfg.peerAddrs, i.outcome addr ≠ .notReady ∧ i.outcome addr ≠ .hash zeroHash) ∧
      HasMajority cfg i m ∧
      (runOnce cfg o i).requests = verdictRequests cfg o leaderHash hashes m := by
  unfold runOnce at hne ⊢
  by_cases hlead : i.isLeader = true
  · cases hl : i.leaderHash with
    | none => simp [hlead, hl] at hne
    | some leaderHash =>
      by_cases hz : leaderHash = zeroHash
      · simp [hlead, hl, hz] at hne
      cases hc : collectPeerHashes cfg i.outcome with
      | error err => simp [hlead, hl, hz, hc] at hne
      | ok hashes =>
        simp only [hlead, hl, if_neg hz, hc] at hne ⊢
        obtain ⟨hperm, hready⟩ := collectPeerHashes_ok hnd hc
        cases hm : majorityHash o leaderHash hashes cfg.configuredVoters with
        | none => simp [applyQuorumVerdict, hm] at hne
        | some m => ?_
        exact ⟨leaderHash, hashes, m, rfl, hperm, hready,
          (majorityHash_eq_some_iff hl hperm o m).mp hm,
          applyQuorumVerdict_requests o hm⟩
  · simp [hlead] at hne

theorem runOnce_eq (hnd : cfg.peerAddrs.Nodup) (o o' : MapOrders) (i : LightInput) :
    runOnce cfg o i = runOnce cfg o' i := by
  unfold runOnce
  cases hl : i.leaderHash with
  | none => rfl
  | some leaderHash => ?_
  cases hc : collectPeerHashes cfg i.outcome with
  | error err => rfl
  | ok hashes =>
    obtain ⟨hperm, -⟩ := collectPeerHashes_ok hnd hc
    simp only [applyQuorumVerdict, majorityHash_eq hl hperm o o', divergentPeers_eq o o']

/-- The light scrub asks only voters whose hash differs from one that more than half of the
configured voters reported: fewer than half, whatever the order of the maps. A peer that is not
ready, a zero hash or the lack of a majority stops every request. -/
theorem light_scrub_asks_minority (cfg : LightConfig) (hnd : cfg.peerAddrs.Nodup)
    (o : MapOrders) (i : LightInput) :
    (∀ v ∈ (runOnce cfg o i).requests, v ∈ cfg.voters ∧ ∃ h own, HasMajority cfg i h ∧
        i.reported v = some own ∧ own ≠ h) ∧
      2 * (runOnce cfg o i).requests.length < cfg.voters.length ∧
      (∀ o' : MapOrders, runOnce cfg o' i = runOnce cfg o i) ∧
      (∀ addr ∈ cfg.peerAddrs, i.outcome addr = .notReady ∨ i.outcome addr = .hash zeroHash →
        (runOnce cfg o i).requests = []) ∧
      ((∀ h, ¬ HasMajority cfg i h) → (runOnce cfg o i).requests = []) := by
  refine ⟨?_, ?_, fun o' => runOnce_eq hnd o' o i, ?_, ?_⟩
  · intro v hv
    obtain ⟨leaderHash, hashes, m, hl, hperm, -, hmaj, hreq⟩ :=
      runOnce_requests hnd (List.ne_nil_of_mem hv)
    rw [hreq] at hv
    obtain ⟨hvoter, own, hown, hne⟩ := mem_verdictRequests o hl hperm hv
    exact ⟨hvoter, m, own, hmaj, hown, hne⟩
  · by_cases hnil : (runOnce cfg o i).requests = []
    · simp [hnil, LightConfig.voters]
    obtain ⟨leaderHash, hashes, m, hl, hperm, -, hmaj, hreq⟩ := runOnce_requests hnd hnil
    have hle : (verdictRequests cfg o leaderHash hashes m).length ≤
        (ballots cfg i leaderHash).countP (· ≠ m) := length_verdictRequests_le o m hperm
    have hmin := ((hasMajority_iff hl m).mp hmaj).minority length_ballots_le
    rw [hreq, cfg.length_voters]
    omega
  · intro addr haddr hbad
    by_contra hnil
    obtain ⟨-, -, -, -, -, hready, -⟩ := runOnce_requests hnd hnil
    exact hbad.elim (hready addr haddr).1 (hready addr haddr).2
  · intro hnone
    by_contra hnil
    obtain ⟨-, -, m, -, -, -, hmaj, -⟩ := runOnce_requests hnd hnil
    exact hnone m hmaj

/-- Two peers, and one of them reports another hash than the leader and its fellow. -/
def twoPeers : LightConfig := ⟨["a", "b"], true, true⟩

theorem length_hashOne : (List.replicate 32 (1 : UInt8)).length = 32 := rfl

theorem length_hashTwo : (List.replicate 32 (2 : UInt8)).length = 32 := rfl

def divergentB : LightInput where
  isLeader := true
  leaderHash := some ⟨List.replicate 32 1, length_hashOne⟩
  outcome := fun addr =>
    if addr = "b" then .hash ⟨List.replicate 32 2, length_hashTwo⟩
    else .hash ⟨List.replicate 32 1, length_hashOne⟩

theorem light_scrub_asks_divergentB :
    (runOnce twoPeers ⟨.id _, .id _, .id _⟩ divergentB).requests = [.peer "b"] ∧
      (runOnce twoPeers ⟨.reverse _, .reverse _, .reverse _⟩ divergentB).requests =
        [.peer "b"] := by
  have hrun : (runOnce twoPeers ⟨.id _, .id _, .id _⟩ divergentB).requests = [.peer "b"] := by
    decide +kernel
  refine ⟨hrun, ?_⟩
  have horder := (light_scrub_asks_minority twoPeers (by decide) ⟨.id _, .id _, .id _⟩
    divergentB).2.2.1 ⟨.reverse _, .reverse _, .reverse _⟩
  rw [horder, hrun]

end Scrap.Scrub
