/-
# Documents that are already in the ledger

A command for a Document in the ledger is settled: with the same content it is a no-op, with other
content it is rejected (`View.action_seen`). The decision finds the Document's one record and sees
that it is counted, provided that the visible records begin with the Transaction's ledger in some
order; what may follow them is the record a crash left uncounted.

`Ledger.commit` is the abstract apply, and `View.Rep.commit` the refinement of one command: where no
Transaction comes back to a Block, the concrete commit and the abstract one agree.
-/
import Scrap.Shard.Ledger

namespace Scrap

open Block Scrap.Group

variable {doc : CommitDocument} {L : Ledger} {d : ResolvedDocument}

namespace Ledger

def identity (d : ResolvedDocument) : String × String := (d.2.transactionID, d.2.docName)

def Distinct (L : Ledger) : Prop := (L.map identity).Nodup

theorem Distinct.concat (h : L.Distinct) (hnew : ¬ L.Has d.2.transactionID d.2.docName) :
    Distinct (L ++ [d]) := by
  unfold Distinct at h ⊢
  rw [List.map_append, List.nodup_append]
  refine ⟨h, by simp, ?_⟩
  intro x hx y hy hxy
  obtain ⟨d', hd', rfl⟩ := List.mem_map.mp hx
  obtain rfl : y = identity d := by simpa using hy
  have hid := Prod.mk.inj hxy
  exact hnew ⟨d', hd', hid.1, hid.2⟩

theorem Distinct.split {A : Ledger} (h : L.Distinct) (hd : d ∈ L)
    (hA : A.Perm (L.ofTx d.2.transactionID)) :
    ∃ l l', A = l ++ d :: l' ∧ ∀ x ∈ l ++ l', x.2.docName ≠ d.2.docName := by
  have hmem : d ∈ A := hA.mem_iff.mpr (mem_ofTx.mpr ⟨hd, rfl⟩)
  obtain ⟨l, l', rfl⟩ := List.append_of_mem hmem
  refine ⟨l, l', rfl, ?_⟩
  have hids : ((l ++ d :: l').map identity).Nodup := by
    refine (hA.map identity).nodup_iff.mpr ?_
    exact h.sublist (List.filter_sublist.map identity)
  have hmid : ((d :: (l ++ l')).map identity).Nodup :=
    (List.perm_middle.map identity).nodup_iff.mp hids
  intro x hx hname
  have hx' : x ∈ L.ofTx d.2.transactionID := by
    refine hA.mem_iff.mp ?_
    rcases List.mem_append.mp hx with h' | h'
    · exact List.mem_append_left _ h'
    · exact List.mem_append_right _ (List.mem_cons_of_mem _ h')
  have hid : identity x = identity d := Prod.ext (mem_ofTx.mp hx').2 hname
  rw [List.map_cons, List.nodup_cons] at hmid
  exact hmid.1 (List.mem_map.mpr ⟨x, hx, hid⟩)

end Ledger

/-! ## The decision when the record is found once -/

theorem scanVisible_match {c : UInt16} {l l' : List ResolvedDocument} {b : UInt64} {e : IndexEntry}
    (he : e.docName = doc.documentName) (hother : ∀ d ∈ l ++ l', d.2.docName ≠ doc.documentName) :
    scanVisible doc c 0 .zero (l ++ (b, e) :: l') =
      .ok (⟨some (b, e), decide (l.length + 1 ≤ c.toNat)⟩, l.length + 1 + l'.length) := by
  have hl : ∀ d ∈ l, d.2.docName ≠ doc.documentName :=
    fun d hd => hother d (List.mem_append_left _ hd)
  have hl' : ∀ d ∈ l', d.2.docName ≠ doc.documentName :=
    fun d hd => hother d (List.mem_append_right _ hd)
  rw [scanVisible_append, scanVisible_none l 0 .zero hl]
  simp only [scanVisible, he, ne_eq, Nat.zero_add]
  exact scanVisible_none l' _ _ hl'

theorem View.action_of_match {v : View} {entry : Entry} {l l' : List ResolvedDocument} {b : UInt64}
    {e : IndexEntry} (htx : v.tx doc.transactionID = some entry)
    (hvis : v.visible doc.transactionID entry.blockIDs = l ++ (b, e) :: l')
    (he : e.docName = doc.documentName) (hother : ∀ d ∈ l ++ l', d.2.docName ≠ doc.documentName) :
    v.action doc =
      commitAction doc ⟨some (b, e), decide (l.length + 1 ≤ entry.docCount.toNat)⟩ := by
  simp only [View.action, View.commitState, htx, hvis, scanVisible_match he hother]
  rfl

/-- A Document of the ledger is found and counted, also when records not counted yet follow the
ledger's. -/
theorem View.action_seen {v : View} {A B : Ledger} {entry : Entry} (hdist : L.Distinct) (hd : d ∈ L)
    (hid : Ledger.identity d = doc.identity) (htx : v.tx doc.transactionID = some entry)
    (hvis : v.visible doc.transactionID entry.blockIDs = A ++ B)
    (hA : A.Perm (L.ofTx doc.transactionID))
    (hcount : (L.ofTx doc.transactionID).length ≤ entry.docCount.toNat)
    (hB : ∀ x ∈ B, x.2.docName ≠ doc.documentName) :
    v.action doc = if commitDocumentMatchesExisting doc d.2 then .done
      else .reject .duplicateDocumentConflict := by
  obtain ⟨ht, hn⟩ := Prod.mk.inj hid
  rw [← ht] at hA hcount
  obtain ⟨l, l', rfl, hother⟩ := hdist.split hd hA
  have hlen := hA.length_eq
  have hvis' : v.visible doc.transactionID entry.blockIDs = l ++ (d.1, d.2) :: (l' ++ B) := by
    rw [hvis, List.append_assoc]
    rfl
  have hother' : ∀ x ∈ l ++ (l' ++ B), x.2.docName ≠ doc.documentName := by
    intro x hx
    rw [← List.append_assoc, List.mem_append] at hx
    rcases hx with hx | hx
    · rw [← hn]
      exact hother x hx
    · exact hB x hx
  have hpos : l.length + 1 ≤ entry.docCount.toNat := by
    rw [← hlen, List.length_append, List.length_cons] at hcount
    omega
  rw [View.action_of_match htx hvis' hn hother']
  simp [commitAction, hpos]

/-! ## The abstract apply -/

namespace Ledger

instance (L : Ledger) (t name : String) : Decidable (L.Has t name) :=
  inferInstanceAs (Decidable (∃ d ∈ L, d.2.transactionID = t ∧ d.2.docName = name))

/-- A new Document is appended; one that is there stays as it is. -/
def commit (L : Ledger) (doc : CommitDocument) : Ledger :=
  if L.Has doc.transactionID doc.documentName then L else L ++ doc.resolved?.toList

/-- The ledger has no other content under the command's identity. -/
def Agrees (L : Ledger) (doc : CommitDocument) : Prop :=
  ∀ d ∈ L, identity d = doc.identity → commitDocumentMatchesExisting doc d.2 = true

theorem has_iff :
    L.Has doc.transactionID doc.documentName ↔ ∃ d ∈ L, identity d = doc.identity := by
  simp [Has, identity, CommitDocument.identity]

theorem Distinct.eq_of_identity (h : L.Distinct) {d' : ResolvedDocument} (hd : d ∈ L) (hd' : d' ∈ L)
    (hid : identity d = identity d') : d = d' :=
  List.inj_on_of_nodup_map h hd hd' hid

end Ledger

/-- The view takes a new Document: a digest of 32 bytes, fields that fit, an `.idx` for its
Block and room in its Transaction. -/
def View.Accepts (v : View) (doc : CommitDocument) : Prop :=
  ∃ entry, doc.indexEntry? = some entry ∧ FieldsFit entry ∧ (v.idx doc.blockID).isSome ∧
    v.hasRoom doc.transactionID

section Commit

variable {v : View} {L : Ledger} {doc : CommitDocument}

theorem View.Rep.action_settled (hrep : v.Rep L) (hdist : L.Distinct)
    (hnr : L.NeverReturns doc.transactionID) (hd : d ∈ L) (hid : Ledger.identity d = doc.identity) :
    v.action doc = if commitDocumentMatchesExisting doc d.2 then .done
      else .reject .duplicateDocumentConflict := by
  have hmem : d ∈ L.ofTx doc.transactionID := Ledger.mem_ofTx.mpr ⟨hd, (Prod.mk.inj hid).1⟩
  obtain ⟨entry, htx⟩ := Option.ne_none_iff_exists'.mp
    (mt hrep.tx_eq_none.mp (List.ne_nil_of_mem hmem))
  obtain ⟨-, hids, hcount, -⟩ := hrep.tx_eq_some htx
  have hvis : v.visible doc.transactionID entry.blockIDs =
      gather Prod.fst (L.ofTx doc.transactionID) (runs (L.blocks doc.transactionID)) ++ [] := by
    rw [hrep.visible, hids, List.append_nil]
  exact View.action_seen hdist hd hid htx hvis (gather_perm (Ledger.covered _) hnr) hcount.ge
    (by simp)

theorem View.Rep.commit_isSome_iff (hrep : v.Rep L) (hdist : L.Distinct)
    (hnr : L.NeverReturns doc.transactionID) (o : Bool) :
    (∃ v', v.commit o doc = some v') ↔
      if L.Has doc.transactionID doc.documentName then L.Agrees doc else v.Accepts doc := by
  by_cases hhas : L.Has doc.transactionID doc.documentName
  · obtain ⟨d, hd, hid⟩ := Ledger.has_iff.mp hhas
    rw [if_pos hhas, View.commit, hrep.action_settled hdist hnr hd hid]
    by_cases hm : commitDocumentMatchesExisting doc d.2 = true
    · rw [if_pos hm]
      refine iff_of_true ⟨v, rfl⟩ fun d' hd' hid' => ?_
      rw [hdist.eq_of_identity hd' hd (hid'.trans hid.symm)]
      exact hm
    · rw [if_neg hm]
      refine iff_of_false (by simp) fun hag => hm (hag d hd hid)
  · rw [if_neg hhas]
    rcases hrep.commit_new o hhas with ⟨entry, h1, h2, h3, h4, v', hv', -⟩ | ⟨hnone, hno⟩
    · exact iff_of_true ⟨v', hv'⟩ ⟨entry, h1, h2, h3, h4⟩
    · refine iff_of_false ?_ hno
      rintro ⟨v', hv'⟩
      exact absurd (hnone.symm.trans hv') (by simp)

theorem View.Rep.commit (hrep : v.Rep L) (hdist : L.Distinct)
    (hnr : L.NeverReturns doc.transactionID) {o : Bool} {v' : View}
    (h : v.commit o doc = some v') :
    v'.Rep (L.commit doc) ∧ (L.commit doc).Distinct ∧
      (L.commit doc).Has doc.transactionID doc.documentName ∧ (L.commit doc).Agrees doc ∧
      ∀ b, (v'.idx b).isSome = (v.idx b).isSome := by
  unfold Ledger.commit
  by_cases hhas : L.Has doc.transactionID doc.documentName
  · have hag := (hrep.commit_isSome_iff hdist hnr o).mp ⟨v', h⟩
    rw [if_pos hhas] at hag ⊢
    obtain ⟨d, hd, hid⟩ := Ledger.has_iff.mp hhas
    rw [View.commit, hrep.action_settled hdist hnr hd hid, if_pos (hag d hd hid)] at h
    obtain rfl : v = v' := Option.some.inj h
    exact ⟨hrep, hdist, hhas, hag, fun _ => rfl⟩
  · rw [if_neg hhas]
    rcases hrep.commit_new o hhas with ⟨entry, hentry, -, -, -, v'', hv'', hrep', hsome⟩ | ⟨hnone, -⟩
    · obtain rfl : v'' = v' := by simpa using hv''.symm.trans h
      obtain ⟨ht, hn⟩ := CommitDocument.indexEntry?_some hentry
      have hres : doc.resolved?.toList = [(doc.blockID, entry)] := by
        simp [CommitDocument.resolved?, hentry]
      rw [hres]
      have hdist' : Ledger.Distinct (L ++ [(doc.blockID, entry)]) :=
        hdist.concat (by simpa [ht, hn] using hhas)
      have hown : commitDocumentMatchesExisting doc entry = true := by
        unfold CommitDocument.indexEntry? at hentry
        split at hentry
        · cases hentry
          simp [commitDocumentMatchesExisting]
        · cases hentry
      have hself : Ledger.identity (doc.blockID, entry) = doc.identity := by
        simp [Ledger.identity, CommitDocument.identity, ht, hn]
      refine ⟨hrep', hdist', Ledger.has_iff.mpr ⟨_, by simp, hself⟩, ?_, hsome⟩
      intro d hd hid
      rw [hdist'.eq_of_identity hd (by simp) (hid.trans hself.symm)]
      exact hown
    · exact absurd (hnone.symm.trans h) (by simp)

end Commit

end Scrap
