/-
# Listing the content-quarantine records

`ListContentQuarantines` walks the keys from `lower` up to, but not including, `upper`, and stops
behind `limit` records. `lower` is the key of the Transaction up to the separator, or the key
family; `upper` is the first key behind everything that starts with `lower`. So the range is a
prefix (`range_iff_initial`), and one that ends in the separator belongs to one Transaction, also
where another Transaction's ID starts with its ID (`initial_key_iff`).

Keys of one Transaction differ in the Document's name only, so their order is that of the names.
-/
import Mathlib.Data.Set.List
import Scrap.Index.StreamingHash

namespace Scrap

open Bytes Text

/-! ## The list -/

inductive QuarantineListErr where
  /-- `limit must be positive` -/
  | limit
  /-- `key prefix` -/
  | keyPrefix
  /-- `key missing separator` -/
  | keySeparator
  /-- bytes that are no text: the identifiers of this development are texts -/
  | keyText
  | record (err : ContentQuarantineErr)
deriving DecidableEq

/-- The bytes up to the last one below `0xff`, with that one counted up. -/
def countUp : List UInt8 → Option (List UInt8)
  | [] => none
  | b :: bs =>
    match countUp bs with
    | some upper => some (b :: upper)
    | none => if b ≠ 0xff then some [b + 1] else none

def contentQuarantinePrefixSuccessor (lower : List UInt8) : List UInt8 :=
  (countUp lower).getD (lower ++ [0])

/-- The first and the last bound of a list, for all Transactions or for one. -/
def contentQuarantineScanBounds (txID : String) :
    Except QuarantineListErr (List UInt8 × List UInt8) :=
  if txID = "" then
    .ok (contentQuarantinePrefix, contentQuarantinePrefixSuccessor contentQuarantinePrefix)
  else
    match validateContentQuarantineText "transaction_id" txID with
    | .error err => .error (.record (.text err))
    | .ok () =>
      let lower := contentQuarantinePrefix ++ utf8 txID ++ [0]
      .ok (lower, contentQuarantinePrefixSuccessor lower)

def decodeContentQuarantineKey (key : List UInt8) : Except QuarantineListErr (String × String) :=
  if ¬ contentQuarantinePrefix <+: key then .error .keyPrefix
  else
    let rest := key.drop contentQuarantinePrefix.length
    match rest.dropWhile (· ≠ 0) with
    | [] => .error .keySeparator
    | _ :: name =>
      match String.fromUTF8? (rest.takeWhile (· ≠ 0)).toByteArray,
          String.fromUTF8? name.toByteArray with
      | some txID, some docName =>
        match validateContentQuarantineIdentity txID docName with
        | .error err => .error (.record err)
        | .ok () => .ok (txID, docName)
      | _, _ => .error .keyText

def decodeContentQuarantineEntry (e : DbEntry) : Except QuarantineListErr ContentQuarantine :=
  match decodeContentQuarantineKey e.1 with
  | .error err => .error err
  | .ok (txID, docName) =>
    match decodeContentQuarantine txID docName e.2 with
    | .error err => .error (.record err)
    | .ok q => .ok q

/-- The loop over the iterator: at most `limit` records. -/
def readContentQuarantines : Nat → List DbEntry → Except QuarantineListErr (List ContentQuarantine)
  | 0, _ => .ok []
  | _ + 1, [] => .ok []
  | limit + 1, e :: es =>
    match decodeContentQuarantineEntry e with
    | .error err => .error err
    | .ok q =>
      match readContentQuarantines limit es with
      | .error err => .error err
      | .ok qs => .ok (q :: qs)

/-- `ListContentQuarantines`, when the whole database is walked as `walk`. -/
def listContentQuarantines (walk : List DbEntry) (txID : String) (limit : Int) :
    Except QuarantineListErr (List ContentQuarantine) :=
  if limit ≤ 0 then .error .limit
  else
    match contentQuarantineScanBounds txID with
    | .error err => .error err
    | .ok (lower, upper) =>
      readContentQuarantines limit.toNat (walk.filter fun e => lower ≤ e.1 ∧ e.1 < upper)

/-! ## Ranges of keys -/

theorem le_iff_initial_of_countUp : ∀ {lower : List UInt8}, countUp lower = none →
    ∀ key, lower ≤ key ↔ lower <+: key
  | [], _, key => by simp
  | b :: bs, h, key => by
    cases hbs : countUp bs with
    | some upper => simp [countUp, hbs] at h
    | none => ?_
    obtain rfl : b = 0xff := by simpa [countUp, hbs] using h
    cases key with
    | nil => simp
    | cons c cs => ?_
    rw [List.cons_le_cons_iff, le_iff_initial_of_countUp hbs]
    have hmax : ¬ (0xff : UInt8) < c := Nat.not_lt.mpr (Nat.le_of_lt_succ c.toNat_lt)
    simp [hmax]

theorem range_iff_initial : ∀ {lower upper : List UInt8}, countUp lower = some upper →
    ∀ key, lower ≤ key ∧ key < upper ↔ lower <+: key
  | [], _, h, _ => by simp [countUp] at h
  | b :: bs, _, _, [] => by simp
  | b :: bs, upper, h, c :: cs => by
    rw [List.cons_le_cons_iff, List.cons_prefix_cons]
    cases hbs : countUp bs with
    | some u =>
      obtain rfl : b :: u = upper := by simpa [countUp, hbs] using h
      rw [List.cons_lt_cons_iff, ← range_iff_initial hbs]
      constructor
      · rintro ⟨hbc | ⟨rfl, hle⟩, hcb | ⟨hcb, hlt⟩⟩
        · exact absurd hbc (UInt8.lt_asymm hcb)
        · exact absurd (hcb ▸ hbc) (UInt8.lt_irrefl _)
        · exact absurd hcb (UInt8.lt_irrefl _)
        · exact ⟨rfl, hle, hlt⟩
      · rintro ⟨rfl, hle, hlt⟩
        exact ⟨.inr ⟨rfl, hle⟩, .inr ⟨rfl, hlt⟩⟩
    | none =>
      obtain ⟨hb, rfl⟩ : b ≠ 0xff ∧ [b + 1] = upper := by simpa [countUp, hbs] using h
      rw [List.cons_lt_cons_iff, ← le_iff_initial_of_countUp hbs]
      -- `b + 1` does not wrap, so that `c` is at most `b`
      have hroom : b.toNat < 255 := by
        have hne : b.toNat ≠ 255 := fun heq => hb (UInt8.toNat_inj.mp heq)
        have := b.toNat_lt
        omega
      have hlt : c < b + 1 ↔ c ≤ b := by
        rw [UInt8.lt_iff_toNat_lt, UInt8.le_iff_toNat_le, UInt8.toNat_add, UInt8.toNat_one]
        omega
      constructor
      · rintro ⟨hbc | ⟨rfl, hle⟩, hcb⟩
        · have hcb' := hlt.mp (by simpa using hcb)
          exact absurd hbc (UInt8.not_lt.mpr hcb')
        · exact ⟨rfl, hle⟩
      · rintro ⟨rfl, hle⟩
        exact ⟨.inr ⟨rfl, hle⟩, .inl (hlt.mpr (UInt8.le_refl b))⟩

theorem append_lt_append_iff {k l : List UInt8} : ∀ h : List UInt8, h ++ k < h ++ l ↔ k < l
  | [] => Iff.rfl
  | b :: h => by simp [append_lt_append_iff h]

theorem countUp_append_cons {b : UInt8} (hb : b ≠ 0xff) : ∀ bs : List UInt8,
    ∃ upper, countUp (bs ++ [b]) = some upper
  | [] => ⟨[b + 1], by simp [countUp, hb]⟩
  | c :: bs => by
    obtain ⟨upper, h⟩ := countUp_append_cons hb bs
    exact ⟨c :: upper, by simp [countUp, h]⟩

/-! ## Keys and values of the records -/

def ContentQuarantine.entry (q : ContentQuarantine) : DbEntry :=
  (contentQuarantineKeyBytes q.transactionID q.documentName, encodeContentQuarantine q)

theorem fromUTF8_utf8 (s : String) : String.fromUTF8? (utf8 s).toByteArray = some s := by
  rw [toByteArray_utf8, String.fromUTF8?, dif_pos s.isValidUTF8]
  rfl

theorem decodeContentQuarantineEntry_entry {q : ContentQuarantine} (h : q.Valid) :
    decodeContentQuarantineEntry q.entry = .ok q := by
  have hplain : ∀ b ∈ utf8 q.transactionID, decide (b ≠ 0) = true := by
    intro b hb
    have hle := h.identity.1.2.2.le_of_mem_utf8 hb
    refine decide_eq_true fun hzero => ?_
    rw [hzero] at hle
    exact absurd hle (by decide)
  have hkey : decodeContentQuarantineKey q.entry.1 = .ok (q.transactionID, q.documentName) := by
    have hdrop : q.entry.1.drop contentQuarantinePrefix.length =
        utf8 q.transactionID ++ 0 :: utf8 q.documentName := rfl
    have hinitial : contentQuarantinePrefix <+: q.entry.1 := ⟨_, (List.append_assoc _ _ _).symm⟩
    rw [decodeContentQuarantineKey, if_neg (not_not.mpr hinitial), hdrop]
    simp only [List.dropWhile_append_of_pos hplain, List.takeWhile_append_of_pos hplain]
    simp [fromUTF8_utf8, validateContentQuarantineIdentity_ok_iff.mpr h.identity]
  simp only [decodeContentQuarantineEntry, hkey]
  rw [ContentQuarantine.entry, decodeContentQuarantine_encode h]

theorem initial_key_iff {t : String} (ht : Plain t) {q : ContentQuarantine} (h : q.Valid) :
    contentQuarantinePrefix ++ utf8 t ++ [0] <+: q.entry.1 ↔ q.transactionID = t := by
  constructor
  · rintro ⟨rest, hrest⟩
    simp only [List.append_assoc] at hrest
    exact (eq_of_terminated ht h.identity.1.2.2 (by decide) (by decide)
      (List.append_cancel_left hrest)).1.symm
  · rintro rfl
    exact ⟨utf8 q.documentName, by simp [ContentQuarantine.entry, contentQuarantineKeyBytes]⟩

theorem readContentQuarantines_entries : ∀ (n : Nat) {qs : List ContentQuarantine},
    (∀ q ∈ qs, q.Valid) → readContentQuarantines n (qs.map (·.entry)) = .ok (qs.take n)
  | 0, _, _ => rfl
  | _ + 1, [], _ => rfl
  | n + 1, q :: qs, h => by
    simp only [List.map_cons, readContentQuarantines,
      decodeContentQuarantineEntry_entry (h q List.mem_cons_self),
      readContentQuarantines_entries n fun q' hq' => h q' (List.mem_cons_of_mem _ hq'),
      List.take_succ_cons]

/-! ## The records that were put -/

/-- The store behind a sequence of puts, the newest first. -/
inductive QuarantineStore.Puts : List ContentQuarantine → QuarantineStore → Prop
  | none : Puts [] fun _ => none
  | put {qs : List ContentQuarantine} {db db' : QuarantineStore} {q : ContentQuarantine} :
      Puts qs db → db.putContentQuarantine q = .ok db' → Puts (q :: qs) db'

def Newest : List ContentQuarantine → ContentQuarantine → Prop
  | [], _ => False
  | q' :: qs, q => q = q' ∨
      Newest qs q ∧ ¬ (q'.transactionID = q.transactionID ∧ q'.documentName = q.documentName)

/-- The store holds the newest record of each Document, and nothing else. -/
theorem QuarantineStore.Puts.holds {qs : List ContentQuarantine} {db : QuarantineStore}
    (h : Puts qs db) : (∀ q, Newest qs q → q.Valid) ∧
      ∀ key val, db key = some val ↔ ∃ q, Newest qs q ∧ q.entry = (key, val) := by
  induction h with
  | none => exact ⟨fun _ hq => absurd hq id, by simp [Newest]⟩
  | @put qs db db' q _ hput ih =>
    obtain ⟨hvalid, hholds⟩ := ih
    have hq := putContentQuarantine_ok hput
    rw [putContentQuarantine_of_valid db hq, Except.ok.injEq] at hput
    subst hput
    refine ⟨?_, fun key val => ?_⟩
    · rintro x (rfl | ⟨hx, -⟩)
      · exact hq
      · exact hvalid x hx
    · by_cases hk : key = contentQuarantineKeyBytes q.transactionID q.documentName
      · subst hk
        rw [Function.update_self]
        constructor
        · intro hval
          exact ⟨q, .inl rfl, by rw [← Option.some.inj hval]; rfl⟩
        rintro ⟨x, rfl | ⟨hx, hne⟩, hentry⟩
        · exact congrArg (fun e : DbEntry => some e.2) hentry
        -- a record under this key is of this Document
        obtain ⟨htx, hdoc⟩ := contentQuarantineKeyBytes_inj (hvalid x hx).identity.1.2.2
          hq.identity.1.2.2 (congrArg Prod.fst hentry)
        exact absurd ⟨htx.symm, hdoc.symm⟩ hne
      · rw [Function.update_of_ne hk, hholds]
        refine exists_congr fun x => and_congr_left fun hentry => ⟨fun hx => ?_, ?_⟩
        · refine .inr ⟨hx, fun ⟨htx, hdoc⟩ => hk ?_⟩
          rw [htx, hdoc]
          exact (congrArg Prod.fst hentry).symm
        · rintro (rfl | ⟨hx, -⟩)
          · exact absurd (congrArg Prod.fst hentry).symm hk
          · exact hx

/-! ## What a list returns -/

section Walk

variable {qs : List ContentQuarantine} {p : ProjectionDb} {walk : List DbEntry}

theorem ProjectionDb.entry_iff_of_initial {e : DbEntry} (h : contentQuarantinePrefix <+: e.1) :
    p.Entry e ↔ p.contentQuarantines e.1 = some e.2 := by
  refine ⟨fun he => ?_, fun he => .record (.contentQuarantine e.1 e.2) he⟩
  -- every other key starts with a zero byte
  have hhead : ∀ rest, ¬ contentQuarantinePrefix <+: 0 :: rest := by
    intro rest hrest
    exact absurd (List.cons_prefix_cons.mp hrest).1 (by decide)
  cases he with
  | record r hr =>
    cases r with
    | contentQuarantine key val => exact hr
    | tx txID val => exact absurd h (hhead _)
    | pendingUpload blockID u => exact absurd h (hhead _)
    | confirmedUpload blockID u => exact absurd h (hhead _)
  | scannerWatermark rest val _ => exact absurd h (hhead _)
  | appliedIndex val _ => exact absurd h (hhead _)

theorem records_of_range (hput : QuarantineStore.Puts qs p.contentQuarantines)
    (hwalk : p.Walk walk) {lower upper : List UInt8} (hupper : countUp lower = some upper)
    (hfamily : contentQuarantinePrefix <+: lower) :
    ∃ all : List ContentQuarantine,
      walk.filter (fun e => lower ≤ e.1 ∧ e.1 < upper) = all.map (·.entry) ∧
        (∀ q ∈ all, q.Valid) ∧ (∀ q, q ∈ all ↔ Newest qs q ∧ lower <+: q.entry.1) ∧
        all.Pairwise (fun a b => a.entry.1 < b.entry.1) := by
  obtain ⟨hvalid, hholds⟩ := hput.holds
  have hmem : ∀ e, e ∈ walk.filter (fun e => lower ≤ e.1 ∧ e.1 < upper) ↔
      ∃ q, Newest qs q ∧ q.entry = e ∧ lower <+: e.1 := by
    intro e
    rw [List.mem_filter, hwalk.mem_iff, decide_eq_true_iff, range_iff_initial hupper]
    constructor
    · rintro ⟨he, hlower⟩
      rw [ProjectionDb.entry_iff_of_initial (hfamily.trans hlower)] at he
      obtain ⟨q, hq, hentry⟩ := (hholds e.1 e.2).mp he
      exact ⟨q, hq, hentry, hlower⟩
    · rintro ⟨q, hq, rfl, hlower⟩
      exact ⟨(ProjectionDb.entry_iff_of_initial (hfamily.trans hlower)).mpr
        ((hholds _ _).mpr ⟨q, hq, rfl⟩), hlower⟩
  obtain ⟨live, hlive⟩ : walk.filter (fun e => lower ≤ e.1 ∧ e.1 < upper) ∈
      Set.range (List.map fun q : {q // Newest qs q} => q.1.entry) := by
    rw [Set.range_list_map]
    intro e he
    obtain ⟨q, hq, hentry, -⟩ := (hmem e).mp he
    exact ⟨⟨q, hq⟩, hentry⟩
  have hall : walk.filter (fun e => lower ≤ e.1 ∧ e.1 < upper) =
      (live.map Subtype.val).map (·.entry) := by
    rw [← hlive, List.map_map]
    rfl
  refine ⟨live.map Subtype.val, hall, fun q hq => ?_, fun q => ⟨fun hq => ?_, fun hq => ?_⟩, ?_⟩
  · obtain ⟨x, -, rfl⟩ := List.mem_map.mp hq
    exact hvalid _ x.2
  · obtain ⟨x, -, rfl⟩ := List.mem_map.mp hq
    have hx : x.1.entry ∈ walk.filter (fun e => lower ≤ e.1 ∧ e.1 < upper) :=
      hall ▸ List.mem_map_of_mem hq
    obtain ⟨-, -, -, hlower⟩ := (hmem _).mp hx
    exact ⟨x.2, hlower⟩
  · obtain ⟨x, hx, hentry⟩ := List.mem_map.mp (hall ▸ (hmem _).mpr ⟨q, hq.1, rfl, hq.2⟩)
    obtain ⟨y, -, rfl⟩ := List.mem_map.mp hx
    -- one entry is the entry of one record
    have hsame := decodeContentQuarantineEntry_entry (hvalid _ y.2)
    rw [hentry, decodeContentQuarantineEntry_entry (hvalid q hq.1)] at hsame
    exact Except.ok.inj hsame ▸ hx
  · have hsorted := hwalk.ascending.filter (fun e => lower ≤ e.1 ∧ e.1 < upper)
    rwa [hall, List.pairwise_map] at hsorted

/-- **A list returns the first records of the Transaction by their names, or of all by their keys**,
each as it was put last. -/
theorem listContentQuarantines_exact (hput : QuarantineStore.Puts qs p.contentQuarantines)
    (hwalk : p.Walk walk) {n : Int} (hn : 0 < n) :
    (∀ t, TextField.Valid ⟨"transaction_id", t, maxTransactionIDBytes, true⟩ →
      ∃ all : List ContentQuarantine,
        all.Pairwise (fun a b => utf8 a.documentName < utf8 b.documentName) ∧
        (∀ q, q ∈ all ↔ Newest qs q ∧ q.transactionID = t) ∧
        listContentQuarantines walk t n = .ok (all.take n.toNat)) ∧
    ∃ all : List ContentQuarantine, all.Pairwise (fun a b => a.entry.1 < b.entry.1) ∧
      (∀ q, q ∈ all ↔ Newest qs q) ∧ listContentQuarantines walk "" n = .ok (all.take n.toNat) := by
  have hn' : ¬ n ≤ 0 := by omega
  refine ⟨fun t ht => ?_, ?_⟩
  · obtain ⟨upper, hupper⟩ := countUp_append_cons (b := 0) (by decide)
      (contentQuarantinePrefix ++ utf8 t)
    obtain ⟨all, hrange, hall, hmem, hsorted⟩ := records_of_range hput hwalk hupper
      ⟨utf8 t ++ [0], (List.append_assoc _ _ _).symm⟩
    have hmem' : ∀ q, q ∈ all ↔ Newest qs q ∧ q.transactionID = t := by
      intro q
      rw [hmem]
      exact and_congr_right fun hq => initial_key_iff ht.2.2 (hput.holds.1 q hq)
    refine ⟨all, ?_, hmem', ?_⟩
    · refine hsorted.imp_of_mem fun {a b} ha hb hlt => ?_
      rw [ContentQuarantine.entry, ContentQuarantine.entry, ((hmem' a).mp ha).2,
        ((hmem' b).mp hb).2, contentQuarantineKeyBytes, contentQuarantineKeyBytes,
        append_lt_append_iff, List.cons_lt_cons_iff] at hlt
      exact (hlt.resolve_left (by decide)).2
    · have htext : validateContentQuarantineText "transaction_id" t = .ok () :=
        validateTextField_ok_iff.mpr ht
      simp only [listContentQuarantines, if_neg hn', contentQuarantineScanBounds,
        if_neg (ht.1 rfl), htext, contentQuarantinePrefixSuccessor, hupper, Option.getD_some]
      rw [hrange, readContentQuarantines_entries _ hall]
  · have hupper : countUp contentQuarantinePrefix = some [0x71, 0x02] := rfl
    obtain ⟨all, hrange, hall, hmem, hsorted⟩ := records_of_range hput hwalk hupper List.prefix_rfl
    refine ⟨all, hsorted, fun q => ?_, ?_⟩
    · rw [hmem]
      exact and_iff_left ⟨_, (List.append_assoc _ _ _).symm⟩
    have hbounds : contentQuarantineScanBounds "" =
        .ok (contentQuarantinePrefix, [0x71, 0x02]) := rfl
    simp only [listContentQuarantines, if_neg hn', hbounds]
    rw [hrange, readContentQuarantines_entries _ hall]

end Walk

theorem walk_of_puts {qs : List ContentQuarantine} {db : QuarantineStore}
    (all : List ContentQuarantine) (hputs : QuarantineStore.Puts qs db)
    (hall : ∀ q, q ∈ all ↔ Newest qs q)
    (hsorted : all.Pairwise fun a b => a.entry.1 < b.entry.1) :
    ProjectionDb.Walk ⟨.empty, db, fun _ => none, none⟩ (all.map ContentQuarantine.entry) where
  ascending := List.pairwise_map.mpr hsorted
  mem_iff e := by
    rw [List.mem_map]
    constructor
    · rintro ⟨q, hq, rfl⟩
      exact .record (.contentQuarantine _ _)
        ((hputs.holds.2 _ _).mpr ⟨q, (hall q).mp hq, rfl⟩)
    · rintro (⟨r, hr⟩ | ⟨_, _, h⟩ | ⟨_, h⟩)
      · cases r with
        | contentQuarantine key val =>
          obtain ⟨q, hq, hentry⟩ := (hputs.holds.2 key val).mp hr
          exact ⟨q, (hall q).mpr hq, hentry⟩
        | tx txID val => cases hr
        | pendingUpload blockID u => cases hr
        | confirmedUpload blockID u => cases hr
      · cases h
      · cases h

/-- A record of the Transaction `tx`. -/
def flagged (documentName : String) : ContentQuarantine := ⟨"tx", documentName, 1, 60, 0, 1, 1⟩

theorem flagged_puts : ∃ db, QuarantineStore.Puts [flagged "doc", flagged "pdf"] db := by
  have hvalid : (flagged "doc").Valid ∧ (flagged "pdf").Valid :=
    ⟨validateContentQuarantine_ok_iff.mp (by decide +kernel),
      validateContentQuarantine_ok_iff.mp (by decide +kernel)⟩
  exact ⟨_, .put (.put .none (putContentQuarantine_of_valid _ hvalid.2))
    (putContentQuarantine_of_valid _ hvalid.1)⟩

theorem listContentQuarantines_exact_flagged : ∃ all : List ContentQuarantine,
    (∀ q, q ∈ all ↔ Newest [flagged "doc", flagged "pdf"] q ∧ q.transactionID = "tx") ∧
      listContentQuarantines [(flagged "doc").entry, (flagged "pdf").entry] "tx" 2 =
        .ok (all.take 2) := by
  obtain ⟨db, hputs⟩ := flagged_puts
  have hall : ∀ q, q ∈ [flagged "doc", flagged "pdf"] ↔ Newest [flagged "doc", flagged "pdf"] q := by
    intro q
    simp only [List.mem_cons, List.not_mem_nil, Newest, false_and, or_false]
    refine or_congr_right ⟨?_, And.left⟩
    rintro rfl
    exact ⟨rfl, by decide⟩
  have hwalk := walk_of_puts [flagged "doc", flagged "pdf"] hputs hall (by decide +kernel)
  obtain ⟨found, -, hfound, hlist⟩ := (listContentQuarantines_exact hputs hwalk (n := 2)
    (by decide)).1 "tx" (validateTextField_ok_iff.mp (by decide +kernel))
  exact ⟨found, hfound, hlist⟩

end Scrap
