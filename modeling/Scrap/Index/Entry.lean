/-
# The Transaction records of the Projection

The Projection keeps one record per Transaction: the Blocks its Documents were committed to, the
number of Documents, and the completed flag, as a byte string in Pebble,

    version(1) block_count(2) block_id(8)* doc_count(2) completed(1)

little-endian. `decodeEntry` accepts exactly the lengths `encodeEntry` writes. The block count is
written modulo `2 ^ 16`, so the round trip needs fewer than `65536` Block IDs.
-/
import Mathlib.Logic.Function.Basic
import Scrap.Lib.Bytes

namespace Scrap

open Bytes

structure Entry where
  blockIDs : List UInt64
  docCount : UInt16
  completed : Bool
deriving DecidableEq

inductive IndexErr where
  /-- `ErrNotFound` -/
  | notFound
  /-- `index: value too short: %d bytes` -/
  | valueTooShort (n : Nat)
  /-- `index: unknown value version: %d` -/
  | unknownVersion (v : UInt8)
  /-- `index: value length mismatch: need %d, got %d` -/
  | lengthMismatch (need got : Nat)
  /-- `index: doc count at maximum %d` -/
  | docCountAtMaximum
deriving DecidableEq

def valueVersion : UInt8 := 0x01
def sizeBlockID : Nat := 8
def headerLen : Nat := 3
def trailerLen : Nat := 3
def minEncodedLen : Nat := headerLen + trailerLen
def maxDocCount : UInt16 := 65535

def encodeBlockIDs (ids : List UInt64) : List UInt8 :=
  ids.flatMap (fun id => leBytes sizeBlockID id.toNat)

def encodeEntry (e : Entry) : List UInt8 :=
  valueVersion :: leBytes 2 e.blockIDs.length ++ encodeBlockIDs e.blockIDs ++
    leBytes 2 e.docCount.toNat ++ [if e.completed then 1 else 0]

def decodeBlockIDs : Nat → List UInt8 → List UInt64
  | 0, _ => []
  | n + 1, val =>
    UInt64.ofNat (leNat (val.take sizeBlockID)) ::
      decodeBlockIDs n (val.drop sizeBlockID)

def decodeEntry (val : List UInt8) : Except IndexErr Entry :=
  if val.length < minEncodedLen then .error (.valueTooShort val.length)
  else if val.headD 0 ≠ valueVersion then .error (.unknownVersion (val.headD 0))
  else
    let blockCount := leNat ((val.drop 1).take 2)
    let expected := headerLen + sizeBlockID * blockCount + trailerLen
    if val.length ≠ expected then .error (.lengthMismatch expected val.length)
    else
      let tail := val.drop (headerLen + sizeBlockID * blockCount)
      .ok
        { blockIDs := decodeBlockIDs blockCount (val.drop headerLen)
          docCount := UInt16.ofNat (leNat (tail.take 2))
          completed := (tail.drop 2).headD 0 = 1 }

/-! ## The round trip -/

@[simp] theorem length_encodeBlockIDs :
    ∀ ids : List UInt64, (encodeBlockIDs ids).length = sizeBlockID * ids.length
  | [] => rfl
  | id :: ids => by
    have ih := length_encodeBlockIDs ids
    simp only [encodeBlockIDs, List.flatMap_cons, List.length_append, length_leBytes,
      List.length_cons] at ih ⊢
    rw [ih, Nat.mul_succ, Nat.add_comm]

theorem decodeBlockIDs_encodeBlockIDs :
    ∀ (ids : List UInt64) (rest : List UInt8),
      decodeBlockIDs ids.length (encodeBlockIDs ids ++ rest) = ids
  | [], _ => rfl
  | id :: ids, rest => by
    have hlen : (leBytes sizeBlockID id.toNat).length = sizeBlockID := by simp
    have happ : encodeBlockIDs (id :: ids) ++ rest =
        leBytes sizeBlockID id.toNat ++ (encodeBlockIDs ids ++ rest) := by
      simp [encodeBlockIDs]
    rw [happ, List.length_cons, decodeBlockIDs,
      List.drop_left' hlen, decodeBlockIDs_encodeBlockIDs ids rest]
    simp [sizeBlockID]

theorem length_encodeEntry (e : Entry) :
    (encodeEntry e).length = headerLen + sizeBlockID * e.blockIDs.length + trailerLen := by
  simp [encodeEntry, headerLen, trailerLen]
  omega

theorem leNat_blockCount (e : Entry) :
    leNat (((encodeEntry e).drop 1).take 2) = e.blockIDs.length % 256 ^ 2 := by
  have htake : ((encodeEntry e).drop 1).take 2 = leBytes 2 e.blockIDs.length := by simp [encodeEntry]
  rw [htake, leNat_leBytes]

theorem decodeEntry_encodeEntry {e : Entry} (h : e.blockIDs.length < 65536) :
    decodeEntry (encodeEntry e) = .ok e := by
  have hlen := length_encodeEntry e
  have hcount : leNat (((encodeEntry e).drop 1).take 2) = e.blockIDs.length := by
    rw [leNat_blockCount, Nat.mod_eq_of_lt (by simpa using h)]
  have hids : (encodeEntry e).drop headerLen = encodeBlockIDs e.blockIDs ++
        (leBytes 2 e.docCount.toNat ++ [if e.completed then 1 else 0]) := by
    simp [encodeEntry, headerLen]
  have htail : (encodeEntry e).drop (headerLen + sizeBlockID * e.blockIDs.length) =
      leBytes 2 e.docCount.toNat ++ [if e.completed then 1 else 0] := by
    rw [← List.drop_drop, hids, List.drop_left' (by simp)]
  have hhead : (encodeEntry e).headD 0 = valueVersion := rfl
  have hmin : ¬ (encodeEntry e).length < minEncodedLen := by rw [minEncodedLen]; omega
  unfold decodeEntry
  rw [if_neg hmin, if_neg (not_not_intro hhead)]
  simp only [hcount, htail, hlen]
  rw [hids, decodeBlockIDs_encodeBlockIDs]
  cases e with
  | mk ids count completed => cases completed <;> simp

theorem decodeEntry_overflow {e : Entry} (h : e.blockIDs.length = 65536) :
    ∃ err, decodeEntry (encodeEntry e) = .error err := by
  have hlen := length_encodeEntry e
  have hcount : leNat (((encodeEntry e).drop 1).take 2) = 0 := by
    -- The count has two bytes, so 65536 is written as zero.
    rw [leNat_blockCount, h]
    rfl
  have hhead : (encodeEntry e).headD 0 = valueVersion := rfl
  have hmin : ¬ (encodeEntry e).length < minEncodedLen := by rw [minEncodedLen]; omega
  unfold decodeEntry
  rw [if_neg hmin, if_neg (not_not_intro hhead)]
  simp only [hcount, hlen, h]
  exact ⟨_, if_pos (by simp [sizeBlockID])⟩

end Scrap
