/-
# SstTransports.Util.Bitmask — the masks of `ofi_bitmask.h`.

A `struct bitmask` is a number of bits and the bytes that hold them.  The functions work on the bytes;
`Bitmask.bit` is what they mean by them, and each function has one lemma that says what it does to the
bits: `ofiBitmaskUnset` takes one away, `ofiBitmaskGetLsbset` finds the lowest one that is left, and
gives the number of bits if there is none.

`CidMask` is a mask of the size that the endpoints keep for their groups.
-/
import Mathlib.Data.List.GetD
import SstTransports.Lib.Fold

namespace SstTransports.Util

open SstTransports.Lib

/-- `struct bitmask`. -/
structure Bitmask where
  size : Nat
  bytes : List (BitVec 8)
  deriving DecidableEq, Repr

namespace Bitmask

/-! ## §1 — the functions -/

/-- `ofi_bitmask_create`.  It is the number of bytes, not of bits, that is checked for a remainder. -/
def ofiBitmaskCreate (size : Nat) : Bitmask :=
  let byteSize := size / 8
  let byteSize := if byteSize % 8 ≠ 0 then byteSize + 1 else byteSize
  ⟨size, List.replicate byteSize 0⟩

def ofiBitmaskBytesize (m : Bitmask) : Nat :=
  if m.size % 8 ≠ 0 then m.size / 8 + 1 else m.size / 8

/-- `ofi_bitmask_unset`; `none` where it fails its assertion or writes behind the bytes. -/
def ofiBitmaskUnset (m : Bitmask) (idx : Nat) : Option Bitmask :=
  if idx ≤ m.size ∧ idx / 8 < m.bytes.length then
    some { m with bytes := m.bytes.modify (idx / 8) fun b => b &&& ~~~ (1#8 <<< (idx % 8)) }
  else none

/-- `ofi_bitmask_set_all`; `none` where it writes behind the bytes. -/
def ofiBitmaskSetAll (m : Bitmask) : Option Bitmask :=
  if m.ofiBitmaskBytesize ≤ m.bytes.length then
    some { m with bytes := List.replicate m.ofiBitmaskBytesize 0xff ++
      m.bytes.drop m.ofiBitmaskBytesize }
  else none

/-- The loop over the bits of a byte in `ofi_bitmask_get_lsbset`. -/
def lsbsetByte : Nat → BitVec 8 → Nat → Nat
  | 0, _, ret => ret
  | fuel + 1, tmp, ret =>
    if tmp &&& 1 = 0 then lsbsetByte fuel (tmp >>> 1) (ret + 1) else ret

/-- The loop over the bytes. -/
def lsbsetBytes : List (BitVec 8) → Nat → Nat
  | [], ret => ret
  | b :: bs, ret => if b ≠ 0 then lsbsetByte 8 b ret else lsbsetBytes bs (ret + 8)

def ofiBitmaskGetLsbset (m : Bitmask) : Nat := lsbsetBytes (m.bytes.take (m.size / 8)) 0

/-! ## §2 — the bits -/

/-- A bit of some bytes. -/
def bitOf (bs : List (BitVec 8)) (i : Nat) : Bool := (bs[i / 8]?.getD 0).getLsbD (i % 8)

/-- A bit of a mask. -/
def bit (m : Bitmask) (i : Nat) : Bool := bitOf m.bytes i

theorem bitOf_cons_lt {b : BitVec 8} {bs : List (BitVec 8)} {i : Nat} (h : i < 8) :
    bitOf (b :: bs) i = b.getLsbD i := by
  unfold bitOf
  rw [Nat.div_eq_of_lt h, Nat.mod_eq_of_lt h]
  rfl

theorem bitOf_cons_add {b : BitVec 8} {bs : List (BitVec 8)} (i : Nat) :
    bitOf (b :: bs) (i + 8) = bitOf bs i := by
  unfold bitOf
  rw [Nat.add_div_right _ (by omega), Nat.add_mod_right]
  rfl

/-- Taking a bit away leaves the others. -/
theorem bit_of_unset {m m' : Bitmask} {idx : Nat} (h : m.ofiBitmaskUnset idx = some m') (i : Nat) :
    m'.bit i = (m.bit i && decide (i ≠ idx)) := by
  unfold ofiBitmaskUnset at h
  split at h
  · rename_i hin
    cases h
    unfold bit bitOf
    simp only [List.getElem?_modify]
    by_cases hbyte : idx / 8 = i / 8
    · simp only [hbyte, if_true]
      rw [List.getElem?_eq_getElem (by omega)]
      have hmod : (1#8 <<< (idx % 8)).getLsbD (i % 8) = decide (i = idx) := by
        rw [BitVec.getLsbD_shiftLeft]
        by_cases hi : i = idx
        · subst hi
          simp [Nat.mod_lt]
        · have : i % 8 < idx % 8 ∨ idx % 8 < i % 8 := by omega
          simp only [hi]
          rcases this with hlt | hlt
          · simp [hlt]
          · have : i % 8 - idx % 8 ≠ 0 := by omega
            simp [this]
      show (m.bytes[i / 8] &&& ~~~ (1#8 <<< (idx % 8))).getLsbD (i % 8) =
        (m.bytes[i / 8].getLsbD (i % 8) && decide (i ≠ idx))
      rw [BitVec.getLsbD_and, BitVec.getLsbD_not, hmod, decide_eq_true (Nat.mod_lt i (by decide : 8 > 0))]
      simp
    · have hi : i ≠ idx := by
        rintro rfl
        exact hbyte rfl
      simp [hbyte, hi]
  · cases h

/-- All bits of a byte below its lowest are zero. -/
theorem lsbsetByte_spec {fuel : Nat} {b : BitVec 8} (ret : Nat) (h : ∃ i < fuel, b.getLsbD i = true) :
    ∃ i < fuel, lsbsetByte fuel b ret = ret + i ∧ b.getLsbD i = true ∧
      ∀ j < i, b.getLsbD j = false := by
  induction fuel generalizing b ret with
  | zero =>
      obtain ⟨i, hi, _⟩ := h
      omega
  | succ fuel ih =>
      have hlow : (b &&& 1 = 0) ↔ b.getLsbD 0 = false := by
        constructor
        · intro hb
          have := congrArg (fun x => x.getLsbD 0) hb
          simpa using this
        · intro hb
          refine BitVec.eq_of_getLsbD_eq fun i hi => ?_
          by_cases hi0 : i = 0
          · subst hi0
            rw [BitVec.getLsbD_and, hb]
            simp
          · simp [BitVec.getLsbD_one, hi0]
      unfold lsbsetByte
      by_cases hb : b.getLsbD 0 = true
      · rw [if_neg (by rw [hlow, hb]; decide)]
        exact ⟨0, by omega, by omega, hb, fun j hj => by omega⟩
      · -- the bits of the shifted byte are the ones above
        have hb' : b.getLsbD 0 = false := by simpa using hb
        rw [if_pos (hlow.mpr hb')]
        obtain ⟨i, hi, hbit⟩ := h
        have hne : i ≠ 0 := by
          rintro rfl
          exact hb hbit
        obtain ⟨k, hk, heq, hset, hmin⟩ := ih (ret + 1) ⟨i - 1, by omega, by
          rw [BitVec.getLsbD_ushiftRight, show 1 + (i - 1) = i by omega]
          exact hbit⟩
        refine ⟨k + 1, by omega, by omega, ?_, fun j hj => ?_⟩
        · rw [BitVec.getLsbD_ushiftRight, Nat.add_comm] at hset
          exact hset
        · cases j with
          | zero => exact hb'
          | succ j =>
              have := hmin j (by omega)
              rw [BitVec.getLsbD_ushiftRight, Nat.add_comm] at this
              exact this

/-- The lowest bit of the bytes, or their number of bits. -/
theorem lsbsetBytes_spec (bs : List (BitVec 8)) (ret : Nat) :
    ∃ i ≤ 8 * bs.length, lsbsetBytes bs ret = ret + i ∧ (∀ j < i, bitOf bs j = false) ∧
      (i < 8 * bs.length → bitOf bs i = true) := by
  induction bs generalizing ret with
  | nil => exact ⟨0, by simp, rfl, fun j hj => by omega, fun h => by simp at h⟩
  | cons b bs ih =>
      unfold lsbsetBytes
      by_cases hb : b = 0
      · rw [if_neg (by simp [hb])]
        obtain ⟨i, hi, heq, hmin, hset⟩ := ih (ret + 8)
        refine ⟨i + 8, by simp; omega, by omega, fun j hj => ?_, fun hlt => ?_⟩
        · by_cases hj8 : j < 8
          · rw [bitOf_cons_lt hj8, hb]
            simp
          · obtain ⟨j, rfl⟩ := Nat.exists_eq_add_of_le' (Nat.le_of_not_lt hj8)
            rw [bitOf_cons_add]
            exact hmin j (by omega)
        · rw [bitOf_cons_add]
          refine hset ?_
          simp only [List.length_cons] at hlt
          omega
      · rw [if_pos hb]
        have hex : ∃ i < 8, b.getLsbD i = true := by
          by_contra hno
          refine hb (BitVec.eq_of_getLsbD_eq fun i hi => ?_)
          have : b.getLsbD i ≠ true := fun h => hno ⟨i, hi, h⟩
          simpa using this
        obtain ⟨i, hi, heq, hset, hmin⟩ := lsbsetByte_spec ret hex
        refine ⟨i, by simp; omega, heq, fun j hj => ?_, fun _ => ?_⟩
        · rw [bitOf_cons_lt (by omega)]
          exact hmin j hj
        · rw [bitOf_cons_lt hi]
          exact hset

theorem length_foldFrom {g : Nat → List (BitVec 8)} {len n : Nat} (hlen : ∀ q ≤ n, (g q).length = len) :
    (foldFrom (List.zipWith (· &&& ·)) g 0 n).length = len := by
  refine foldFrom_induction (p := fun bs : List (BitVec 8) => bs.length = len) 0 n (fun i _ hi => hlen i (by omega)) ?_
  intro a b ha hb
  rw [List.length_zipWith, ha, hb, Nat.min_self]

/-- What the members of a group have in common. -/
theorem bitOf_foldFrom {g : Nat → List (BitVec 8)} {len n : Nat} (hlen : ∀ q ≤ n, (g q).length = len)
    (i : Nat) : bitOf (foldFrom (List.zipWith (· &&& ·)) g 0 n) i = true ↔
      ∀ q ≤ n, bitOf (g q) i = true := by
  induction n with
  | zero => simp
  | succ n ih =>
      have h₁ := length_foldFrom (n := n) fun q hq => hlen q (by omega)
      have h₂ := hlen (n + 1) (Nat.le_refl _)
      have hand : bitOf (foldFrom (List.zipWith (· &&& ·)) g 0 (n + 1)) i =
          (bitOf (foldFrom (List.zipWith (· &&& ·)) g 0 n) i && bitOf (g (n + 1)) i) := by
        unfold bitOf
        simp only [foldFrom_succ, Nat.zero_add, List.getElem?_zipWith]
        by_cases hi : i / 8 < len
        · rw [List.getElem?_eq_getElem (by omega), List.getElem?_eq_getElem (by omega)]
          simp
        · rw [List.getElem?_eq_none (by omega)]
          simp
      rw [hand, Bool.and_eq_true, ih fun q hq => hlen q (by omega)]
      constructor
      · rintro ⟨hall, hlast⟩ q hq
        rcases Nat.lt_or_ge n q with h | h
        · obtain rfl : q = n + 1 := by omega
          exact hlast
        · exact hall q h
      · intro hall
        exact ⟨fun q hq => hall q (by omega), hall _ (Nat.le_refl _)⟩

theorem unset_isSome_iff (m : Bitmask) (idx : Nat) :
    (m.ofiBitmaskUnset idx).isSome = true ↔ idx ≤ m.size ∧ idx / 8 < m.bytes.length := by
  unfold ofiBitmaskUnset
  split <;> simp_all

theorem size_of_unset {m m' : Bitmask} {idx : Nat} (h : m.ofiBitmaskUnset idx = some m') :
    m'.size = m.size ∧ m'.bytes.length = m.bytes.length := by
  unfold ofiBitmaskUnset at h
  split at h
  · cases h
    simp
  · cases h

end Bitmask

/-! ## §3 — the masks of the endpoints -/

/-- `OFI_MAX_GROUP_ID`. -/
def ofiMaxGroupId : Nat := 256

/-- `OFI_WORLD_GROUP_ID`. -/
def ofiWorldGroupId : Nat := 0

/-- `util_coll_init_cid_mask`. -/
def utilCollInitCidMask : Option Bitmask := do
  let mask ← (Bitmask.ofiBitmaskCreate ofiMaxGroupId).ofiBitmaskSetAll
  mask.ofiBitmaskUnset ofiWorldGroupId

/-- The mask of an endpoint, with a bit for every group id that it has not given to a group. -/
structure CidMask where
  mask : Bitmask
  size : mask.size = ofiMaxGroupId
  length : mask.bytes.length = 32

namespace CidMask

/-- The group ids that are free. -/
def bit (c : CidMask) (i : Nat) : Bool := c.mask.bit i

/-- The mask of a new endpoint. -/
def init : CidMask := ⟨⟨ofiMaxGroupId, 0xfe :: List.replicate 31 0xff⟩, rfl, rfl⟩

theorem utilCollInitCidMask_eq : utilCollInitCidMask = some init.mask := by
  decide

theorem bytesize (c : CidMask) : c.mask.ofiBitmaskBytesize = 32 := by
  unfold Bitmask.ofiBitmaskBytesize
  rw [c.size]
  rfl

theorem bit_init {i : Nat} (hi : i < ofiMaxGroupId) : init.bit i = decide (i ≠ ofiWorldGroupId) := by
  revert i
  decide +kernel

def unset (c : CidMask) (idx : Nat) : Option CidMask :=
  (c.mask.ofiBitmaskUnset idx).pmap
    (fun m hm => ⟨m, (Bitmask.size_of_unset hm).1.trans c.size,
      (Bitmask.size_of_unset hm).2.trans c.length⟩)
    fun _ hm => hm

/-- A mask has room for its 256 bits and no other: the assertion would let one more pass. -/
theorem unset_eq_none {c : CidMask} {idx : Nat} : c.unset idx = none ↔ ofiMaxGroupId ≤ idx := by
  have hiff := Bitmask.unset_isSome_iff c.mask idx
  rw [c.size, c.length] at hiff
  unfold unset
  rw [Option.pmap_eq_none_iff, ← Option.not_isSome_iff_eq_none, hiff]
  unfold ofiMaxGroupId
  omega

theorem bit_unset {c c' : CidMask} {idx : Nat} (h : c.unset idx = some c') (i : Nat) :
    c'.bit i = (c.bit i && decide (i ≠ idx)) := by
  unfold unset at h
  obtain ⟨m, hm, _, rfl⟩ := Option.pmap_eq_some_iff.mp h
  exact Bitmask.bit_of_unset hm i

end CidMask

end SstTransports.Util
