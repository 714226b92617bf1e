/-
# SstTransports.Fabric.Address — the fields of an `fi_addr_t`.

A provider address packs a 32-bit rank, a 16-bit completion queue and a 16-bit receive queue into 64
bits.  `ADDR_RANK_BITS`, `ADDR_CQ_BITS` and `ADDR_QUEUE_BITS` put the fields in place; `ADDR_RANK`,
`ADDR_CQ` and `ADDR_QUEUE` are to take them out again.  The latter three combine the shifted address
with their mask by `|`, so each sets the bits it is to select: whatever the address, the rank they
report is `0xFFFFFFFF`, and the completion queue and the queue are `0xFFFF`.
-/
import Mathlib.Data.BitVec

namespace SstTransports.Fabric

abbrev FiAddr := BitVec 64

/-! ## §1 — the macros -/

/-- `ADDR_CQ(addr)` -/
def addrCq (addr : FiAddr) : BitVec 64 := (addr >>> 16) ||| 0xFFFF

/-- `ADDR_RANK(addr)` -/
def addrRank (addr : FiAddr) : BitVec 64 := (addr >>> 32) ||| 0xFFFFFFFF

/-- `ADDR_QUEUE(addr)` -/
def addrQueue (addr : FiAddr) : BitVec 64 := addr ||| 0xFFFF

/-- `ADDR_RANK_BITS(rank)` -/
def addrRankBits (rank : BitVec 64) : BitVec 64 := rank <<< 32

/-- `ADDR_QUEUE_BITS(queue)` -/
def addrQueueBits (queue : BitVec 64) : BitVec 64 := queue

/-- `ADDR_CQ_BITS(cq)` -/
def addrCqBits (cq : BitVec 64) : BitVec 64 := cq <<< 16

/-- The address of a queue, its fields widened to 64 bits. -/
def packAddr (rank : BitVec 32) (cq queue : BitVec 16) : FiAddr :=
  addrRankBits (rank.setWidth 64) ||| addrCqBits (cq.setWidth 64) |||
    addrQueueBits (queue.setWidth 64)

/-! ## §2 — what the field macros report -/

/-- The bits of a mask of `w` ones. -/
theorem getLsbD_mask {w : Nat} (hw : w ≤ 64) (i : Nat) :
    ((BitVec.allOnes w).setWidth 64).getLsbD i = decide (i < w) := by
  rw [BitVec.getLsbD_setWidth, BitVec.getLsbD_allOnes]
  by_cases h : i < w
  · simp [h]
    omega
  · simp [h]

/-- The low field of a value that was or-ed with its mask is all ones. -/
theorem setWidth_or_mask {w : Nat} (hw : w ≤ 64) (x : BitVec 64) :
    (x ||| (BitVec.allOnes w).setWidth 64).setWidth w = BitVec.allOnes w := by
  apply BitVec.eq_of_getLsbD_eq
  intro i hi
  rw [BitVec.getLsbD_setWidth, BitVec.getLsbD_or, getLsbD_mask hw, BitVec.getLsbD_allOnes]
  simp [hi]

/-- `ADDR_RANK` reports one rank for all addresses. -/
theorem addrRank_eq (addr : FiAddr) : addrRank addr = 0xFFFFFFFF := by
  have hmask : (0xFFFFFFFF : BitVec 64) = (BitVec.allOnes 32).setWidth 64 := by decide
  rw [addrRank, hmask]
  apply BitVec.eq_of_getLsbD_eq
  intro i hi
  rw [BitVec.getLsbD_or, BitVec.getLsbD_ushiftRight, getLsbD_mask (by omega)]
  by_cases h : i < 32
  · simp [h]
  · -- beyond the 32 bits of the rank the shifted address is zero
    rw [BitVec.getLsbD_of_ge _ _ (by omega), Bool.false_or]

/-- Truncated to 16 bits, `ADDR_CQ` reports one completion queue for all addresses. -/
theorem addrCq_setWidth (addr : FiAddr) : (addrCq addr).setWidth 16 = BitVec.allOnes 16 :=
  setWidth_or_mask (by omega) (addr >>> 16)

theorem addrQueue_setWidth (addr : FiAddr) : (addrQueue addr).setWidth 16 = BitVec.allOnes 16 :=
  setWidth_or_mask (by omega) addr

/-- Truncated to an `int` only, `ADDR_CQ` shows the low half of the rank above the queue. -/
theorem addrCq_packAddr_bit (rank : BitVec 32) (cq queue : BitVec 16) :
    ((addrCq (packAddr rank cq queue)).setWidth 32).getLsbD 16 = rank.getLsbD 0 := by
  simp [addrCq, packAddr, addrRankBits, addrCqBits, addrQueueBits]

end SstTransports.Fabric
