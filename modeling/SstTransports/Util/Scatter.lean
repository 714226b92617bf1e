/-
# SstTransports.Util.Scatter — the root's blocks go down a binomial tree.

The members are counted from the root.  The parent of a member is the one without the lowest bit of its
number, and what it gets from there are the blocks of itself and of everybody below it; it forwards the
upper half, of what is left the upper half again, and keeps the first block (`scatter_computes`).

The tree is also the first half of the broadcast, so its buffers are parameters.
-/
import Mathlib.Data.Nat.Bitwise
import Mathlib.Data.Nat.Log
import SstTransports.Lib.Bits
import SstTransports.Util.Completes
import SstTransports.Util.Segments

namespace SstTransports.Util

open SstTransports.Lib

variable {β V : Type}

/-! ## §1 — the highest and the lowest bit -/

/-- The loop of `ofi_msb`. -/
def ofiMsbLoop : Nat → Nat → Nat → Nat
  | 0, _, msb => msb
  | fuel + 1, num, msb => if num ≠ 0 then ofiMsbLoop fuel (num >>> 1) (msb + 1) else msb

/-- `ofi_msb`; the number has 64 bits. -/
def ofiMsb (num : Nat) : Nat := ofiMsbLoop 64 num 0

/-- `ofi_lsb`; in 64 bits `~(num - 1)` is `2 ^ 64 - num`. -/
def ofiLsb (num : Nat) : Nat := ofiMsb (num &&& (2 ^ 64 - num))

theorem ofiMsbLoop_two_pow (fuel t msb : Nat) (h : t < fuel) :
    ofiMsbLoop fuel (2 ^ t) msb = msb + t + 1 := by
  induction fuel generalizing t msb with
  | zero => omega
  | succ fuel ih =>
      have hne : 2 ^ t ≠ 0 := Nat.ne_of_gt (Nat.two_pow_pos t)
      unfold ofiMsbLoop
      rw [if_pos hne]
      cases t with
      | zero => cases fuel <;> rfl
      | succ t =>
          rw [Nat.pow_succ, Nat.shiftRight_one, Nat.mul_div_cancel _ (by omega), ih t _ (by omega)]
          omega

/-- The place of the lowest bit, counted from one. -/
theorem ofiLsb_of_lowest {v t : Nat} (h : Lowest v t) (hv : v < 2 ^ 64) : ofiLsb v = t + 1 := by
  have ht : t < 64 := by
    refine (Nat.pow_lt_pow_iff_right (a := 2) (by omega)).mp ?_
    have := h.le
    omega
  rw [ofiLsb, h.and_not hv, ofiMsb, ofiMsbLoop_two_pow 64 t 0 ht, Nat.zero_add]

/-! ## §2 — the schedule -/

/-- `util_binomial_tree_values_to_recv`. -/
def utilBinomialTreeValuesToRecv (rank numranks : Nat) : Nat :=
  let nvalues := 1 <<< (ofiLsb rank - 1)
  if numranks < rank + nvalues then numranks - rank else nvalues

namespace CollOperation

/-- The loop for the receive in `util_coll_scatter`; the result has also the last mask. -/
def utilCollScatterRecvs (localRank relativeRank numranks count curCnt : Nat) (result temp : Ptr β) :
    Nat → Nat → CollOperation β → CollOperation β × Nat
  | 0, mask, op => (op, mask)
  | fuel + 1, mask, op =>
    if mask < numranks then
      if relativeRank &&& mask ≠ 0 then
        let remoteRank := if localRank < mask then localRank + numranks - mask else localRank - mask
        if relativeRank % 2 ≠ 0 then
          -- leaf node, we're receiving the actual data
          (op.utilCollSchedRecv remoteRank result count true, mask)
        else
          -- branch node, we're receiving data which we've got to forward
          (op.utilCollSchedRecv remoteRank temp curCnt true, mask)
      else utilCollScatterRecvs localRank relativeRank numranks count curCnt result temp fuel
        (mask <<< 1) op
    else (op, mask)

/-- The loop for the sends in `util_coll_scatter`. -/
def utilCollScatterSends (localRank relativeRank numranks count : Nat) (sendData : Ptr β) :
    Nat → Nat → Nat → CollOperation β → CollOperation β
  | 0, _, _, op => op
  | fuel + 1, mask, curCnt, op =>
    if 0 < mask then
      if relativeRank + mask < numranks then
        let sendCnt := curCnt - count * mask
        let remoteRank :=
          if numranks ≤ localRank + mask then localRank + mask - numranks else localRank + mask
        utilCollScatterSends localRank relativeRank numranks count sendData fuel (mask >>> 1)
          (curCnt - sendCnt)
          (op.utilCollSchedSend remoteRank (sendData.add (count * mask)) sendCnt true)
      else utilCollScatterSends localRank relativeRank numranks count sendData fuel (mask >>> 1)
        curCnt op
    else op

/-- `util_coll_scatter`; `temp` is the buffer that it allocates.  The mask has 32 bits. -/
def utilCollScatter (op : CollOperation β) (data result temp : Ptr β) (count root : Nat) :
    CollOperation β :=
  let localRank := op.localRank
  let numranks := op.fiAddrCount
  let relativeRank := if root ≤ localRank then localRank - root else localRank + numranks - root
  -- check if we need to participate
  if count = 0 then op
  else
    let curCnt :=
      if relativeRank ≠ 0 ∧ relativeRank % 2 = 0 then
        count * utilBinomialTreeValuesToRecv relativeRank numranks
      else 0
    let curCnt := if localRank = root then count * numranks else curCnt
    let op :=
      if localRank = root ∧ root ≠ 0 then
        -- reorder the send buffer according to destination rank
        (op.utilCollSchedCopy (data.add (localRank * count)) temp ((numranks - localRank) * count)
          true).utilCollSchedCopy data (temp.add ((numranks - localRank) * count)) (localRank * count)
            true
      else op
    let (op, mask) :=
      op.utilCollScatterRecvs localRank relativeRank numranks count curCnt result temp 32 1
    let sendData := if root = localRank ∧ root = 0 then data else temp
    let op := op.utilCollScatterSends localRank relativeRank numranks count sendData 32 (mask >>> 1)
      curCnt
    if relativeRank % 2 = 0 then
      -- the root and all even nodes copy their local data to the result buffer
      op.utilCollSchedCopy sendData result count true
    else op

end CollOperation

/-! ## §3 — the plan -/

/-- A group with a root that has a block for everybody. -/
structure Tree (β V : Type) where
  size : Nat
  cid : Nat
  count : Nat
  root : Nat
  dataBuf : Ptr β
  result : Ptr β
  temp : Ptr β
  data : Nat → List V

namespace Tree

variable (T : Tree β V)

/-- The number of a member, counted from the root. -/
def rel (r : Nat) : Nat := if T.root ≤ r then r - T.root else r + T.size - T.root

/-- The member with a number. -/
def rank (v : Nat) : Nat := if v + T.root < T.size then v + T.root else v + T.root - T.size

/-- How many places of a number are free for the members below. -/
def level (v : Nat) : Nat := if v = 0 then Nat.clog 2 T.size else ofiLsb v - 1

/-- How many members there are from a number down. -/
def below (v : Nat) : Nat := min (2 ^ T.level v) (T.size - v)

/-- The blocks of `k` members from a number on. -/
def span (v k : Nat) : List V := (List.range k).flatMap fun j => T.data (T.rank (v + j))

/-- Where the blocks that a member forwards are. -/
def source (v : Nat) : Ptr β := if v = 0 ∧ T.root = 0 then T.dataBuf else T.temp

/-- The root puts the blocks into the order of the numbers. -/
def arrange (v : Nat) : List (Step β V) :=
  if v = 0 ∧ T.root ≠ 0 then
    [copyStep (T.dataBuf.add (T.root * T.count)) T.temp ((T.size - T.root) * T.count),
      copyStep T.dataBuf (T.temp.add ((T.size - T.root) * T.count)) (T.root * T.count)]
  else []

/-- Everybody else gets the blocks of itself and of the members below. -/
def receive (v : Nat) : List (Step β V) :=
  if v = 0 then []
  else [recvStep T.cid (T.rank (v - 2 ^ T.level v)) (if v % 2 = 0 then T.temp else T.result)
    (T.count * T.below v) true (31 - T.level v) (T.span v (T.below v))]

/-- What goes to the member below at a place. -/
def forward (v i : Nat) : List (Step β V) :=
  if v + 2 ^ i < T.size then
    [sendStep T.cid (T.rank v) (T.rank (v + 2 ^ i)) ((T.source v).add (T.count * 2 ^ i))
      (T.count * T.below (v + 2 ^ i)) true (31 - i)]
  else []

def forwards (v : Nat) : List (Step β V) := (List.range (T.level v)).reverse.flatMap (T.forward v)

/-- The first block is the member's own. -/
def keep (v : Nat) : List (Step β V) :=
  if v % 2 = 0 then [copyStep (T.source v) T.result T.count] else []

def plan (r : Nat) : List (Step β V) :=
  if T.count = 0 then []
  else T.arrange (T.rel r) ++ (T.receive (T.rel r) ++ (T.forwards (T.rel r) ++ T.keep (T.rel r)))

/-- A group that is not larger than the mask allows, a root in it and blocks of the right length. -/
structure Valid : Prop where
  bound : T.size ≤ 2 ^ 30
  counts : T.size * T.count < 2 ^ 31
  root : T.root < T.size
  length : ∀ r < T.size, (T.data r).length = T.count
  apart : T.dataBuf.buf ≠ T.temp.buf

/-! ## §4 — the numbers -/

variable {T} {r v i : Nat}

theorem rel_lt (h : T.Valid) (hr : r < T.size) : T.rel r < T.size := by
  have := h.root
  unfold rel
  split <;> omega

theorem rank_lt (h : T.Valid) (hv : v < T.size) : T.rank v < T.size := by
  have := h.root
  unfold rank
  split <;> omega

theorem rank_rel (h : T.Valid) (hr : r < T.size) : T.rank (T.rel r) = r := by
  have := h.root
  unfold rank rel
  split <;> split <;> omega

theorem rel_rank (h : T.Valid) (hv : v < T.size) : T.rel (T.rank v) = v := by
  have := h.root
  unfold rank rel
  split <;> split <;> omega

theorem rank_inj (h : T.Valid) {u : Nat} (hv : v < T.size) (hu : u < T.size)
    (heq : T.rank v = T.rank u) : v = u := by
  rw [← rel_rank h hv, heq, rel_rank h hu]

/-- The member that is some places before, as the loop for the receive computes it. -/
theorem rank_sub (h : T.Valid) {p : Nat} (hv : v < T.size) (hp : p ≤ v) :
    (if T.rank v < p then T.rank v + T.size - p else T.rank v - p) = T.rank (v - p) := by
  have := h.root
  unfold rank
  split <;> split <;> split <;> omega

/-- The member that is some places behind, as the loop for the sends computes it. -/
theorem rank_add (h : T.Valid) {p : Nat} (hp : v + p < T.size) :
    (if T.size ≤ T.rank v + p then T.rank v + p - T.size else T.rank v + p) = T.rank (v + p) := by
  have := h.root
  unfold rank
  split <;> split <;> split <;> omega

/-- The members below are those with a lower bit more. -/
theorem level_of_lowest (h : T.Valid) {t : Nat} (hv : v < T.size) (hlow : Lowest v t) :
    T.level v = t := by
  have hle := hlow.le
  have hpos := Nat.two_pow_pos t
  have := h.bound
  unfold level
  rw [if_neg (by omega), ofiLsb_of_lowest hlow (by omega), Nat.add_sub_cancel]

theorem lowest_level (h : T.Valid) (hv : v < T.size) (h0 : v ≠ 0) : Lowest v (T.level v) := by
  obtain ⟨t, ht⟩ := exists_lowest h0
  rw [level_of_lowest h hv ht]
  exact ht

theorem two_pow_level_dvd (h : T.Valid) (hv : v < T.size) : 2 ^ T.level v ∣ v := by
  by_cases h0 : v = 0
  · rw [h0]
    exact Nat.dvd_zero _
  · exact (lowest_level h hv h0).dvd

theorem level_add (h : T.Valid) (hv : v < T.size) (hi : i < T.level v) (hlt : v + 2 ^ i < T.size) :
    T.level (v + 2 ^ i) = i :=
  level_of_lowest h hlt (lowest_add (two_pow_level_dvd h hv) hi)

theorem level_le (h : T.Valid) (hv : v < T.size) : T.level v ≤ 30 := by
  have hb := h.bound
  by_cases h0 : v = 0
  · unfold level
    rw [if_pos h0]
    exact Nat.clog_le_of_le_pow hb
  · have := (lowest_level h hv h0).le
    exact (Nat.pow_le_pow_iff_right (a := 2) (by omega)).mp (by omega)

/-- The members below the root are all of them. -/
theorem below_zero : T.below 0 = T.size := by
  have := Nat.le_pow_clog (b := 2) (by omega) T.size
  unfold below level
  rw [if_pos rfl]
  omega

theorem below_pos (hv : v < T.size) : 0 < T.below v := by
  have := Nat.two_pow_pos (T.level v)
  unfold below
  omega

theorem add_below_le (hv : v < T.size) : v + T.below v ≤ T.size := by
  unfold below
  omega

theorem below_add (h : T.Valid) (hv : v < T.size) (hi : i < T.level v) (hlt : v + 2 ^ i < T.size) :
    2 ^ i + T.below (v + 2 ^ i) = min (2 ^ (i + 1)) (T.size - v) := by
  unfold below
  rw [level_add h hv hi hlt, Nat.pow_succ]
  omega

/-- The members below a member below are among those below. -/
theorem below_add_le (h : T.Valid) (hv : v < T.size) (hi : i < T.level v)
    (hlt : v + 2 ^ i < T.size) : 2 ^ i + T.below (v + 2 ^ i) ≤ T.below v := by
  have hpow : 2 ^ (i + 1) ≤ 2 ^ T.level v := Nat.pow_le_pow_right (by omega) hi
  rw [below_add h hv hi hlt]
  unfold below
  omega

theorem below_of_odd (h : T.Valid) (hv : v < T.size) (hodd : v % 2 ≠ 0) :
    T.level v = 0 ∧ T.below v = 1 := by
  have hlow : Lowest v 0 := by
    unfold Lowest
    omega
  have hlevel := level_of_lowest h hv hlow
  refine ⟨hlevel, ?_⟩
  unfold below
  rw [hlevel]
  omega

theorem utilBinomialTreeValuesToRecv_eq (h0 : v ≠ 0) :
    utilBinomialTreeValuesToRecv v T.size = T.below v := by
  unfold utilBinomialTreeValuesToRecv below level
  rw [if_neg h0, Nat.one_shiftLeft]
  generalize 2 ^ (ofiLsb v - 1) = nvalues
  simp only
  split <;> omega

/-! ## §5 — the schedule is the plan -/

theorem recvs_eq (h : T.Valid) {op : CollOperation β} (hc : op.cid = T.cid) (hv : v < T.size)
    (curCnt : Nat) (hcur : v % 2 = 0 → curCnt = T.count * T.below v) (fuel i : Nat)
    (hi : i ≤ T.level v) (hfuel : T.level v < i + fuel) :
    op.utilCollScatterRecvs (T.rank v) v T.size T.count curCnt T.result T.temp fuel (2 ^ i) =
      (op.schedule (items (T.receive v)), 2 ^ T.level v) := by
  induction fuel generalizing i with
  | zero => omega
  | succ fuel ih =>
      unfold CollOperation.utilCollScatterRecvs
      by_cases hlast : i = T.level v
      · subst hlast
        by_cases h0 : v = 0
        · -- the root gets nothing
          subst h0
          have hle := Nat.le_pow_clog (b := 2) (by omega) T.size
          rw [if_neg (by simpa [level] using hle)]
          rfl
        · have hlow := lowest_level h hv h0
          have hle := hlow.le
          have hbit : v &&& 2 ^ T.level v ≠ 0 := by
            rw [Nat.and_comm, Nat.two_pow_and, hlow.testBit _ (Nat.le_refl _)]
            simp
          rw [if_pos (by omega), if_pos hbit]
          simp only [rank_sub h hv hle]
          unfold receive
          rw [if_neg h0]
          by_cases heven : v % 2 = 0
          · rw [if_neg (by omega), if_pos heven, hcur heven, ← hc]
            rfl
          · rw [if_pos heven, if_neg heven, (below_of_odd h hv heven).2, Nat.mul_one, ← hc]
            rfl
      · have hlt : i < T.level v := by omega
        have hmask : 2 ^ i <<< 1 = 2 ^ (i + 1) := by
          rw [Nat.shiftLeft_eq, ← Nat.pow_add]
        obtain ⟨hsmall, hbit⟩ : 2 ^ i < T.size ∧ v &&& 2 ^ i = 0 := by
          by_cases h0 : v = 0
          · subst h0
            simp only [level, if_true] at hlt
            exact ⟨(Nat.lt_clog_iff_pow_lt (by omega)).mp hlt, Nat.zero_and _⟩
          · have hlow := lowest_level h hv h0
            have hpow : 2 ^ i < 2 ^ T.level v := Nat.pow_lt_pow_right (by omega) hlt
            refine ⟨by have := hlow.le; omega, ?_⟩
            rw [Nat.and_comm, Nat.two_pow_and, hlow.testBit i (by omega)]
            simp [hlast]
        rw [if_pos hsmall, if_neg (by simpa using hbit), hmask]
        exact ih (i + 1) (by omega) (by omega)

theorem sends_eq (h : T.Valid) {op : CollOperation β} (hc : op.cid = T.cid)
    (hl : op.localRank = T.rank v) (hv : v < T.size) (fuel i : Nat) (hi : i ≤ T.level v)
    (hfuel : i < fuel) :
    op.utilCollScatterSends (T.rank v) v T.size T.count (T.source v) fuel (2 ^ i >>> 1)
        (T.count * min (2 ^ i) (T.size - v)) =
      op.schedule (items ((List.range i).reverse.flatMap (T.forward v))) := by
  induction fuel generalizing op i with
  | zero => omega
  | succ fuel ih =>
      cases i with
      | zero => rfl
      | succ i =>
          have hpos := Nat.two_pow_pos i
          have hmask : 2 ^ (i + 1) >>> 1 = 2 ^ i := by
            rw [Nat.pow_succ, Nat.shiftRight_one, Nat.mul_div_cancel _ (by omega)]
          unfold CollOperation.utilCollScatterSends
          rw [hmask, if_pos hpos, List.range_succ, List.reverse_append, List.reverse_singleton,
            List.flatMap_append, List.flatMap_singleton, items_append,
            ← CollOperation.schedule_append]
          by_cases hlt : v + 2 ^ i < T.size
          · have hmin := below_add h hv hi hlt
            have hcnt : T.count * min (2 ^ (i + 1)) (T.size - v) - T.count * 2 ^ i =
                T.count * T.below (v + 2 ^ i) := by
              rw [← hmin, Nat.mul_add, Nat.add_sub_cancel_left]
            have hleft : T.count * min (2 ^ (i + 1)) (T.size - v) - T.count * T.below (v + 2 ^ i) =
                T.count * min (2 ^ i) (T.size - v) := by
              rw [← hmin, Nat.mul_add, Nat.add_sub_cancel, Nat.min_eq_left (by omega)]
            rw [if_pos hlt]
            simp only [hcnt, hleft, rank_add h hlt]
            have hsched : op.utilCollSchedSend (T.rank (v + 2 ^ i)) ((T.source v).add (T.count * 2 ^ i))
                (T.count * T.below (v + 2 ^ i)) true = op.schedule (items (T.forward v i)) := by
              rw [forward, if_pos hlt, sendStep, ← hc, ← hl]
              rfl
            rw [hsched]
            exact ih (by simpa using hc) (by simpa using hl) i (by omega) (by omega)
          · have hmin : min (2 ^ (i + 1)) (T.size - v) = min (2 ^ i) (T.size - v) := by
              rw [Nat.pow_succ]
              omega
            rw [if_neg hlt, hmin, ih hc hl i (by omega) (by omega), forward, if_neg hlt]
            rfl

/-- What `util_coll_scatter` schedules. -/
theorem utilCollScatter_eq (h : T.Valid) {op : CollOperation β} (hr : r < T.size)
    (hc : op.cid = T.cid) (hl : op.localRank = r) (hn : op.fiAddrCount = T.size) :
    op.utilCollScatter T.dataBuf T.result T.temp T.count T.root =
      op.schedule (items (T.plan r)) := by
  have hv := rel_lt h hr
  have hrank := rank_rel h hr
  have hroot : r = T.root ↔ T.rel r = 0 := by
    have := h.root
    unfold rel
    split <;> omega
  unfold CollOperation.utilCollScatter plan
  rw [hn, hl]
  simp only [show (if T.root ≤ r then r - T.root else r + T.size - T.root) = T.rel r from rfl]
  by_cases hzero : T.count = 0
  · rw [if_pos hzero, if_pos hzero]
    rfl
  rw [if_neg hzero, if_neg hzero]
  generalize T.rel r = v at *
  have hcur : v % 2 = 0 → (if r = T.root then T.count * T.size else
      if v ≠ 0 ∧ v % 2 = 0 then T.count * utilBinomialTreeValuesToRecv v T.size else 0) =
        T.count * T.below v := by
    intro heven
    by_cases h0 : v = 0
    · rw [if_pos (hroot.mpr h0), h0, below_zero]
    · rw [if_neg (fun hc => h0 (hroot.mp hc)), if_pos ⟨h0, heven⟩, utilBinomialTreeValuesToRecv_eq h0]
  generalize (if r = T.root then T.count * T.size else
      if v ≠ 0 ∧ v % 2 = 0 then T.count * utilBinomialTreeValuesToRecv v T.size else 0) = curCnt at *
  have hsource : (if T.root = r ∧ T.root = 0 then T.dataBuf else T.temp) = T.source v := by
    unfold source
    simp only [← hroot, eq_comm]
  have harrange : (if r = T.root ∧ T.root ≠ 0 then
      (op.utilCollSchedCopy (T.dataBuf.add (r * T.count)) T.temp ((T.size - r) * T.count)
        true).utilCollSchedCopy T.dataBuf (T.temp.add ((T.size - r) * T.count)) (r * T.count) true
      else op) = op.schedule (items (T.arrange v)) := by
    unfold arrange
    by_cases hmoved : v = 0 ∧ T.root ≠ 0
    · rw [if_pos ⟨hroot.mpr hmoved.1, hmoved.2⟩, if_pos hmoved, hroot.mpr hmoved.1]
      rfl
    · rw [if_neg (fun hc => hmoved ⟨hroot.mp hc.1, hc.2⟩), if_neg hmoved]
      rfl
  have hlevel := level_le h hv
  have hrecvs : (op.schedule (items (T.arrange v))).utilCollScatterRecvs r v T.size T.count curCnt
      T.result T.temp 32 1 = ((op.schedule (items (T.arrange v))).schedule (items (T.receive v)),
        2 ^ T.level v) := by
    have hcid : (op.schedule (items (T.arrange v))).cid = T.cid := by simpa using hc
    have := recvs_eq h hcid hv curCnt hcur 32 0 (by omega) (by omega)
    rwa [hrank, Nat.pow_zero] at this
  have hsends : ∀ op' : CollOperation β, op'.cid = T.cid → op'.localRank = r →
      op'.utilCollScatterSends r v T.size T.count (T.source v) 32 (2 ^ T.level v >>> 1) curCnt =
        op'.schedule (items (T.forwards v)) := by
    intro op' hc' hl'
    by_cases heven : v % 2 = 0
    · have := sends_eq h hc' (by rw [hl', hrank]) hv 32 (T.level v) (Nat.le_refl _) (by omega)
      rw [hrank] at this
      rw [hcur heven]
      exact this
    · rw [forwards, (below_of_odd h hv heven).1]
      rfl
  have hkeep : ∀ op' : CollOperation β,
      (if v % 2 = 0 then op'.utilCollSchedCopy (T.source v) T.result T.count true else op') =
        op'.schedule (items (T.keep v)) := by
    intro op'
    unfold keep
    split <;> rfl
  rw [harrange]
  simp only [hsource, hrecvs]
  rw [hsends _ (by simpa using hc) (by simpa using hl), hkeep]
  simp only [CollOperation.schedule_append, items_append, List.append_assoc]

/-! ## §6 — executing the plan -/

theorem length_span (h : T.Valid) (v k : Nat) (hk : v + k ≤ T.size) :
    (T.span v k).length = T.count * k := by
  have hlen : ∀ j ∈ List.range k, (T.data (T.rank (v + j))).length = T.count := by
    intro j hj
    have hj := List.mem_range.mp hj
    exact h.length _ (rank_lt h (by omega))
  unfold span
  rw [List.length_flatMap, List.map_congr_left hlen]
  simp [Nat.mul_comm]

theorem span_add (v a b : Nat) : T.span v (a + b) = T.span v a ++ T.span (v + a) b := by
  simp [span, List.range_add, List.flatMap_map, Nat.add_assoc]

theorem span_one (v : Nat) : T.span v 1 = T.data (T.rank v) := by
  simp [span]

/-- Some of the blocks that are in a buffer. -/
theorem read_span (h : T.Valid) {m : Mem β V} {p : Ptr β} {k a b : Nat} (hvk : v + k ≤ T.size)
    (hab : a + b ≤ k) (hm : m.read p (T.count * k) = T.span v k) :
    m.read (p.add (T.count * a)) (T.count * b) = T.span (v + a) b := by
  obtain ⟨c, rfl⟩ := Nat.exists_eq_add_of_le hab
  rw [Nat.mul_add, Nat.mul_add, Mem.read_add, Mem.read_add, span_add, span_add] at hm
  have hfirst := (List.append_inj' hm (by
    rw [Mem.length_read, length_span h _ _ (by omega)])).1
  exact (List.append_inj hfirst (by rw [Mem.length_read, length_span h _ _ (by omega)])).2

/-- The root has the blocks in the order of the ranks. -/
def Given (T : Tree β V) (v : Nat) (m : Mem β V) : Prop :=
  v = 0 → m.read T.dataBuf (T.count * T.size) = (List.range T.size).flatMap T.data

/-- The same group with the first member as the root. -/
def unrooted (T : Tree β V) : Tree β V := { T with root := 0 }

theorem Valid.unrooted (h : T.Valid) : T.unrooted.Valid :=
  ⟨h.bound, h.counts, Nat.zero_lt_of_lt h.root, h.length, h.apart⟩

theorem span_unrooted (v k : Nat) (hk : v + k ≤ T.size) :
    T.unrooted.span v k = (List.range k).flatMap fun j => T.data (v + j) := by
  refine List.flatMap_congr fun j hj => ?_
  have hj := List.mem_range.mp hj
  have hrank : T.unrooted.rank (v + j) = v + j := if_pos (show v + j + 0 < T.size by omega)
  rw [hrank]
  rfl

/-- From the root on the blocks are in the order of the ranks, and then again. -/
theorem span_eq_unrooted (h : T.Valid) : T.span 0 T.size =
    T.unrooted.span T.root (T.size - T.root) ++ T.unrooted.span 0 T.root := by
  have hroot := h.root
  rw [span_unrooted _ _ (by omega), span_unrooted _ _ (by omega)]
  have hsplit := span_add (T := T) 0 (T.size - T.root) T.root
  rw [Nat.sub_add_cancel (by omega)] at hsplit
  rw [hsplit]
  congr 1
  · refine List.flatMap_congr fun j hj => ?_
    have hj := List.mem_range.mp hj
    rw [rank, if_pos (by omega), Nat.zero_add, Nat.add_comm]
  · refine List.flatMap_congr fun j hj => ?_
    have hj := List.mem_range.mp hj
    rw [rank, if_neg (by omega)]
    congr 1
    omega

theorem expected_plan (hz : T.count ≠ 0) (r s : Nat) : expected s (T.plan r) =
    if T.rel r ≠ 0 ∧ T.rank (T.rel r - 2 ^ T.level (T.rel r)) = s then
      [(31 - T.level (T.rel r), T.span (T.rel r) (T.below (T.rel r)))] else [] := by
  unfold plan
  rw [if_neg hz]
  generalize T.rel r = v
  have harrange : expected s (T.arrange v) = [] := by
    unfold arrange
    split <;> simp [expected]
  have hforwards : expected s (T.forwards v) = [] := by
    unfold forwards
    rw [expected, List.flatMap_assoc]
    refine List.flatMap_eq_nil_iff.mpr fun i _ => ?_
    unfold forward
    split <;> simp
  have hkeep : expected s (T.keep v) = [] := by
    unfold keep
    split <;> simp [expected]
  rw [expected_append, expected_append, expected_append, harrange, hforwards, hkeep]
  unfold receive
  by_cases h0 : v = 0
  · simp [h0, expected]
  · simp [h0, expected]

/-- A list with one hit. -/
theorem flatMap_eq_singleton {α : Type} {p : Nat → Prop} [DecidablePred p] {x : Nat → α}
    {is : List Nat} (hn : is.Nodup) {i : Nat} (hi : i ∈ is) (hp : ∀ j ∈ is, p j ↔ j = i) :
    (is.flatMap fun j => if p j then [x j] else []) = [x i] := by
  induction is with
  | nil => cases hi
  | cons j is ih =>
      obtain ⟨hj, hn⟩ := List.nodup_cons.mp hn
      rw [List.flatMap_cons]
      by_cases hji : j = i
      · subst hji
        have hrest : (is.flatMap fun j => if p j then [x j] else []) = [] := by
          refine List.flatMap_eq_nil_iff.mpr fun k hk => if_neg fun hc => ?_
          exact hj ((hp k (List.mem_cons_of_mem _ hk)).mp hc ▸ hk)
        rw [if_pos ((hp j List.mem_cons_self).mpr rfl), hrest]
        rfl
      · rw [if_neg fun hc => hji ((hp j List.mem_cons_self).mp hc)]
        exact ih hn ((List.mem_cons.mp hi).resolve_left (Ne.symm hji)) fun k hk =>
          hp k (List.mem_cons_of_mem _ hk)

/-- The parent of a member has its place free. -/
theorem level_lt_of_parent (h : T.Valid) {u : Nat} (hu : u < T.size) (h0 : u ≠ 0)
    (hv : v = u - 2 ^ T.level u) : T.level u < T.level v := by
  have hlow := lowest_level h hu h0
  have hle := hlow.le
  have hpos := Nat.two_pow_pos (T.level u)
  by_cases hv0 : v = 0
  · unfold level at hle ⊢
    rw [if_neg h0] at hle ⊢
    rw [if_pos hv0]
    exact (Nat.lt_clog_iff_pow_lt (by omega)).mpr (by omega)
  · by_contra hnot
    have hlowv := lowest_level h (show v < T.size by omega) hv0
    have hdvd : 2 ^ (T.level v + 1) ∣ v :=
      Nat.dvd_trans (Nat.pow_dvd_pow 2 (by omega)) (hv ▸ hlow.dvd_sub)
    have := Nat.mod_eq_zero_of_dvd hdvd
    rw [hlowv] at this
    have := Nat.two_pow_pos (T.level v)
    omega

/-- What a member sends to another one is what that one expects of it. -/
theorem forwards_eq_expected (h : T.Valid) (hr : r < T.size) {q : Nat} (hq : q < T.size) :
    ((List.range (T.level (T.rel r))).reverse.flatMap fun i =>
      if T.rel r + 2 ^ i < T.size ∧ T.rank (T.rel r + 2 ^ i) = q then
        [(31 - i, T.span (T.rel r + 2 ^ i) (T.below (T.rel r + 2 ^ i)))] else []) =
    if T.rel q ≠ 0 ∧ T.rank (T.rel q - 2 ^ T.level (T.rel q)) = r then
      [(31 - T.level (T.rel q), T.span (T.rel q) (T.below (T.rel q)))] else [] := by
  have hv := rel_lt h hr
  have hu := rel_lt h hq
  have hhit : ∀ i, T.rel r + 2 ^ i < T.size ∧ T.rank (T.rel r + 2 ^ i) = q ↔
      T.rel r + 2 ^ i = T.rel q := by
    intro i
    constructor
    · rintro ⟨hlt, hc⟩
      exact rank_inj h hlt hu (by rw [hc, rank_rel h hq])
    · intro hc
      rw [hc, rank_rel h hq]
      exact ⟨hu, rfl⟩
  by_cases hparent : T.rel q ≠ 0 ∧ T.rank (T.rel q - 2 ^ T.level (T.rel q)) = r
  · obtain ⟨h0, hpar⟩ := hparent
    have hle := (lowest_level h hu h0).le
    have hvu : T.rel r = T.rel q - 2 ^ T.level (T.rel q) := by
      rw [← hpar, rel_rank h (Nat.lt_of_le_of_lt (Nat.sub_le _ _) hu)]
    have hlevel := level_lt_of_parent h hu h0 hvu
    rw [if_pos ⟨h0, hpar⟩]
    rw [flatMap_eq_singleton (i := T.level (T.rel q)) (by simp [List.nodup_range]) (by simpa using hlevel)]
    · rw [show T.rel r + 2 ^ T.level (T.rel q) = T.rel q by omega]
    · intro j hj
      rw [hhit]
      constructor
      · intro hc
        have := level_add h hv (by simpa using hj) (by omega : T.rel r + 2 ^ j < T.size)
        rw [hc] at this
        exact this.symm
      · rintro rfl
        omega
  · rw [if_neg hparent]
    refine List.flatMap_eq_nil_iff.mpr fun i hi => if_neg fun hc => ?_
    have hc := (hhit i).mp hc
    have hpos := Nat.two_pow_pos i
    have hlevel := level_add h hv (by simpa using hi) (by omega : T.rel r + 2 ^ i < T.size)
    rw [hc] at hlevel
    refine hparent ⟨by omega, ?_⟩
    rw [hlevel, show T.rel q - 2 ^ i = T.rel r by omega, rank_rel h hr]

section Execution

variable [DecidableEq β] {handlers : Handlers V} {m : Mem β V} {q : Nat}

theorem sentTo_arrange : sentTo handlers q m (T.arrange v) = [] := by
  unfold arrange
  split <;> simp [sentTo]

theorem sentTo_receive : sentTo handlers q m (T.receive v) = [] := by
  unfold receive
  split <;> simp [sentTo]

theorem sentTo_keep : sentTo handlers q m (T.keep v) = [] := by
  unfold keep
  split <;> simp [sentTo]

/-- The blocks of the root, in the order of the numbers. -/
theorem read_arrange (h : T.Valid) (hm : T.Given 0 m) :
    (memAfter handlers m (T.arrange 0)).read (T.source 0) (T.count * T.size) = T.span 0 T.size := by
  have hroot := h.root
  have hgiven : m.read T.dataBuf (T.count * T.size) = T.unrooted.span 0 T.size := by
    rw [hm rfl, span_unrooted _ _ (by omega)]
    simp only [Nat.zero_add]
  rw [span_eq_unrooted h]
  unfold arrange source
  by_cases h0 : T.root = 0
  · rw [if_neg (by simp [h0]), if_pos ⟨rfl, h0⟩, h0, Nat.sub_zero]
    refine hgiven.trans ?_
    simp [span]
  · rw [if_pos ⟨rfl, h0⟩, if_neg (by simp [h0])]
    have hlow : m.read T.dataBuf (T.root * T.count) = T.unrooted.span 0 T.root := by
      have := read_span h.unrooted (a := 0) (b := T.root) (by omega : 0 + T.size ≤ T.size) (by omega)
        hgiven
      rw [Nat.mul_comm]
      exact this
    have hhigh : m.read (T.dataBuf.add (T.root * T.count)) ((T.size - T.root) * T.count) =
        T.unrooted.span T.root (T.size - T.root) := by
      have := read_span h.unrooted (a := T.root) (b := T.size - T.root)
        (by omega : 0 + T.size ≤ T.size) (by omega) hgiven
      rw [Nat.zero_add] at this
      rw [Nat.mul_comm T.root, Nat.mul_comm (T.size - T.root)]
      exact this
    have hlenlow := length_span h.unrooted 0 T.root (by show 0 + T.root ≤ T.size; omega)
    have hlenhigh := length_span h.unrooted T.root (T.size - T.root)
      (by show T.root + (T.size - T.root) ≤ T.size; omega)
    rw [show T.unrooted.count = T.count from rfl, Nat.mul_comm] at hlenlow hlenhigh
    simp only [memAfter, List.foldl_cons, List.foldl_nil, apply_copyStep]
    rw [hhigh, Mem.read_write_of_ne _ h.apart, hlow,
      show T.count * T.size = (T.size - T.root) * T.count + T.root * T.count by
        rw [← Nat.add_mul, Nat.sub_add_cancel (by omega), Nat.mul_comm],
      Mem.read_add, Mem.read_write_of_disjoint _ (.inr (Nat.le_refl _)),
      Mem.read_write _ _ hlenhigh, Mem.read_write _ _ hlenlow]

theorem memAfter_forward (v i : Nat) : memAfter handlers m (T.forward v i) = m := by
  unfold forward
  split <;> rfl

theorem memAfter_forwards (v : Nat) : memAfter handlers m (T.forwards v) = m := by
  unfold forwards
  induction (List.range (T.level v)).reverse with
  | nil => rfl
  | cons i is ih => rw [List.flatMap_cons, memAfter_append, memAfter_forward, ih]

theorem memAfter_receive (h : T.Valid) (hv : v < T.size) (h0 : v ≠ 0) :
    memAfter handlers m (T.receive v) =
      m.write (if v % 2 = 0 then T.temp else T.result) (T.span v (T.below v)) := by
  unfold receive
  rw [if_neg h0]
  simp only [memAfter, List.foldl_cons, List.foldl_nil]
  exact apply_recvStep _ _ _ _ _ (length_span h _ _ (add_below_le hv))

/-- Before it forwards anything an even member has the blocks from its number down. -/
theorem read_source (handlers : Handlers V) (h : T.Valid) (hv : v < T.size) (heven : v % 2 = 0) (hm : T.Given v m) :
    (memAfter handlers (memAfter handlers m (T.arrange v)) (T.receive v)).read (T.source v)
      (T.count * T.below v) = T.span v (T.below v) := by
  by_cases h0 : v = 0
  · subst h0
    rw [below_zero]
    exact read_arrange h hm
  · rw [memAfter_receive h hv h0, if_pos heven, source, if_neg (by simp [h0])]
    exact Mem.read_write _ _ (length_span h _ _ (add_below_le hv))

/-- What a member sends. -/
theorem sentTo_forwards (h : T.Valid) (hv : v < T.size)
    (hm : T.level v ≠ 0 → m.read (T.source v) (T.count * T.below v) = T.span v (T.below v)) :
    sentTo handlers q m (T.forwards v) = (List.range (T.level v)).reverse.flatMap fun i =>
      if v + 2 ^ i < T.size ∧ T.rank (v + 2 ^ i) = q then
        [(31 - i, T.span (v + 2 ^ i) (T.below (v + 2 ^ i)))] else [] := by
  have hone : ∀ i < T.level v, sentTo handlers q m (T.forward v i) =
      if v + 2 ^ i < T.size ∧ T.rank (v + 2 ^ i) = q then
        [(31 - i, T.span (v + 2 ^ i) (T.below (v + 2 ^ i)))] else [] := by
    intro i hi
    unfold forward
    by_cases hlt : v + 2 ^ i < T.size
    · have hread := read_span h (add_below_le hv) (below_add_le h hv hi hlt) (hm (by omega))
      rw [if_pos hlt]
      simp [sentTo, hlt, hread]
    · rw [if_neg hlt, if_neg (fun hc => hlt hc.1)]
      rfl
  unfold forwards
  have hall : ∀ i ∈ (List.range (T.level v)).reverse, i < T.level v := by simp
  generalize (List.range (T.level v)).reverse = is at *
  induction is with
  | nil => rfl
  | cons i is ih =>
      rw [List.flatMap_cons, List.flatMap_cons, sentTo_append, memAfter_forward,
        hone i (hall i List.mem_cons_self),
        ih fun j hj => hall j (List.mem_cons_of_mem _ hj)]

theorem sentTo_plan (handlers : Handlers V) (h : T.Valid) (hr : r < T.size) (hq : q < T.size) (hm : T.Given (T.rel r) m) :
    sentTo handlers q m (T.plan r) = expected r (T.plan q) := by
  by_cases hz : T.count = 0
  · simp [plan, hz, sentTo, expected]
  have hv := rel_lt h hr
  have hsource : T.level (T.rel r) ≠ 0 → (memAfter handlers (memAfter handlers m (T.arrange (T.rel r)))
      (T.receive (T.rel r))).read (T.source (T.rel r)) (T.count * T.below (T.rel r)) =
        T.span (T.rel r) (T.below (T.rel r)) := by
    intro hl
    refine read_source handlers h hv ?_ hm
    by_contra hodd
    exact hl (below_of_odd h hv hodd).1
  rw [expected_plan hz, ← forwards_eq_expected h hr hq, ← sentTo_forwards h hv hsource]
  unfold plan
  rw [if_neg hz, sentTo_append, sentTo_append, sentTo_append, sentTo_arrange, sentTo_receive,
    sentTo_keep, List.append_nil]
  rfl

/-- In the end a member has its block. -/
theorem read_plan (handlers : Handlers V) (h : T.Valid) (hr : r < T.size) (hm : T.Given (T.rel r) m) :
    (memAfter handlers m (T.plan r)).read T.result T.count = T.data r := by
  have hlen := h.length r hr
  by_cases hz : T.count = 0
  · rw [hz] at hlen ⊢
    rw [List.length_eq_zero_iff.mp hlen]
    rfl
  have hv := rel_lt h hr
  have hrank := rank_rel h hr
  unfold plan
  rw [if_neg hz, memAfter_append, memAfter_append, memAfter_append, memAfter_forwards]
  by_cases heven : T.rel r % 2 = 0
  · have hread := read_span (a := 0) (b := 1) h (add_below_le hv) (below_pos hv)
      (read_source handlers h hv heven hm)
    rw [Nat.mul_one, Nat.mul_zero, Nat.add_zero, span_one, hrank] at hread
    unfold keep
    rw [if_pos heven]
    simp only [memAfter, List.foldl_cons, List.foldl_nil, apply_copyStep]
    rw [Mem.read_write _ _ (by simp)]
    exact hread
  · have h0 : T.rel r ≠ 0 := by omega
    unfold keep
    rw [if_neg heven, memAfter_receive h hv h0, if_neg heven, (below_of_odd h hv heven).2, span_one,
      hrank]
    exact Mem.read_write _ _ hlen

end Execution

/-! ## §7 — the items of the plan -/

/-- Copies, the receive and the sends. -/
theorem mem_plan {a : Step β V} (ha : a ∈ T.plan r) :
    (∃ p q n, a = copyStep p q n) ∨
    (∃ p, T.rel r ≠ 0 ∧ a = recvStep T.cid (T.rank (T.rel r - 2 ^ T.level (T.rel r))) p
      (T.count * T.below (T.rel r)) true (31 - T.level (T.rel r))
      (T.span (T.rel r) (T.below (T.rel r)))) ∨
    ∃ i p n, i < T.level (T.rel r) ∧ T.rel r + 2 ^ i < T.size ∧
      a = sendStep T.cid (T.rank (T.rel r)) (T.rank (T.rel r + 2 ^ i)) p n true (31 - i) := by
  unfold plan at ha
  split at ha
  · cases ha
  · simp only [List.mem_append] at ha
    rcases ha with ha | ha | ha | ha
    · unfold arrange at ha
      split at ha
      · rcases List.mem_pair.mp ha with rfl | rfl
        · exact .inl ⟨_, _, _, rfl⟩
        · exact .inl ⟨_, _, _, rfl⟩
      · cases ha
    · unfold receive at ha
      split at ha
      · cases ha
      · rename_i h0
        obtain rfl := List.mem_singleton.mp ha
        exact .inr (.inl ⟨_, h0, rfl⟩)
    · obtain ⟨i, hi, ha⟩ := List.mem_flatMap.mp ha
      unfold forward at ha
      split at ha
      · rename_i hlt
        obtain rfl := List.mem_singleton.mp ha
        exact .inr (.inr ⟨i, _, _, by simpa using hi, hlt, rfl⟩)
      · cases ha
    · unfold keep at ha
      split at ha
      · obtain rfl := List.mem_singleton.mp ha
        exact .inl ⟨_, _, _, rfl⟩
      · cases ha

theorem level_le_clog (h : T.Valid) (hv : v < T.size) : T.level v ≤ Nat.clog 2 T.size := by
  by_cases h0 : v = 0
  · exact Nat.le_of_eq (if_pos h0)
  · have := (lowest_level h hv h0).le
    exact Nat.le_of_lt ((Nat.lt_clog_iff_pow_lt (by omega)).mpr (by omega))

theorem length_plan_le (h : T.Valid) (hr : r < T.size) :
    (T.plan r).length ≤ Nat.clog 2 T.size + 4 := by
  have hlevel := level_le_clog h (rel_lt h hr)
  unfold plan
  split
  · simp
  · generalize T.rel r = v at *
    have harrange : (T.arrange v).length ≤ 2 := by
      unfold arrange
      split <;> simp
    have hreceive : (T.receive v).length ≤ 1 := by
      unfold receive
      split <;> simp
    have hforwards : (T.forwards v).length ≤ T.level v := by
      unfold forwards
      rw [List.length_flatMap]
      refine (List.sum_le_card_nsmul _ 1 ?_).trans ?_
      · simp only [List.mem_map, forall_exists_index, and_imp, forall_apply_eq_imp_iff₂]
        intro i _
        unfold forward
        split <;> simp
      · simp
    have hkeep : (T.keep v).length ≤ 1 := by
      unfold keep
      split <;> simp
    simp only [List.length_append]
    omega

theorem groups_plan (T : Tree β V) (r : Nat) : Groups (T.plan r) := by
  refine .of_fences fun a ha => ?_
  rcases mem_plan ha with ⟨_, _, _, rfl⟩ | ⟨_, _, rfl⟩ | ⟨_, _, _, _, _, rfl⟩
  · rfl
  · rfl
  · rfl

/-- The data of the root is read within its bounds. -/
theorem accesses_dataBuf (h : T.Valid) (hres : T.result.buf ≠ T.dataBuf.buf) (hr : r < T.size) :
    ∀ a ∈ T.plan r, ∀ x ∈ a.work.accesses, x.1.buf = T.dataBuf.buf →
      x.1.off + x.2 ≤ T.dataBuf.off + T.count * T.size := by
  have hroot := h.root
  have hv := rel_lt h hr
  have hapart := h.apart.symm
  unfold plan
  split
  · simp
  generalize T.rel r = v at *
  have hsource : ∀ k n, k + n ≤ T.count * T.size → ((T.source v).add k).buf = T.dataBuf.buf →
      ((T.source v).add k).off + n ≤ T.dataBuf.off + T.count * T.size := by
    intro k n hkn hbuf
    unfold source at hbuf ⊢
    split at hbuf
    · rename_i hz
      rw [if_pos hz, Ptr.add_off]
      omega
    · exact absurd hbuf hapart
  intro a ha x hx hbuf
  simp only [List.mem_append] at ha
  rcases ha with ha | ha | ha | ha
  · have hsum : T.root * T.count + (T.size - T.root) * T.count = T.count * T.size := by
      rw [← Nat.add_mul, Nat.add_sub_cancel' (by omega), Nat.mul_comm]
    unfold arrange at ha
    split at ha
    · rcases List.mem_pair.mp ha with rfl | rfl
      · rcases List.mem_pair.mp hx with rfl | rfl
        · simp only [Ptr.add_off]
          omega
        · exact absurd hbuf hapart
      · rcases List.mem_pair.mp hx with rfl | rfl
        · simp only
          omega
        · exact absurd hbuf hapart
    · cases ha
  · unfold receive at ha
    split at ha
    · cases ha
    · obtain rfl := List.mem_singleton.mp ha
      obtain rfl := List.mem_singleton.mp hx
      simp only at hbuf
      split at hbuf
      · exact absurd hbuf hapart
      · exact absurd hbuf hres
  · obtain ⟨i, hi, ha⟩ := List.mem_flatMap.mp ha
    unfold forward at ha
    split at ha
    · rename_i hlt
      obtain rfl := List.mem_singleton.mp ha
      obtain rfl := List.mem_singleton.mp hx
      refine hsource _ _ ?_ hbuf
      rw [← Nat.mul_add]
      refine Nat.mul_le_mul_left _ ((below_add_le h hv (by simpa using hi) hlt).trans ?_)
      exact (Nat.min_le_right _ _).trans (Nat.sub_le _ _)
    · cases ha
  · unfold keep at ha
    split at ha
    · obtain rfl := List.mem_singleton.mp ha
      rcases List.mem_pair.mp hx with rfl | rfl
      · exact hsource 0 _ (by rw [Nat.zero_add]; exact Nat.le_mul_of_pos_right _ (by omega)) hbuf
      · exact absurd hbuf hres
    · cases ha

theorem roundsOk_plan (h : T.Valid) (hr : r < T.size) : RoundsOk (T.plan r) := by
  have hlevel := level_le h (rel_lt h hr)
  refine .of_lt fun a ha b hb hra hsb => ?_
  rcases mem_plan ha with ⟨_, _, _, rfl⟩ | ⟨_, _, rfl⟩ | ⟨_, _, _, _, _, rfl⟩
  · cases hra
  · rcases mem_plan hb with ⟨_, _, _, rfl⟩ | ⟨_, _, rfl⟩ | ⟨i, _, _, hi, _, rfl⟩
    · cases hsb
    · cases hsb
    · show 31 - T.level (T.rel r) < 31 - i
      omega
  · cases hra

theorem within_plan [DecidableEq β] {handlers : Handlers V} {g : Group β V} (h : T.Valid)
    (hs : g.size = T.size) (ht : g.tag = utilCollFormTag T.cid) (hr : r < T.size) :
    ∀ a ∈ T.plan r, Within handlers g r 0 31 a := by
  have hv := rel_lt h hr
  intro a ha
  rcases mem_plan ha with ⟨_, _, _, rfl⟩ | ⟨_, h0, rfl⟩ | ⟨i, _, _, _, hlt, rfl⟩
  · exact fun m => rfl
  · exact ⟨by rw [hs]; exact rank_lt h (Nat.lt_of_le_of_lt (Nat.sub_le _ _) hv), by rw [ht],
      Nat.zero_le _, Nat.sub_le _ _⟩
  · exact ⟨by rw [hs]; exact rank_lt h hlt, by rw [ht, rank_rel h hr], Nat.zero_le _, Nat.sub_le _ _⟩

end Tree

/-! ## §8 — every run -/

/-- The buffers of the call; `temp` is allocated by it. -/
inductive ScatterBuf where
  | buf | result | temp
  deriving DecidableEq, Repr

/-- The arguments of the members' calls of `ofi_ep_scatter`; `data` are the root's blocks. -/
structure Scatter (V : Type) where
  size : Nat
  cid : Nat
  count : Nat
  root : Nat
  data : Nat → List V

namespace Scatter

/-- What `ofi_ep_scatter` schedules at a member. -/
def ofiEpScatter (S : Scatter V) (r : Nat) : CollOperation ScatterBuf :=
  (({ cid := S.cid, localRank := r, fiAddrCount := S.size } :
    CollOperation ScatterBuf).utilCollScatter ⟨.buf, 0⟩ ⟨.result, 0⟩ ⟨.temp, 0⟩ S.count
      S.root).utilCollSchedComp

/-- The group of the calls; `mem` are the members' buffers before. -/
def group (S : Scatter V) (mem : Nat → Mem ScatterBuf V) : Group ScatterBuf V where
  size := S.size
  tag := utilCollFormTag S.cid
  schedule := fun r => (S.ofiEpScatter r).workQueue.map fun x => (x.work, x.fence)
  mem := fun r =>
    if r = S.root then (mem r).write ⟨.buf, 0⟩ ((List.range S.size).flatMap S.data) else mem r

/-- The tree of the call. -/
def tree (S : Scatter V) : Tree ScatterBuf V :=
  ⟨S.size, S.cid, S.count, S.root, ⟨.buf, 0⟩, ⟨.result, 0⟩, ⟨.temp, 0⟩, S.data⟩

/-- A group that is not larger than the mask allows, a root in it and blocks of the right length. -/
structure Valid (S : Scatter V) : Prop where
  bound : S.size ≤ 2 ^ 30
  counts : S.size * S.count < 2 ^ 31
  root : S.root < S.size
  length : ∀ r < S.size, (S.data r).length = S.count

variable {S : Scatter V}

theorem Valid.tree (h : S.Valid) : S.tree.Valid :=
  ⟨h.bound, h.counts, h.root, h.length, by simp [Scatter.tree]⟩

theorem given (h : S.Valid) (mem : Nat → Mem ScatterBuf V) {r : Nat} (hr : r < S.size) :
    S.tree.Given (S.tree.rel r) ((S.group mem).mem r) := by
  intro h0
  have hrank := Tree.rank_rel h.tree hr
  have hlen : ((List.range S.size).flatMap S.data).length = S.count * S.size := by
    have := S.tree.unrooted.length_span h.tree.unrooted 0 S.size (Nat.le_of_eq (Nat.zero_add _))
    rw [S.tree.span_unrooted 0 S.size (Nat.le_of_eq (Nat.zero_add _))] at this
    simp only [Nat.zero_add] at this
    exact this
  have hroot : r = S.root := by
    rw [← hrank, h0]
    have := h.root
    simp [Tree.rank, Scatter.tree, h.root]
  show (if r = S.root then _ else _ : Mem ScatterBuf V).read _ _ = _
  rw [if_pos hroot]
  exact Mem.read_write _ _ hlen

/-- The plans of the members fit together. -/
theorem sound (h : S.Valid) (handlers : Handlers V) (mem : Nat → Mem ScatterBuf V) :
    Sound handlers (S.group mem) fun r => S.tree.plan r ++ [compStep] := by
  refine Sound.of_body 31 (fun r hr => schedule_comp (S.tree.utilCollScatter_eq h.tree hr rfl rfl rfl) rfl)
    (fun r _ => S.tree.groups_plan r) (fun r hr => Tree.roundsOk_plan h.tree hr)
    (fun r hr => Tree.within_plan h.tree rfl rfl hr) ?_
  intro s hs r hr
  have hspec := Tree.sentTo_plan handlers h.tree hs hr (given h mem hs)
  rw [sentTo_append, expected_append, hspec]
  rfl

/-- **The root's blocks.**  Whatever the interleaving, every member ends with the block that the root
had for it. -/
theorem scatter_computes (h : S.Valid) (handlers : Handlers V) (mem : Nat → Mem ScatterBuf V) :
    Computes handlers (S.group mem) (S.size * (3 * Nat.clog 2 S.size + 16)) fun r m =>
      m.read ⟨.result, 0⟩ S.count = S.data r := by
  refine (sound h handlers mem).computes ?_ ?_
  · refine (Finset.sum_le_card_nsmul _ _ (3 * Nat.clog 2 S.size + 16) fun r hr => ?_).trans ?_
    · have := Tree.length_plan_le h.tree (Finset.mem_range.mp hr)
      simp only [List.length_append, List.length_singleton]
      exact Nat.succ_le_succ (by show _ ≤ 3 * (Nat.clog 2 S.tree.size + 5); omega)
    · exact Nat.le_of_eq (by rw [Finset.card_range]; rfl)
  · intro r hr
    rw [memAfter_append, memAfter_compStep]
    exact Tree.read_plan handlers h.tree hr (given h mem hr)

/-- Member 2 of five has a number for everybody. -/
def scatterOfFive : Scatter Nat := ⟨5, 7, 1, 2, fun r => [10 * r]⟩

theorem scatterOfFive_valid : scatterOfFive.Valid :=
  ⟨by decide, by decide, by decide, fun _ _ => rfl⟩

theorem scatter_computes_five : ∃ evs net,
    run (Net.step (fun _ => none) (scatterOfFive.group fun _ _ _ => 0)) {} evs = .ok net ∧
      ∀ r < 5, ∃ ep, net.ep r = some ep ∧ ep.comps = 1 ∧ ep.mem.read ⟨.result, 0⟩ 1 = [10 * r] := by
  obtain ⟨evs, net, _, hrun, hall⟩ := (scatter_computes scatterOfFive_valid (fun _ => none)
    fun _ _ _ => 0).continues [] trivial rfl
  exact ⟨evs, net, hrun, hall⟩

end Scatter

end SstTransports.Util
