/-
# SstTransports.Util.Allreduce — reducing a value over a group, for every member.

The group is cut down to a power of two: among the first `2 * rem` members each odd one takes the value
of the even one below it, and the even ones wait for the result.  The others then exchange their values
in rounds, the partner in round `i` being the one whose number differs in bit `i`.  In every round the
one with the higher rank reduces what it gets into its own value and the one with the lower rank does it
the other way round, so that both compute the same term.

`allreduce_agreement` needs nothing of the reduction function for this reason: also for a function that
is neither commutative nor associative, such as a sum of floating point numbers, every member ends
with the same value.  `allreduce_value` says which value it is when the function is both, and
`allreduce_completes` that every member gets it.
-/
import Mathlib.Data.Nat.Bitwise
import SstTransports.Lib.Bits
import SstTransports.Lib.Fold
import SstTransports.Util.Completes
import SstTransports.Util.Reduction
import SstTransports.Util.Segments

namespace SstTransports.Util

open SstTransports.Lib

/-! ## §1 — powers of two -/

/-- `roundup_power_of_two`, in 64 bits. -/
def roundupPowerOfTwo (n : Nat) : Nat :=
  if n = 0 ∨ n &&& (n - 1) = 0 then n
  else
    let n := n - 1
    let n := n ||| n >>> 1
    let n := n ||| n >>> 2
    let n := n ||| n >>> 4
    let n := n ||| n >>> 8
    let n := n ||| n >>> 16
    let n := n ||| n >>> 32
    (n + 1) % 2 ^ 64

/-- `rounddown_power_of_two`. -/
def rounddownPowerOfTwo (n : Nat) : Nat :=
  let pof2 := roundupPowerOfTwo n
  if pof2 > n then pof2 >>> 1 else pof2

/-- The greatest power of two that is not above the number. -/
theorem rounddownPowerOfTwo_eq {n : Nat} (hn : n ≠ 0) (hle : n ≤ 2 ^ 63) :
    rounddownPowerOfTwo n = 2 ^ n.log2 := by
  by_cases hpow : n &&& (n - 1) = 0
  · obtain ⟨k, rfl⟩ := (Nat.and_sub_one_eq_zero_iff_isPowerOfTwo hn).mp hpow
    simp [rounddownPowerOfTwo, roundupPowerOfTwo, hpow]
  · have hne : n ≠ 2 ^ n.log2 := fun h =>
      hpow ((Nat.and_sub_one_eq_zero_iff_isPowerOfTwo hn).mpr ⟨_, h⟩)
    obtain ⟨hlo, hhi⟩ := (Nat.log2_eq_iff hn).mp rfl
    have hone := Nat.one_le_two_pow (n := n.log2)
    have hlog : (n - 1).log2 = n.log2 := (Nat.log2_eq_iff (by omega)).mpr ⟨by omega, by omega⟩
    have hlog63 : n.log2 < 63 := by
      refine (Nat.pow_lt_pow_iff_right (a := 2) (by omega)).mp ?_
      omega
    have hcov := (Covers.one (n - 1)).double.double.double.double.double.double
    have hfill := hcov.eq_two_pow_sub_one (by omega) (by omega)
    rw [hlog] at hfill
    have hlt64 : 2 ^ (n.log2 + 1) < 2 ^ 64 := Nat.pow_lt_pow_right (by omega) (by omega)
    have hup : roundupPowerOfTwo n = 2 ^ (n.log2 + 1) := by
      unfold roundupPowerOfTwo
      rw [if_neg (by simp [hn, hpow])]
      simp only [hfill]
      rw [Nat.sub_add_cancel (by omega), Nat.mod_eq_of_lt hlt64]
    unfold rounddownPowerOfTwo
    simp only [hup]
    rw [if_pos hhi, Nat.shiftRight_eq_div_pow, Nat.pow_succ]
    omega

/-! ## §2 — the schedule -/

/-- The buffers of the call; the user's buffer is copied into `result` before anything is scheduled. -/
inductive AllreduceBuf where
  | result | tmp
  deriving DecidableEq, Repr

/-- The address `result` of the call. -/
def resultPtr : Ptr AllreduceBuf := ⟨.result, 0⟩

/-- The address `tmp_buf` of the call. -/
def tmpPtr : Ptr AllreduceBuf := ⟨.tmp, 0⟩

namespace CollOperation

/-- The loop over the rounds in `util_coll_allreduce`.  The mask has 64 bits, so there are at most that
many rounds. -/
def utilCollAllreduceLoop (rem pof2 myNewId count : Nat) (fiOp : FiOp) :
    Nat → Nat → CollOperation AllreduceBuf → CollOperation AllreduceBuf
  | 0, _, op => op
  | fuel + 1, mask, op =>
    if mask < pof2 then
      let nextRemote := myNewId ^^^ mask
      let remote := if nextRemote < rem then nextRemote * 2 + 1 else nextRemote + rem
      -- receive remote data into tmp buf
      let op := op.utilCollSchedRecv remote tmpPtr count false
      -- send result buf, which has the current total
      let op := op.utilCollSchedSend remote resultPtr count true
      let op :=
        if remote < op.localRank then
          -- reduce received remote into result buf
          op.utilCollSchedReduce tmpPtr resultPtr count fiOp true
        else
          -- reduce local result into received data, copy total into result
          (op.utilCollSchedReduce resultPtr tmpPtr count fiOp true).utilCollSchedCopy
            tmpPtr resultPtr count true
      utilCollAllreduceLoop rem pof2 myNewId count fiOp fuel (mask <<< 1) op
    else op

/-- `util_coll_allreduce`; `my_new_id` is `none` for the value -1. -/
def utilCollAllreduce (op : CollOperation AllreduceBuf) (count : Nat) (fiOp : FiOp) :
    CollOperation AllreduceBuf :=
  let pof2 := rounddownPowerOfTwo op.fiAddrCount
  let rem := op.fiAddrCount - pof2
  let localRank := op.localRank
  let (op, myNewId) :=
    if localRank < 2 * rem then
      if localRank % 2 = 0 then
        (op.utilCollSchedSend (localRank + 1) resultPtr count true, none)
      else
        ((op.utilCollSchedRecv (localRank - 1) tmpPtr count true).utilCollSchedReduce
          tmpPtr resultPtr count fiOp true, some (localRank / 2))
    else (op, some (localRank - rem))
  let op :=
    match myNewId with
    | none => op
    | some myNewId => op.utilCollAllreduceLoop rem pof2 myNewId count fiOp 64 1
  if localRank < 2 * rem then
    if localRank % 2 = 1 then op.utilCollSchedSend (localRank - 1) resultPtr count true
    else op.utilCollSchedRecv (localRank + 1) resultPtr count true
  else op

end CollOperation

/-- The arguments of the members' calls of `ofi_ep_allreduce`: the size of the group, the identifier of
the operation, how many elements, the operation and every member's data. -/
structure Allreduce (V : Type) where
  size : Nat
  cid : Nat
  count : Nat
  op : FiOp
  data : Nat → List V

namespace Allreduce

variable {V : Type} (A : Allreduce V)

/-- What `ofi_ep_allreduce` schedules at a member. -/
def ofiEpAllreduce (r : Nat) : CollOperation AllreduceBuf :=
  (({ cid := A.cid, localRank := r, fiAddrCount := A.size } :
    CollOperation AllreduceBuf).utilCollAllreduce A.count A.op).utilCollSchedComp

/-- The group of the calls; `mem` are the members' buffers before. -/
def group (mem : Nat → Mem AllreduceBuf V) : Group AllreduceBuf V where
  size := A.size
  tag := utilCollFormTag A.cid
  schedule := fun r => (A.ofiEpAllreduce r).workQueue.map fun x => (x.work, x.fence)
  mem := fun r => (mem r).write resultPtr (A.data r)

/-! ## §3 — the plan -/

def rem : Nat := A.size - rounddownPowerOfTwo A.size

/-- The rank of the member with a number among those of the rounds. -/
def rankOf (id : Nat) : Nat := if id < A.rem then id * 2 + 1 else id + A.rem

/-- The number of a member in the rounds; the even ones of the first members have none. -/
def newId (r : Nat) : Option Nat :=
  if r < 2 * A.rem then if r % 2 = 0 then none else some (r / 2) else some (r - A.rem)

/-- The value of a member after some rounds. -/
def value (f : V → V → V) : Nat → Nat → List V
  | 0, id =>
    if id < A.rem then List.zipWith f (A.data (id * 2 + 1)) (A.data (id * 2)) else A.data (id + A.rem)
  | i + 1, id =>
    let other := id ^^^ 2 ^ i
    if other < id then List.zipWith f (value f i id) (value f i other)
    else List.zipWith f (value f i other) (value f i id)

def send (r dest round : Nat) : Step AllreduceBuf V :=
  ⟨.send dest (utilCollFormTag A.cid r) resultPtr A.count, true, round, []⟩

def recv (src : Nat) (p : Ptr AllreduceBuf) (fence : Bool) (round : Nat) (arrives : List V) :
    Step AllreduceBuf V :=
  ⟨.recv src (utilCollFormTag A.cid src) p A.count, fence, round, arrives⟩

def reduce (inBuf inoutBuf : Ptr AllreduceBuf) : Step AllreduceBuf V :=
  ⟨.reduce inBuf inoutBuf A.count A.op, true, 0, []⟩

/-- Before the rounds the even ones of the first members give their value away. -/
def pre (r : Nat) : List (Step AllreduceBuf V) :=
  if r < 2 * A.rem then
    if r % 2 = 0 then [A.send r (r + 1) 0]
    else [A.recv (r - 1) tmpPtr true 0 (A.data (r - 1)), A.reduce tmpPtr resultPtr]
  else []

/-- Round `i` of the member `r` with the number `id`. -/
def round (f : V → V → V) (r id i : Nat) : List (Step AllreduceBuf V) :=
  let other := id ^^^ 2 ^ i
  [A.recv (A.rankOf other) tmpPtr false (i + 1) (A.value f i other), A.send r (A.rankOf other) (i + 1)] ++
    if A.rankOf other < r then [A.reduce tmpPtr resultPtr]
    else [A.reduce resultPtr tmpPtr, ⟨.copy tmpPtr resultPtr A.count, true, 0, []⟩]

def rounds (f : V → V → V) (r : Nat) : List (Step AllreduceBuf V) :=
  match A.newId r with
  | none => []
  | some id => (List.range A.size.log2).flatMap (A.round f r id)

/-- After the rounds the even ones get the result. -/
def post (f : V → V → V) (r : Nat) : List (Step AllreduceBuf V) :=
  if r < 2 * A.rem then
    if r % 2 = 0 then
      [A.recv (r + 1) resultPtr true (A.size.log2 + 1) (A.value f A.size.log2 (r / 2))]
    else [A.send r (r - 1) (A.size.log2 + 1)]
  else []

def body (f : V → V → V) (r : Nat) : List (Step AllreduceBuf V) :=
  A.pre r ++ (A.rounds f r ++ A.post f r)

def plan (f : V → V → V) (r : Nat) : List (Step AllreduceBuf V) :=
  A.body f r ++ [⟨.comp, true, 0, []⟩]

/-! ## §4 — the members and their numbers -/

/-- A group that is not empty and not larger than the ranks of a tag allow. -/
structure Valid : Prop where
  pos : A.size ≠ 0
  bound : A.size < 2 ^ 31
  counts : A.count < 2 ^ 31
  length : ∀ r < A.size, (A.data r).length = A.count

variable {A}

theorem Valid.pof2 (h : A.Valid) : rounddownPowerOfTwo A.size = 2 ^ A.size.log2 := by
  have := h.bound
  exact rounddownPowerOfTwo_eq h.pos (by omega)

theorem Valid.size_eq (h : A.Valid) : A.size = A.rem + 2 ^ A.size.log2 ∧ A.rem < 2 ^ A.size.log2 := by
  obtain ⟨hlo, hhi⟩ := (Nat.log2_eq_iff h.pos).mp rfl
  rw [Nat.pow_succ] at hhi
  unfold rem
  rw [h.pof2]
  omega

theorem rankOf_of_newId {r id : Nat} (h : A.newId r = some id) : A.rankOf id = r := by
  unfold newId at h
  unfold rankOf
  split at h
  · split at h
    · cases h
    · cases h
      rw [if_pos (by omega)]
      omega
  · cases h
    rw [if_neg (by omega)]
    omega

theorem newId_rankOf (id : Nat) : A.newId (A.rankOf id) = some id := by
  unfold newId rankOf
  by_cases hid : id < A.rem
  · rw [if_pos hid, if_pos (by omega), if_neg (by omega)]
    exact congrArg some (by omega)
  · rw [if_neg hid, if_neg (by omega)]
    exact congrArg some (by omega)

theorem rankOf_lt (h : A.Valid) {id : Nat} (hid : id < 2 ^ A.size.log2) : A.rankOf id < A.size := by
  obtain ⟨hs, hr⟩ := h.size_eq
  unfold rankOf
  split <;> omega

theorem newId_lt (h : A.Valid) {r id : Nat} (hr : r < A.size) (hid : A.newId r = some id) :
    id < 2 ^ A.size.log2 := by
  obtain ⟨hs, hrem⟩ := h.size_eq
  unfold newId at hid
  split at hid
  · split at hid
    · cases hid
    · cases hid
      omega
  · cases hid
    omega

/-- The ranks are in the order of the numbers. -/
theorem rankOf_lt_rankOf {id id' : Nat} : A.rankOf id < A.rankOf id' ↔ id < id' := by
  unfold rankOf
  split <;> split <;> omega

theorem rankOf_inj {id id' : Nat} : A.rankOf id = A.rankOf id' ↔ id = id' := by
  unfold rankOf
  split <;> split <;> omega

theorem xor_lt {i id T : Nat} (hi : i < T) (hid : id < 2 ^ T) : id ^^^ 2 ^ i < 2 ^ T :=
  Nat.xor_lt_two_pow hid (Nat.pow_lt_pow_right (by omega) hi)

theorem xor_xor (id i : Nat) : id ^^^ 2 ^ i ^^^ 2 ^ i = id := by
  rw [Nat.xor_assoc, Nat.xor_self, Nat.xor_zero]

/-! ## §5 — the schedule is the plan -/

theorem loop_eq (f : V → V → V) {op : CollOperation AllreduceBuf} {r : Nat} (id : Nat) (hc : op.cid = A.cid)
    (hr : op.localRank = r) {T : Nat} (fuel i : Nat) (hfuel : T ≤ i + fuel) :
    op.utilCollAllreduceLoop A.rem (2 ^ T) id A.count A.op fuel (2 ^ i) =
      op.schedule (items ((List.range' i (T - i)).flatMap (A.round f r id))) := by
  induction fuel generalizing op i with
  | zero =>
      rw [show T - i = 0 by omega]
      rfl
  | succ fuel ih =>
      unfold CollOperation.utilCollAllreduceLoop
      by_cases hi : i < T
      · rw [if_pos (Nat.pow_lt_pow_right (by omega) hi)]
        have hmask : 2 ^ i <<< 1 = 2 ^ (i + 1) := by
          rw [Nat.shiftLeft_eq, ← Nat.pow_add]
        rw [hmask]
        have hround : ∀ op' : CollOperation AllreduceBuf,
            op' = op.schedule (items (A.round f r id i)) →
            op'.utilCollAllreduceLoop A.rem (2 ^ T) id A.count A.op fuel (2 ^ (i + 1)) =
              op.schedule (items ((List.range' i (T - i)).flatMap (A.round f r id))) := by
          rintro op' rfl
          rw [ih (by simpa using hc) (by simpa using hr) (i + 1) (by omega),
            CollOperation.schedule_append, show T - i = T - (i + 1) + 1 by omega, List.range'_succ,
            List.flatMap_cons, items, items, items, List.map_append]
        refine hround _ ?_
        subst hr
        by_cases hlt : A.rankOf (id ^^^ 2 ^ i) < op.localRank
        · simp only [round, if_pos hlt, recv, send, reduce, ← hc]
          refine (if_pos hlt).trans ?_
          rfl
        · simp only [round, if_neg hlt, recv, send, reduce, ← hc]
          refine (if_neg hlt).trans ?_
          rfl
      · rw [if_neg (by
          rw [Nat.not_lt]
          exact Nat.pow_le_pow_right (by omega) (by omega)), show T - i = 0 by omega]
        rfl

/-- What the call schedules. -/
theorem utilCollAllreduce_eq (h : A.Valid) (f : V → V → V) (r : Nat) {op : CollOperation AllreduceBuf}
    (hc : op.cid = A.cid) (hr : op.localRank = r) (hn : op.fiAddrCount = A.size) :
    op.utilCollAllreduce A.count A.op = op.schedule (items (A.body f r)) := by
  have hlog : A.size.log2 ≤ 64 := by
    have : A.size.log2 < 31 := (Nat.log2_lt h.pos).mpr h.bound
    omega
  have hloop : ∀ op' : CollOperation AllreduceBuf, op'.cid = A.cid → op'.localRank = r → ∀ id,
      op'.utilCollAllreduceLoop A.rem (rounddownPowerOfTwo A.size) id A.count A.op 64 1 =
        op'.schedule (items ((List.range A.size.log2).flatMap (A.round f r id))) := by
    intro op' hc' hr' id
    have := loop_eq f id hc' hr' (T := A.size.log2) 64 0 (by omega)
    rw [h.pof2, List.range_eq_range']
    simpa using this
  subst hr
  unfold body pre rounds post newId
  unfold CollOperation.utilCollAllreduce
  rw [hn]
  simp only [show A.size - rounddownPowerOfTwo A.size = A.rem from rfl]
  by_cases hfirst : op.localRank < 2 * A.rem
  · by_cases heven : op.localRank % 2 = 0
    · simp only [if_pos hfirst, if_pos heven, if_neg (show ¬ op.localRank % 2 = 1 by omega), send,
        recv, ← hc]
      rfl
    · simp only [if_pos hfirst, if_neg heven, if_pos (show op.localRank % 2 = 1 by omega)]
      rw [items_append, items_append, ← CollOperation.schedule_append,
        ← CollOperation.schedule_append]
      have hpre : (op.utilCollSchedRecv (op.localRank - 1) tmpPtr A.count true).utilCollSchedReduce
          tmpPtr resultPtr A.count A.op true = op.schedule (items
            [A.recv (op.localRank - 1) tmpPtr true 0 (A.data (op.localRank - 1)),
              A.reduce tmpPtr resultPtr]) := by
        simp only [recv, reduce, ← hc]
        rfl
      rw [hpre, hloop _ (by simpa using hc) (by simp)]
      simp only [CollOperation.utilCollSchedSend, CollOperation.schedule_cid,
        CollOperation.schedule_localRank, send, ← hc]
      rfl
  · simp only [if_neg hfirst, List.nil_append, List.append_nil]
    exact hloop op hc rfl _

theorem schedule_eq (h : A.Valid) (f : V → V → V) (mem : Nat → Mem AllreduceBuf V) (r : Nat) :
    (A.group mem).schedule r = items (A.plan f r) :=
  schedule_comp (utilCollAllreduce_eq h f r rfl rfl rfl) rfl

/-! ## §6 — the values -/

/-- The value of a block of numbers: the upper half reduced with the lower half. -/
def blockValue (A : Allreduce V) (f : V → V → V) : Nat → Nat → List V
  | 0, b => A.value f 0 b
  | i + 1, b => List.zipWith f (A.blockValue f i (2 * b + 1)) (A.blockValue f i (2 * b))

/-- After round `i` all members of a block of `2 ^ i` numbers have the value of the block. -/
theorem value_eq_blockValue (f : V → V → V) (i id : Nat) :
    A.value f i id = A.blockValue f i (id / 2 ^ i) := by
  induction i generalizing id with
  | zero => simp [blockValue]
  | succ i ih =>
      have hhalf : id / 2 ^ (i + 1) = id / 2 ^ i / 2 := by
        rw [Nat.pow_succ, Nat.div_div_eq_div_mul]
      have hother : (id ^^^ 2 ^ i) / 2 ^ i = id / 2 ^ i ^^^ 1 := by
        rw [Nat.xor_div_two_pow, Nat.div_self (Nat.two_pow_pos i)]
      have hmod : (id ^^^ 2 ^ i) % 2 ^ i = id % 2 ^ i := by
        rw [Nat.xor_mod_two_pow, Nat.mod_self, Nat.xor_zero]
      have hid := Nat.div_add_mod id (2 ^ i)
      have hoth := Nat.div_add_mod (id ^^^ 2 ^ i) (2 ^ i)
      rw [hother, hmod] at hoth
      simp only [value, blockValue]
      rw [ih id, ih (id ^^^ 2 ^ i), hother, hhalf]
      -- the bit of the round decides who is the upper one
      have hpos := Nat.two_pow_pos i
      generalize id / 2 ^ i = b at hid hoth ⊢
      rcases Nat.mod_two_eq_zero_or_one b with hb | hb
      · have hx : b ^^^ 1 = b + 1 := Nat.xor_one_of_even (Nat.even_iff.mpr hb)
        rw [hx, Nat.mul_add] at hoth
        rw [if_neg (by omega), hx, show 2 * (b / 2) = b by omega]
      · have hx : b ^^^ 1 = b - 1 := Nat.xor_one_of_odd (Nat.odd_iff.mpr hb)
        obtain ⟨c, rfl⟩ : ∃ c, b = c + 1 := ⟨b - 1, by omega⟩
        rw [hx, Nat.add_sub_cancel] at hoth
        rw [Nat.mul_add] at hid
        rw [if_pos (by omega), hx, show 2 * ((c + 1) / 2) + 1 = c + 1 by omega,
          show 2 * ((c + 1) / 2) = c + 1 - 1 by omega]

/-- The value that every member gets. -/
def total (A : Allreduce V) (f : V → V → V) : List V :=
  A.blockValue f A.size.log2 0

/-- After the last round all members of the rounds have the same value. -/
theorem value_eq_total {f : V → V → V} {id : Nat} (hid : id < 2 ^ A.size.log2) :
    A.value f A.size.log2 id = A.total f := by
  rw [value_eq_blockValue, Nat.div_eq_of_lt hid]
  rfl

theorem length_value (h : A.Valid) (f : V → V → V) {i id : Nat} (hi : i ≤ A.size.log2)
    (hid : id < 2 ^ A.size.log2) : (A.value f i id).length = A.count := by
  obtain ⟨hs, hr⟩ := h.size_eq
  induction i generalizing id with
  | zero =>
      unfold value
      split
      · rw [List.length_zipWith, h.length _ (by omega), h.length _ (by omega), Nat.min_self]
      · exact h.length _ (by omega)
  | succ i ih =>
      have hid' : (A.value f i id).length = A.count := ih (by omega) hid
      have hoth : (A.value f i (id ^^^ 2 ^ i)).length = A.count :=
        ih (by omega) (xor_lt (by omega) hid)
      simp only [value]
      split
      · rw [List.length_zipWith, hid', hoth, Nat.min_self]
      · rw [List.length_zipWith, hid', hoth, Nat.min_self]

/-! ## §7 — executing the plan -/

section Execution

variable {handlers : Handlers V} {f : V → V → V} {m : Mem AllreduceBuf V} {r q id : Nat}

theorem apply_recv (src : Nat) (p : Ptr AllreduceBuf) (fence : Bool) (round : Nat) {vs : List V}
    (hvs : vs.length = A.count) :
    (A.recv src p fence round vs).apply handlers m = m.write p vs := by
  simp [Step.apply, recv, ← hvs]

theorem apply_send (dest round : Nat) : (A.send r dest round).apply handlers m = m := rfl

theorem sends_recv (src : Nat) (p : Ptr AllreduceBuf) (fence : Bool) (round : Nat) (vs : List V) :
    (A.recv src p fence round vs).sends m q = [] := rfl

theorem sends_send (dest round : Nat) : (A.send r dest round).sends m q =
    if dest = q then [(round, m.read resultPtr A.count)] else [] := rfl

theorem apply_reduce (hh : handlers A.op = some f) (hop : A.op.reduces = true)
    (a b : Ptr AllreduceBuf) :
    (A.reduce a b).apply handlers m =
      m.write b (List.zipWith f (m.read b A.count) (m.read a A.count)) := by
  simp [Step.apply, reduce, CollWork.effect, hh, hop]

/-- What the even ones of the first members give away. -/
theorem sentTo_pre (hm : m.read resultPtr A.count = A.data r) :
    sentTo handlers q m (A.pre r) =
      if r < 2 * A.rem ∧ r % 2 = 0 ∧ r + 1 = q then [(0, A.data r)] else [] := by
  unfold pre
  by_cases hfirst : r < 2 * A.rem
  · by_cases heven : r % 2 = 0
    · simp [hfirst, heven, sentTo, Step.sends, send, hm]
    · simp [hfirst, heven, sentTo, Step.sends, recv, reduce]
  · simp [hfirst, sentTo]

theorem expected_pre : expected q (A.pre r) =
    if r < 2 * A.rem ∧ r % 2 = 1 ∧ r - 1 = q then [(0, A.data (r - 1))] else [] := by
  unfold pre
  by_cases hfirst : r < 2 * A.rem
  · by_cases heven : r % 2 = 0
    · simp [hfirst, heven, expected, Step.expects, send]
    · have hodd : r % 2 = 1 := by omega
      simp [hfirst, hodd, expected, Step.expects, recv, reduce]
  · simp [hfirst, expected]

/-- What a member of the rounds starts with. -/
theorem read_pre (h : A.Valid) (hh : handlers A.op = some f) (hop : A.op.reduces = true)
    (hr : r < A.size) (hid : A.newId r = some id) (hm : m.read resultPtr A.count = A.data r) :
    (memAfter handlers m (A.pre r)).read resultPtr A.count = A.value f 0 id := by
  unfold newId at hid
  unfold pre value
  by_cases hfirst : r < 2 * A.rem
  · rw [if_pos hfirst] at hid ⊢
    by_cases heven : r % 2 = 0
    · rw [if_pos heven] at hid
      cases hid
    · rw [if_neg heven] at hid ⊢
      cases hid
      rw [if_pos (by omega), show r / 2 * 2 + 1 = r by omega, show r / 2 * 2 = r - 1 by omega]
      have hlen := h.length (r - 1) (by omega)
      have hlen' := h.length r hr
      have htmp : (m.write tmpPtr (A.data (r - 1))).read resultPtr A.count = A.data r := by
        rw [Mem.read_write_of_ne m (by decide), hm]
      simp only [memAfter, List.foldl_cons, List.foldl_nil, apply_recv _ _ _ _ hlen,
        apply_reduce hh hop, htmp, Mem.read_write m tmpPtr hlen]
      exact Mem.read_write _ _ (by simp [hlen, hlen'])
  · rw [if_neg hfirst] at hid ⊢
    cases hid
    rw [if_neg (by omega), show r - A.rem + A.rem = r by omega]
    exact hm

/-- One round: the member gives its value away and has the value of the next round. -/
theorem round_spec (h : A.Valid) (hh : handlers A.op = some f) (hop : A.op.reduces = true) {i : Nat}
    (hi : i < A.size.log2) (hid : id < 2 ^ A.size.log2) (hr : A.rankOf id = r)
    (hm : m.read resultPtr A.count = A.value f i id) :
    sentTo handlers q m (A.round f r id i) =
        (if A.rankOf (id ^^^ 2 ^ i) = q then [(i + 1, A.value f i id)] else []) ∧
      (memAfter handlers m (A.round f r id i)).read resultPtr A.count = A.value f (i + 1) id := by
  have hoth := xor_lt hi hid
  have hlen := length_value h f (Nat.le_of_lt hi) hid
  have hleno := length_value h f (Nat.le_of_lt hi) hoth
  have hlt : A.rankOf (id ^^^ 2 ^ i) < r ↔ id ^^^ 2 ^ i < id := by rw [← hr, rankOf_lt_rankOf]
  have htmp : (m.write tmpPtr (A.value f i (id ^^^ 2 ^ i))).read resultPtr A.count = A.value f i id := by
    rw [Mem.read_write_of_ne m (by decide), hm]
  have hgot := Mem.read_write m tmpPtr hleno
  constructor
  · have hlocal : ∀ m', sentTo handlers q m' (if A.rankOf (id ^^^ 2 ^ i) < r then
        [A.reduce tmpPtr resultPtr]
        else [A.reduce resultPtr tmpPtr, ⟨.copy tmpPtr resultPtr A.count, true, 0, []⟩]) = [] := by
      intro m'
      split <;> rfl
    unfold round
    rw [sentTo_append, hlocal, List.append_nil]
    simp only [sentTo, apply_recv _ _ _ _ hleno, sends_recv, sends_send, htmp, List.nil_append,
      List.append_nil]
  · unfold round
    rw [memAfter_append]
    simp only [memAfter, List.foldl_cons, List.foldl_nil, apply_recv _ _ _ _ hleno, apply_send]
    simp only [value]
    by_cases hdown : id ^^^ 2 ^ i < id
    · rw [if_pos (hlt.mpr hdown), if_pos hdown]
      simp only [List.foldl_cons, List.foldl_nil, apply_reduce hh hop, htmp, hgot]
      exact Mem.read_write _ _ (by simp [hlen, hleno])
    · rw [if_neg (fun hc => hdown (hlt.mp hc)), if_neg hdown]
      simp only [List.foldl_cons, List.foldl_nil, apply_reduce hh hop, htmp, hgot]
      have hcopy : ∀ m' : Mem AllreduceBuf V,
          (⟨.copy tmpPtr resultPtr A.count, true, 0, []⟩ : Step AllreduceBuf V).apply handlers m' =
            m'.write resultPtr (m'.read tmpPtr A.count) := fun _ => rfl
      rw [hcopy, Mem.read_write _ tmpPtr (by simp [hlen, hleno])]
      exact Mem.read_write _ _ (by simp [hlen, hleno])

theorem expected_round (i : Nat) : expected q (A.round f r id i) =
    if A.rankOf (id ^^^ 2 ^ i) = q then [(i + 1, A.value f i (id ^^^ 2 ^ i))] else [] := by
  unfold round
  rw [expected_append]
  split <;> simp [expected, Step.expects, recv, send, reduce]

theorem expected_rounds : expected q (A.rounds f r) =
    match A.newId r with
    | none => []
    | some id => (List.range A.size.log2).flatMap fun i =>
        if A.rankOf (id ^^^ 2 ^ i) = q then [(i + 1, A.value f i (id ^^^ 2 ^ i))] else [] := by
  unfold rounds
  cases A.newId r with
  | none => rfl
  | some id =>
      simp only
      rw [expected, List.flatMap_assoc]
      exact List.flatMap_congr fun i _ => expected_round i

/-- All rounds from round `i` on. -/
theorem rounds_spec (h : A.Valid) (hh : handlers A.op = some f) (hop : A.op.reduces = true)
    (hid : id < 2 ^ A.size.log2) (hr : A.rankOf id = r) (k i : Nat) (hk : i + k = A.size.log2)
    (hm : m.read resultPtr A.count = A.value f i id) :
    sentTo handlers q m ((List.range' i k).flatMap (A.round f r id)) =
        (List.range' i k).flatMap
          (fun i => if A.rankOf (id ^^^ 2 ^ i) = q then [(i + 1, A.value f i id)] else []) ∧
      (memAfter handlers m ((List.range' i k).flatMap (A.round f r id))).read resultPtr A.count =
        A.total f := by
  induction k generalizing i m with
  | zero =>
      obtain rfl : i = A.size.log2 := by omega
      exact ⟨rfl, by simpa [memAfter, value_eq_total hid] using hm⟩
  | succ k ih =>
      obtain ⟨hsent, hread⟩ := round_spec (q := q) h hh hop (by omega) hid hr hm
      obtain ⟨hsent', hread'⟩ := ih (i + 1) (by omega) hread
      rw [List.range'_succ, List.flatMap_cons, List.flatMap_cons, sentTo_append, memAfter_append]
      exact ⟨by rw [hsent, hsent'], hread'⟩

theorem value_of_first (h : A.Valid) (hr : r < 2 * A.rem) :
    A.value f A.size.log2 (r / 2) = A.total f := by
  obtain ⟨hs, hrem⟩ := h.size_eq
  exact value_eq_total (by omega)

theorem newId_eq_none : A.newId r = none ↔ r < 2 * A.rem ∧ r % 2 = 0 := by
  unfold newId
  split
  · split
    · simp [*]
    · simp [*]
  · simp [*]

theorem sentTo_post (hm : A.newId r ≠ none → m.read resultPtr A.count = A.total f) :
    sentTo handlers q m (A.post f r) =
      if r < 2 * A.rem ∧ r % 2 = 1 ∧ r - 1 = q then [(A.size.log2 + 1, A.total f)] else [] := by
  unfold post
  by_cases hfirst : r < 2 * A.rem
  · by_cases heven : r % 2 = 0
    · simp [hfirst, heven, sentTo, sends_recv]
    · have hodd : r % 2 = 1 := by omega
      have hread := hm (by simp [newId_eq_none, hodd])
      simp [hfirst, hodd, sentTo, sends_send, hread]
  · simp [hfirst, sentTo]

theorem expected_post (h : A.Valid) : expected q (A.post f r) =
    if r < 2 * A.rem ∧ r % 2 = 0 ∧ r + 1 = q then [(A.size.log2 + 1, A.total f)] else [] := by
  unfold post
  by_cases hfirst : r < 2 * A.rem
  · by_cases heven : r % 2 = 0
    · simp [hfirst, heven, expected, Step.expects, recv, value_of_first h hfirst]
    · simp [hfirst, heven, expected, Step.expects, send]
  · simp [hfirst, expected]

theorem read_post (h : A.Valid)
    (hm : A.newId r ≠ none → m.read resultPtr A.count = A.total f) :
    (memAfter handlers m (A.post f r)).read resultPtr A.count = A.total f := by
  obtain ⟨hs, hrem⟩ := h.size_eq
  unfold post
  by_cases hfirst : r < 2 * A.rem
  · by_cases heven : r % 2 = 0
    · have hlen : (A.value f A.size.log2 (r / 2)).length = A.count :=
        length_value h f (Nat.le_refl _) (by omega)
      rw [value_of_first h hfirst] at hlen
      simp only [if_pos hfirst, if_pos heven, memAfter, List.foldl_cons, List.foldl_nil,
        value_of_first h hfirst, apply_recv _ _ _ _ hlen, Mem.read_write m resultPtr hlen]
    · simp only [if_pos hfirst, if_neg heven, memAfter, List.foldl_cons, List.foldl_nil, apply_send]
      exact hm (by simp [newId_eq_none, heven])
  · simp only [if_neg hfirst, memAfter, List.foldl_nil]
    exact hm (by simp [newId_eq_none, hfirst])

/-- The whole plan: what a member sends to another one is what that one expects, and in the end it has
the value of all. -/
theorem plan_spec (h : A.Valid) (hh : handlers A.op = some f) (hop : A.op.reduces = true)
    (hr : r < A.size) (hm : m.read resultPtr A.count = A.data r) :
    sentTo handlers q m (A.plan f r) = expected r (A.plan f q) ∧
      (memAfter handlers m (A.plan f r)).read resultPtr A.count = A.total f := by
  -- before the rounds
  have hpre : sentTo handlers q m (A.pre r) = expected r (A.pre q) := by
    rw [sentTo_pre hm, expected_pre]
    by_cases hc : r < 2 * A.rem ∧ r % 2 = 0 ∧ r + 1 = q
    · rw [if_pos hc, if_pos (by omega), show q - 1 = r by omega]
    · rw [if_neg hc, if_neg (by omega)]
  -- the rounds
  have hrounds : sentTo handlers q (memAfter handlers m (A.pre r)) (A.rounds f r) =
        expected r (A.rounds f q) ∧
      (A.newId r ≠ none → (memAfter handlers (memAfter handlers m (A.pre r))
        (A.rounds f r)).read resultPtr A.count = A.total f) := by
    cases hid : A.newId r with
    | none =>
        refine ⟨?_, fun hne => absurd rfl hne⟩
        rw [expected_rounds]
        simp only [rounds, hid, sentTo]
        cases hq : A.newId q with
        | none => rfl
        | some id' =>
            refine (List.flatMap_eq_nil_iff.mpr fun i _ => if_neg fun hc => ?_).symm
            rw [← hc, newId_rankOf] at hid
            cases hid
    | some id =>
        obtain ⟨hsent, hfinal⟩ := rounds_spec (q := q) h hh hop (newId_lt h hr hid)
          (rankOf_of_newId hid) A.size.log2 0 (by omega)
          (read_pre h hh hop hr hid hm)
        rw [← List.range_eq_range'] at hsent hfinal
        refine ⟨?_, fun _ => by simpa only [rounds, hid] using hfinal⟩
        rw [expected_rounds]
        simp only [rounds, hid]
        rw [hsent]
        cases hq : A.newId q with
        | none =>
            refine List.flatMap_eq_nil_iff.mpr fun i _ => if_neg fun hc => ?_
            rw [← hc, newId_rankOf] at hq
            cases hq
        | some id' =>
            have hback : ∀ i, A.rankOf (id ^^^ 2 ^ i) = q ↔ A.rankOf (id' ^^^ 2 ^ i) = r := by
              intro i
              rw [← rankOf_of_newId hq, ← rankOf_of_newId hid, rankOf_inj, rankOf_inj]
              constructor
              · rintro rfl
                exact xor_xor id i
              · rintro rfl
                exact xor_xor id' i
            refine List.flatMap_congr fun i _ => ?_
            by_cases hc : A.rankOf (id ^^^ 2 ^ i) = q
            · have hid' : id' ^^^ 2 ^ i = id := by
                rw [← rankOf_inj (A := A), (hback i).mp hc, rankOf_of_newId hid]
              rw [if_pos hc, if_pos ((hback i).mp hc), hid']
            · rw [if_neg hc, if_neg (fun hb => hc ((hback i).mpr hb))]
  have hpost : sentTo handlers q (memAfter handlers (memAfter handlers m (A.pre r)) (A.rounds f r))
      (A.post f r) = expected r (A.post f q) := by
    rw [sentTo_post hrounds.2, expected_post h]
    by_cases hc : r < 2 * A.rem ∧ r % 2 = 1 ∧ r - 1 = q
    · rw [if_pos hc, if_pos (by omega)]
    · rw [if_neg hc, if_neg (by omega)]
  unfold plan body
  simp only [sentTo_append, memAfter_append, expected_append]
  refine ⟨?_, read_post h hrounds.2⟩
  rw [hpre, hrounds.1, hpost]
  rfl

end Execution

/-! ## §8 — the plans fit together -/

theorem groups_pre (r : Nat) : Groups (A.pre r) := by
  unfold pre
  split
  · split
    · exact .single rfl .nil
    · exact .single rfl (.single rfl .nil)
  · exact .nil

theorem groups_round (f : V → V → V) (r id i : Nat) : Groups (A.round f r id i) := by
  refine .pair rfl rfl ?_ ?_
  · rintro -
    -- the send is from `result`, the receive into `tmp_buf`
    refine ⟨_, _, _, _, rfl, fun j _ ht => ?_⟩
    cases ht.1
  · split
    · exact .single rfl .nil
    · exact .single rfl (.single rfl .nil)

theorem groups_rounds (f : V → V → V) (r : Nat) : Groups (A.rounds f r) := by
  unfold rounds
  split
  · exact .nil
  · exact .flatMap (A.groups_round f r _) _

theorem groups_post (f : V → V → V) (r : Nat) : Groups (A.post f r) := by
  unfold post
  split
  · split
    · exact .single rfl .nil
    · exact .single rfl .nil
  · exact .nil

theorem groups_body (f : V → V → V) (r : Nat) : Groups (A.body f r) :=
  (groups_pre r).append ((groups_rounds f r).append (groups_post f r))

section Members

variable {handlers : Handlers V} {f : V → V → V} {mem : Nat → Mem AllreduceBuf V} {r : Nat}

theorem within_send {dest ρ lo hi : Nat} (hd : dest < A.size) (hlo : lo ≤ ρ) (hhi : ρ ≤ hi) :
    Within handlers (A.group mem) r lo hi (A.send r dest ρ) :=
  ⟨hd, rfl, hlo, hhi⟩

theorem within_recv {src ρ lo hi : Nat} (hs : src < A.size) (hlo : lo ≤ ρ) (hhi : ρ ≤ hi)
    (p : Ptr AllreduceBuf) (fence : Bool) (vs : List V) :
    Within handlers (A.group mem) r lo hi (A.recv src p fence ρ vs) :=
  ⟨hs, rfl, hlo, hhi⟩

theorem within_reduce (hh : handlers A.op = some f) (hop : A.op.reduces = true)
    (a b : Ptr AllreduceBuf) (lo hi : Nat) : Within handlers (A.group mem) r lo hi (A.reduce a b) := by
  intro m
  simp [reduce, CollWork.effect, hh, hop]

theorem within_pre (h : A.Valid) (hh : handlers A.op = some f) (hop : A.op.reduces = true)
    (hr : r < A.size) : ∀ a ∈ A.pre r, Within handlers (A.group mem) r 0 0 a := by
  obtain ⟨hs, hrem⟩ := h.size_eq
  intro a ha
  unfold pre at ha
  split at ha
  · split at ha
    · obtain rfl := List.mem_singleton.mp ha
      exact within_send (by omega) (by omega) (by omega)
    · rcases List.mem_pair.mp ha with rfl | rfl
      · exact within_recv (by omega) (by omega) (by omega) _ _ _
      · exact within_reduce hh hop _ _ _ _
  · cases ha

theorem within_round (h : A.Valid) (hh : handlers A.op = some f) (hop : A.op.reduces = true)
    {id i : Nat} (hi : i < A.size.log2) (hid : id < 2 ^ A.size.log2) :
    ∀ a ∈ A.round f r id i, Within handlers (A.group mem) r (i + 1) (i + 1) a := by
  have hlt := rankOf_lt h (xor_lt hi hid)
  intro a ha
  unfold round at ha
  rcases List.mem_append.mp ha with ha | ha
  · rcases List.mem_pair.mp ha with rfl | rfl
    · exact within_recv hlt (by omega) (by omega) _ _ _
    · exact within_send hlt (by omega) (by omega)
  · split at ha
    · obtain rfl := List.mem_singleton.mp ha
      exact within_reduce hh hop _ _ _ _
    · rcases List.mem_pair.mp ha with rfl | rfl
      · exact within_reduce hh hop _ _ _ _
      · exact fun m => rfl

theorem within_rounds (h : A.Valid) (hh : handlers A.op = some f) (hop : A.op.reduces = true)
    (hr : r < A.size) : ∀ a ∈ A.rounds f r, Within handlers (A.group mem) r 1 A.size.log2 a := by
  intro a ha
  unfold rounds at ha
  cases hid : A.newId r with
  | none => simp [hid] at ha
  | some id =>
      simp only [hid] at ha
      obtain ⟨i, hi, ha⟩ := List.mem_flatMap.mp ha
      have hi := List.mem_range.mp hi
      exact (within_round h hh hop hi (newId_lt h hr hid) a ha).mono (by omega) (by omega)

theorem within_post (h : A.Valid) (hr : r < A.size) : ∀ a ∈ A.post f r,
    Within handlers (A.group mem) r (A.size.log2 + 1) (A.size.log2 + 1) a := by
  obtain ⟨hs, hrem⟩ := h.size_eq
  intro a ha
  unfold post at ha
  split at ha
  · split at ha
    · obtain rfl := List.mem_singleton.mp ha
      exact within_recv (by omega) (by omega) (by omega) _ _ _
    · obtain rfl := List.mem_singleton.mp ha
      exact within_send (by omega) (by omega) (by omega)
  · cases ha

theorem roundsOk_pre : RoundsOk (A.pre r) := by
  unfold pre
  split
  · split
    · exact .of_no_recv (by simp [send, CollWork.isRecv])
    · exact .of_no_send (by simp [recv, reduce, CollWork.isSend])
  · exact .of_no_recv (by simp)

theorem roundsOk_round (id i : Nat) : RoundsOk (A.round f r id i) := by
  have hlocal : ∀ b ∈ if A.rankOf (id ^^^ 2 ^ i) < r then [A.reduce tmpPtr resultPtr]
      else [A.reduce resultPtr tmpPtr, ⟨.copy tmpPtr resultPtr A.count, true, 0, []⟩],
      b.work.isRecv = false ∧ b.work.isSend = false := by
    intro b hb
    split at hb
    · obtain rfl := List.mem_singleton.mp hb
      exact ⟨rfl, rfl⟩
    · rcases List.mem_pair.mp hb with rfl | rfl
      · exact ⟨rfl, rfl⟩
      · exact ⟨rfl, rfl⟩
  refine (RoundsOk.pair rfl rfl).append (.of_no_recv fun b hb => (hlocal b hb).1) ?_
  intro a _ b hb _ hsb
  rw [(hlocal b hb).2] at hsb
  cases hsb

theorem roundsOk_post : RoundsOk (A.post f r) := by
  unfold post
  split
  · split
    · exact .of_no_send (by simp [recv, CollWork.isSend])
    · exact .of_no_recv (by simp [send, CollWork.isRecv])
  · exact .of_no_recv (by simp)

theorem roundsOk_rounds (mem : Nat → Mem AllreduceBuf V) (h : A.Valid) (hh : handlers A.op = some f)
    (hop : A.op.reduces = true) (hr : r < A.size) : RoundsOk (A.rounds f r) := by
  unfold rounds
  cases hid : A.newId r with
  | none => exact .of_no_recv (by simp)
  | some id =>
      have hin : ∀ i < A.size.log2, ∀ a ∈ A.round f r id i,
          Within handlers (A.group mem) r (i + 1) (i + 1) a :=
        fun i hi => within_round h hh hop hi (newId_lt h hr hid)
      refine .flatMap (roundsOk_round id) _ fun i j hij hj a ha b hb => ?_
      exact (hin i (by omega) a ha).round_lt (hin j hj b hb) (by omega)

theorem roundsOk_body (mem : Nat → Mem AllreduceBuf V) (h : A.Valid) (hh : handlers A.op = some f)
    (hop : A.op.reduces = true) (hr : r < A.size) : RoundsOk (A.body f r) := by
  have hpre : ∀ a ∈ A.pre r, Within handlers (A.group mem) r 0 0 a := within_pre h hh hop hr
  have hmid : ∀ a ∈ A.rounds f r, Within handlers (A.group mem) r 1 A.size.log2 a :=
    within_rounds h hh hop hr
  have hpost : ∀ a ∈ A.post f r,
      Within handlers (A.group mem) r (A.size.log2 + 1) (A.size.log2 + 1) a := within_post h hr
  refine roundsOk_pre.append ((roundsOk_rounds mem h hh hop hr).append roundsOk_post ?_) ?_
  · exact fun a ha b hb => (hmid a ha).round_lt (hpost b hb) (by omega)
  · intro a ha b hb
    rcases List.mem_append.mp hb with hb | hb
    · exact (hpre a ha).round_lt (hmid b hb) (by omega)
    · exact (hpre a ha).round_lt (hpost b hb) (by omega)

/-- The plans of the members fit together. -/
theorem sound (mem : Nat → Mem AllreduceBuf V) (h : A.Valid) (hh : handlers A.op = some f)
    (hop : A.op.reduces = true) : Sound handlers (A.group mem) (A.plan f) := by
  have hmem : ∀ r < A.size, ((A.group mem).mem r).read resultPtr A.count = A.data r :=
    fun r hr => Mem.read_write (mem r) resultPtr (h.length r hr)
  refine Sound.of_body (A.size.log2 + 1) ?_ (fun r _ => groups_body f r)
    (fun r hr => roundsOk_body mem h hh hop hr) ?_ ?_
  · intro r hr
    exact schedule_eq h f mem r
  · intro r hr a ha
    rcases List.mem_append.mp ha with ha | ha
    · exact (within_pre h hh hop hr a ha).mono (by omega) (by omega)
    · rcases List.mem_append.mp ha with ha | ha
      · exact (within_rounds h hh hop hr a ha).mono (by omega) (by omega)
      · exact (within_post h hr a ha).mono (by omega) (by omega)
  · intro s hs r hr
    exact (plan_spec h hh hop hs (hmem s hs)).1

end Members

/-! ## §9 — the value of a commutative and associative reduction -/

section Fold

variable {f : V → V → V} [Std.Associative f] [Std.Commutative f]

/-- The value of a block is the reduction of its values. -/
theorem blockValue_eq_foldFrom (i b : Nat) :
    A.blockValue f i b = foldFrom (List.zipWith f) (A.value f 0) (b * 2 ^ i) (2 ^ i - 1) := by
  induction i generalizing b with
  | zero => simp [blockValue]
  | succ i ih =>
      have hpos := Nat.two_pow_pos i
      have hsplit : 2 ^ (i + 1) - 1 = 2 ^ i - 1 + 1 + (2 ^ i - 1) := by
        rw [Nat.pow_succ]
        omega
      rw [blockValue, ih, ih, (zipWith_commutative f).comm, hsplit, foldFrom_add,
        show b * 2 ^ (i + 1) = 2 * b * 2 ^ i by rw [Nat.pow_succ]; ring,
        show 2 * b * 2 ^ i + (2 ^ i - 1 + 1) = (2 * b + 1) * 2 ^ i by
          rw [Nat.sub_add_cancel hpos]; ring]

/-- What the members of the rounds start with, up to a number, is the data of all up to its rank. -/
theorem foldFrom_value (k : Nat) :
    foldFrom (List.zipWith f) (A.value f 0) 0 k = foldFrom (List.zipWith f) A.data 0 (A.rankOf k) := by
  have hfirst : ∀ id, id < A.rem →
      A.value f 0 id = List.zipWith f (A.data (id * 2)) (A.data (id * 2 + 1)) := by
    intro id hid
    rw [value, if_pos hid, (zipWith_commutative f).comm]
  have hrest : ∀ id, ¬ id < A.rem → A.value f 0 id = A.data (id + A.rem) := by
    intro id hid
    rw [value, if_neg hid]
  induction k with
  | zero =>
      by_cases h0 : 0 < A.rem
      · rw [foldFrom_zero, hfirst 0 h0, rankOf, if_pos h0]
        rfl
      · rw [foldFrom_zero, hrest 0 h0, rankOf, if_neg h0, show 0 + A.rem = 0 by omega]
        rfl
  | succ k ih =>
      rw [foldFrom_succ, ih, Nat.zero_add]
      by_cases hk : k + 1 < A.rem
      · have hrank : A.rankOf (k + 1) = A.rankOf k + 1 + 1 := by
          rw [rankOf, rankOf, if_pos hk, if_pos (by omega)]
          omega
        have hdata : (k + 1) * 2 = A.rankOf k + 1 := by
          rw [rankOf, if_pos (by omega)]
          omega
        rw [hfirst _ hk, hrank, hdata]
        simp only [foldFrom_succ, Nat.zero_add]
        rw [(zipWith_associative f).assoc]
      · have hrank : A.rankOf (k + 1) = A.rankOf k + 1 := by
          unfold rankOf
          rw [if_neg hk]
          split <;> omega
        have hdata : k + 1 + A.rem = A.rankOf k + 1 := by
          rw [← hrank, rankOf, if_neg hk]
        rw [hrest _ hk, hrank, hdata, foldFrom_succ, Nat.zero_add]

/-- The value of all members is the reduction of their data in the order of the ranks. -/
theorem total_eq_foldFrom (h : A.Valid) :
    A.total f = foldFrom (List.zipWith f) A.data 0 (A.size - 1) := by
  obtain ⟨hs, hrem⟩ := h.size_eq
  rw [total, blockValue_eq_foldFrom, Nat.zero_mul, foldFrom_value, rankOf, if_neg (by omega)]
  congr 1
  omega

end Fold

/-! ## §10 — every run -/

/-- Three members add two numbers each. -/
def sumOfThree : Allreduce (BitVec 32) where
  size := 3
  cid := 7
  count := 2
  op := .sum
  data := fun r => [BitVec.ofNat 32 (r + 1), BitVec.ofNat 32 (10 * r)]

theorem sumOfThree_valid : sumOfThree.Valid where
  pos := by decide
  bound := by decide
  counts := by decide
  length := fun _ _ => rfl

/-- The system of the three members. -/
abbrev sumOfThreeStep :=
  Net.step (ofiAtomicWriteHandlers false) (sumOfThree.group fun _ _ _ => 0)

/-- A run in which a send is refused at first and a message of another operation arrives. -/
def sumOfThreeRun : List (NetEvent (BitVec 32)) :=
  [.other 0 1 1 [5], .call 0, .progress 0 .eagain, .progress 0 .success, .sent 0 0,
    .progress 0 .success, .call 1, .progress 1 .success, .received 1 0, .progress 1 .success,
    .progress 1 .success, .progress 1 .success, .sent 1 3, .call 2, .progress 2 .success,
    .progress 2 .success, .received 1 2, .progress 1 .success, .progress 1 .success,
    .progress 1 .success, .received 0 1, .progress 0 .success, .sent 1 6, .progress 1 .success,
    .received 2 0, .sent 2 1, .progress 2 .success, .progress 2 .success]

theorem sumOfThreeRun_accepts : StepsMeet sumOfThreeStep Accepts {} sumOfThreeRun := by
  decide +kernel

theorem sumOfThreeRun_finished : Net.finished (sumOfThree.group fun _ _ _ => 0)
    (run sumOfThreeStep {} sumOfThreeRun) = true := by
  decide +kernel

section Runs

variable {handlers : Handlers V} {f : V → V → V} {mem : Nat → Mem AllreduceBuf V}
  {evs : List (NetEvent V)} {net : Net AllreduceBuf V}

theorem memAfter_plan (h : A.Valid) (hh : handlers A.op = some f) (hop : A.op.reduces = true) {r : Nat}
    (hr : r < A.size) :
    (memAfter handlers ((A.group mem).mem r) (A.plan f r)).read resultPtr A.count = A.total f :=
  (plan_spec (q := 0) h hh hop hr (Mem.read_write (mem r) resultPtr (h.length r hr))).2

theorem result_eq_total (h : A.Valid) (hh : handlers A.op = some f) (hop : A.op.reduces = true)
    (hacc : StepsMeet (Net.step handlers (A.group mem)) Accepts {} evs)
    (hrun : run (Net.step handlers (A.group mem)) {} evs = .ok net) {r : Nat}
    {ep : CollEp AllreduceBuf V} (hep : net.ep r = some ep) (hc : ep.comps ≠ 0) :
    ep.comps = 1 ∧ ep.mem.read resultPtr A.count = A.total f := by
  have hP := A.sound mem h hh hop
  obtain ⟨e, c, hinv⟩ := hP.inv hacc hrun
  have hr : r < A.size := (hinv.active r ep hep).1
  obtain ⟨hone, hmem⟩ := hP.mem_of_comps hacc hrun hep hc
  refine ⟨hone, ?_⟩
  rw [hmem]
  exact memAfter_plan h hh hop hr

/-- **Agreement.**  Whatever the reduction function, also one that is neither commutative nor
associative, there is one value of the data that every member whose completion function has been
called has, in every run. -/
theorem allreduce_agreement (h : A.Valid) (hh : handlers A.op = some f) (hop : A.op.reduces = true) :
    ∃ v : List V, v.length = A.count ∧ ∀ (mem : Nat → Mem AllreduceBuf V) (evs : List (NetEvent V)) net,
      StepsMeet (Net.step handlers (A.group mem)) Accepts {} evs →
      run (Net.step handlers (A.group mem)) {} evs = .ok net →
      ∀ r ep, net.ep r = some ep → ep.comps ≠ 0 →
        ep.comps = 1 ∧ ep.mem.read resultPtr A.count = v := by
  refine ⟨A.total f, ?_, fun mem evs net hacc hrun r ep hep hc =>
    result_eq_total h hh hop hacc hrun hep hc⟩
  rw [← value_eq_total (Nat.two_pow_pos _)]
  exact length_value h f (Nat.le_refl _) (Nat.two_pow_pos _)

theorem allreduce_agreement_three : ∃ v : List (BitVec 32), v.length = 2 ∧
    ∃ net, run sumOfThreeStep {} sumOfThreeRun = .ok net ∧
      ∀ r < 3, ∃ ep, net.ep r = some ep ∧ ep.mem.read resultPtr 2 = v := by
  have hh : (ofiAtomicWriteHandlers false : Handlers (BitVec 32)) sumOfThree.op = some (· + ·) := rfl
  obtain ⟨v, hlen, hv⟩ := allreduce_agreement sumOfThree_valid hh rfl
  obtain ⟨net, hrun, hfin⟩ := Net.exists_of_finished sumOfThreeRun_finished
  refine ⟨v, hlen, net, hrun, fun r hr => ?_⟩
  obtain ⟨ep, hep, hc, _⟩ := hfin r hr
  exact ⟨ep, hep, (hv _ _ net sumOfThreeRun_accepts hrun r ep hep (by omega)).2⟩

theorem length_plan_le (f : V → V → V) (r : Nat) :
    (A.plan f r).length ≤ 4 * A.size.log2 + 4 := by
  have hpre : (A.pre r).length ≤ 2 := by
    unfold pre
    split
    · split <;> simp
    · simp
  have hround : ∀ id i, (A.round f r id i).length ≤ 4 := by
    intro id i
    simp only [round]
    split <;> simp
  have hrounds : (A.rounds f r).length ≤ 4 * A.size.log2 := by
    unfold rounds
    split
    · simp
    · rw [List.length_flatMap]
      refine (List.sum_le_card_nsmul _ 4 ?_).trans ?_
      · simpa using fun i _ => hround _ i
      · simp [Nat.mul_comm]
  have hpost : (A.post f r).length ≤ 1 := by
    unfold post
    split
    · split <;> simp
    · simp
  unfold plan body
  simp only [List.length_append, List.length_singleton]
  omega

theorem computes (h : A.Valid) (hh : handlers A.op = some f) (hop : A.op.reduces = true)
    (mem : Nat → Mem AllreduceBuf V) :
    Computes handlers (A.group mem) (A.size * (12 * A.size.log2 + 13)) fun _ m =>
      m.read resultPtr A.count = A.total f := by
  refine (A.sound mem h hh hop).computes ((Finset.sum_le_card_nsmul _ _ (12 * A.size.log2 + 13)
    fun r _ => ?_).trans ?_) fun r hr => memAfter_plan h hh hop hr
  · have := length_plan_le (A := A) f r
    omega
  · exact Nat.le_of_eq (by rw [Finset.card_range]; rfl)

/-- **Completion.**  No run uses a freed item or calls a null function; the events that bring the
operation on are bounded; and when none of them is possible any more, every member has made its call,
its completion function has been called once and it has the value. -/
theorem allreduce_completes (h : A.Valid) (hh : handlers A.op = some f) (hop : A.op.reduces = true)
    (hacc : StepsMeet (Net.step handlers (A.group mem)) Accepts {} evs) :
    run (Net.step handlers (A.group mem)) {} evs ≠ .error .fault ∧
      ∀ net, run (Net.step handlers (A.group mem)) {} evs = .ok net →
        evs.countP (·.effective) ≤ A.size * (12 * A.size.log2 + 13) ∧
        (net.Stuck handlers (A.group mem) → ∀ r < A.size, ∃ ep, net.ep r = some ep ∧ ep.comps = 1 ∧
          ep.workQueue = [] ∧ ep.mem.read resultPtr A.count = A.total f) := by
  have hA := computes h hh hop mem
  refine ⟨hA.safe evs hacc, fun net hrun => ⟨hA.bounded evs net hacc hrun, fun hst r hr => ?_⟩⟩
  obtain ⟨ep, hep, hc, hq⟩ := hA.complete evs net hacc hrun hst r hr
  exact ⟨ep, hep, hc, hq, (hA.result evs net hacc hrun r ep hep (by omega)).2⟩

theorem allreduce_completes_three : ∃ net, run sumOfThreeStep {} sumOfThreeRun = .ok net ∧
    sumOfThreeRun.countP (·.effective) ≤ 3 * (12 * 1 + 13) ∧
    ∀ r < 3, ∃ ep, net.ep r = some ep ∧ ep.mem.read resultPtr 2 = [6, 30] := by
  obtain ⟨net, hrun, hfin⟩ := Net.exists_of_finished sumOfThreeRun_finished
  obtain ⟨_, hall⟩ := allreduce_completes (f := (· + ·)) sumOfThree_valid rfl rfl sumOfThreeRun_accepts
  obtain ⟨hbound, hstuck⟩ := hall net hrun
  have hst := (sound (f := (· + ·)) _ sumOfThree_valid rfl rfl).stuck_of_empty sumOfThreeRun_accepts hrun
    fun r hr => (hfin r hr).imp fun _ hep => ⟨hep.1, hep.2.2⟩
  refine ⟨net, hrun, hbound, fun r hr => ?_⟩
  obtain ⟨ep, hep, _, _, hread⟩ := hstuck hst r hr
  exact ⟨ep, hep, hread⟩

end Runs

end Allreduce

end SstTransports.Util
