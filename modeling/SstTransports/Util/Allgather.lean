/-
# SstTransports.Util.Allgather — everybody gets everybody's data, round a ring.

Each member puts its own data into its place of the result and then passes on, to the member on its
right, what it got last from the one on its left.  After one turn less than there are members every
place is filled (`allgather_value`), whatever the interleaving.

The ring is also the second half of the broadcast, so its buffers and the number of its first round are
parameters.
-/
import SstTransports.Util.Completes
import SstTransports.Util.Segments

namespace SstTransports.Util

open SstTransports.Lib

variable {β V : Type}

/-! ## §1 — the schedule -/

namespace CollOperation

/-- The loop over the turns in `util_coll_allgather`. -/
def utilCollAllgatherLoop (numranks leftRank rightRank count : Nat) (result : Ptr β) :
    Nat → Nat → Nat → CollOperation β → CollOperation β
  | 0, _, _, op => op
  | turns + 1, curOffset, nextOffset, op =>
    let op := op.utilCollSchedSend rightRank (result.add (curOffset * count)) count false
    let op := op.utilCollSchedRecv leftRank (result.add (nextOffset * count)) count true
    utilCollAllgatherLoop numranks leftRank rightRank count result turns nextOffset
      ((numranks + nextOffset - 1) % numranks) op

/-- `util_coll_allgather`; the offsets are in elements. -/
def utilCollAllgather (op : CollOperation β) (sendBuf result : Ptr β) (count : Nat) :
    CollOperation β :=
  let localRank := op.localRank
  let numranks := op.fiAddrCount
  -- copy the local value to the appropriate place in result buffer
  let op := op.utilCollSchedCopy sendBuf (result.add (localRank * count)) count true
  -- send to right, recv from left
  let leftRank := (numranks + localRank - 1) % numranks
  let rightRank := (localRank + 1) % numranks
  op.utilCollAllgatherLoop numranks leftRank rightRank count result (numranks - 1) localRank leftRank

end CollOperation

/-! ## §2 — the plan -/

/-- A group that passes its data round: its size, the identifier of the operation, how many elements,
the buffers, the number of the first round and everybody's data. -/
structure Ring (β V : Type) where
  size : Nat
  cid : Nat
  count : Nat
  sendBuf : Ptr β
  result : Ptr β
  first : Nat
  data : Nat → List V

namespace Ring

variable (R : Ring β V)

/-- Whose data a member gets in turn `i`, counted from its own. -/
def origin (r i : Nat) : Nat := (r + R.size - i) % R.size

def right (r : Nat) : Nat := (r + 1) % R.size

def left (r : Nat) : Nat := (R.size + r - 1) % R.size

/-- The place of a member's data. -/
def place (q : Nat) : Ptr β := R.result.add (q * R.count)

def turn (r i : Nat) : List (Step β V) :=
  [sendStep R.cid r (R.right r) (R.place (R.origin r i)) R.count false (R.first + i),
    recvStep R.cid (R.left r) (R.place (R.origin r (i + 1))) R.count true (R.first + i)
      (R.data (R.origin r (i + 1)))]

def turns (r : Nat) : List (Step β V) := (List.range (R.size - 1)).flatMap (R.turn r)

def plan (r : Nat) : List (Step β V) := copyStep R.sendBuf (R.place r) R.count :: R.turns r

variable {R} {r q i j : Nat}

theorem origin_eq (hr : r < R.size) (hi : i ≤ R.size) :
    R.origin r i = if i ≤ r then r - i else r + R.size - i := by
  unfold origin
  split
  · rw [show r + R.size - i = r - i + R.size by omega, Nat.add_mod_right, Nat.mod_eq_of_lt (by omega)]
  · exact Nat.mod_eq_of_lt (by omega)

theorem right_eq (hr : r < R.size) : R.right r = if r + 1 = R.size then 0 else r + 1 := by
  unfold right
  split
  · rename_i h
    rw [h, Nat.mod_self]
  · exact Nat.mod_eq_of_lt (by omega)

theorem left_eq (r : Nat) : R.left r = R.origin r 1 := by
  unfold left origin
  rw [Nat.add_comm]

theorem origin_lt (hr : r < R.size) : R.origin r i < R.size := Nat.mod_lt _ (by omega)

theorem origin_succ (hr : r < R.size) (hi : i < R.size) :
    (R.size + R.origin r i - 1) % R.size = R.origin r (i + 1) := by
  have hmod : ∀ a, a < R.size → (R.size + a - 1) % R.size = if a = 0 then R.size - 1 else a - 1 := by
    intro a ha
    split
    · rename_i h0
      rw [h0, Nat.add_zero]
      exact Nat.mod_eq_of_lt (by omega)
    · rw [show R.size + a - 1 = a - 1 + R.size by omega, Nat.add_mod_right,
        Nat.mod_eq_of_lt (by omega)]
  rw [hmod _ (origin_lt hr), origin_eq hr (by omega), origin_eq hr (by omega)]
  split <;> split <;> split <;> omega

/-- Every member is the origin of some turn. -/
theorem exists_origin (hr : r < R.size) (hq : q < R.size) : ∃ i < R.size, R.origin r i = q := by
  by_cases h : q ≤ r
  · refine ⟨r - q, by omega, ?_⟩
    rw [origin_eq hr (by omega), if_pos (by omega)]
    omega
  · refine ⟨r + R.size - q, by omega, ?_⟩
    rw [origin_eq hr (by omega), if_neg (by omega)]
    omega

theorem right_eq_iff (hr : r < R.size) (hq : q < R.size) : R.right r = q ↔ R.left q = r := by
  rw [left_eq, right_eq hr, origin_eq hq (by omega)]
  split <;> split <;> omega

/-- What a member gets is what the one on its left had a turn before. -/
theorem origin_right (hr : r < R.size) (hq : q < R.size) (h : R.right r = q) (hi : i < R.size) :
    R.origin q (i + 1) = R.origin r i := by
  rw [right_eq hr] at h
  rw [origin_eq hr (by omega), origin_eq hq (by omega)]
  split at h <;> split <;> split <;> omega

/-! ## §3 — the schedule is the plan -/

theorem loop_eq {op : CollOperation β} (hr : r < R.size) (hc : op.cid = R.cid)
    (hl : op.localRank = r) (k i : Nat) (hk : i + k + 1 = R.size) :
    op.utilCollAllgatherLoop R.size (R.left r) (R.right r) R.count R.result k (R.origin r i)
        (R.origin r (i + 1)) =
      op.schedule (items ((List.range' i k).flatMap (R.turn r))) := by
  induction k generalizing op i with
  | zero => rfl
  | succ k ih =>
      unfold CollOperation.utilCollAllgatherLoop
      have hturn : (op.utilCollSchedSend (R.right r) (R.place (R.origin r i)) R.count
          false).utilCollSchedRecv (R.left r) (R.place (R.origin r (i + 1))) R.count true =
            op.schedule (items (R.turn r i)) := by
        subst hl
        simp only [turn, sendStep, recvStep, ← hc]
        rfl
      show CollOperation.utilCollAllgatherLoop _ _ _ _ _ _ _ _ ((op.utilCollSchedSend (R.right r)
        (R.place (R.origin r i)) R.count false).utilCollSchedRecv (R.left r)
          (R.place (R.origin r (i + 1))) R.count true) = _
      rw [hturn, origin_succ hr (by omega), ih (by simpa using hc) (by simpa using hl) (i + 1) (by omega),
        CollOperation.schedule_append, List.range'_succ, List.flatMap_cons, ← items_append]

/-- What `util_coll_allgather` schedules. -/
theorem utilCollAllgather_eq {op : CollOperation β} (hr : r < R.size) (hc : op.cid = R.cid)
    (hl : op.localRank = r) (hn : op.fiAddrCount = R.size) :
    op.utilCollAllgather R.sendBuf R.result R.count = op.schedule (items (R.plan r)) := by
  have hzero : R.origin r 0 = r := by
    rw [origin_eq hr (by omega), if_pos (by omega), Nat.sub_zero]
  have hloop : ∀ op' : CollOperation β, op'.cid = R.cid → op'.localRank = r →
      op'.utilCollAllgatherLoop R.size (R.left r) (R.right r) R.count R.result (R.size - 1) r
        (R.left r) = op'.schedule (items (R.turns r)) := by
    intro op' hc' hl'
    have := loop_eq hr hc' hl' (R.size - 1) 0 (by omega)
    rw [hzero, Nat.zero_add, ← left_eq, ← List.range_eq_range'] at this
    exact this
  have hcopy : op.utilCollSchedCopy R.sendBuf (R.place r) R.count true =
      op.schedule (items [(copyStep R.sendBuf (R.place r) R.count : Step β V)]) := rfl
  unfold CollOperation.utilCollAllgather
  rw [hn, hl]
  refine (hloop (op.utilCollSchedCopy R.sendBuf (R.place r) R.count true) hc hl).trans ?_
  rw [hcopy, CollOperation.schedule_append, ← items_append]
  rfl

/-! ## §4 — executing the plan -/

/-- Data of the right length for everybody. -/
structure Valid (R : Ring β V) : Prop where
  bound : R.size < 2 ^ 31
  length : ∀ r < R.size, (R.data r).length = R.count

/-- The place of a member has its data. -/
def Filled (R : Ring β V) (m : Mem β V) (q : Nat) : Prop := m.read (R.place q) R.count = R.data q

theorem expected_turns : expected q (R.turns r) = (List.range (R.size - 1)).flatMap fun i =>
    if R.left r = q then [(R.first + i, R.data (R.origin r (i + 1)))] else [] := by
  rw [turns, expected, List.flatMap_assoc]
  refine List.flatMap_congr fun i _ => ?_
  simp [turn]

/-- The filled places one after the other. -/
theorem read_result {m : Mem β V} (hm : ∀ q < R.size, R.Filled m q) (k : Nat) (hk : k ≤ R.size) :
    m.read R.result (k * R.count) = (List.range k).flatMap R.data := by
  induction k with
  | zero => simp [Mem.read]
  | succ k ih =>
      rw [Nat.succ_mul, Mem.read_add, ih (by omega), List.range_succ, List.flatMap_append,
        List.flatMap_singleton]
      exact congrArg _ (hm k (by omega))

section Execution

variable [DecidableEq β] {handlers : Handlers V} {m : Mem β V}

/-- Filling a place leaves the others as they are. -/
theorem Filled.write (h : R.Valid) {p : Nat} (hp : p < R.size) (hq : R.Filled m q) :
    R.Filled (m.write (R.place p) (R.data p)) q := by
  have hlen := h.length p hp
  by_cases hpq : p = q
  · subst hpq
    exact Mem.read_write m _ hlen
  · refine (Mem.read_write_of_disjoint m ?_).trans hq
    simp only [place, Ptr.add_off, hlen]
    rcases Nat.lt_or_gt_of_ne hpq with hlt | hlt
    · have := Nat.mul_le_mul_right R.count hlt
      rw [Nat.succ_mul] at this
      omega
    · have := Nat.mul_le_mul_right R.count hlt
      rw [Nat.succ_mul] at this
      omega

theorem filled_write (h : R.Valid) {p : Nat} (hp : p < R.size) :
    R.Filled (m.write (R.place p) (R.data p)) p :=
  Mem.read_write m _ (h.length p hp)

/-- The turns from turn `i` on. -/
theorem turns_spec (handlers : Handlers V) (h : R.Valid) (hr : r < R.size) (k i : Nat) (hk : i + k + 1 = R.size)
    (hm : ∀ j ≤ i, R.Filled m (R.origin r j)) :
    sentTo handlers q m ((List.range' i k).flatMap (R.turn r)) =
        (List.range' i k).flatMap
          (fun i => if R.right r = q then [(R.first + i, R.data (R.origin r i))] else []) ∧
      ∀ j < R.size,
        R.Filled (memAfter handlers m ((List.range' i k).flatMap (R.turn r))) (R.origin r j) := by
  induction k generalizing i m with
  | zero => exact ⟨rfl, fun j hj => hm j (by omega)⟩
  | succ k ih =>
      have hlt : R.origin r (i + 1) < R.size := origin_lt hr
      obtain ⟨hsent, hread⟩ := ih (m := m.write (R.place (R.origin r (i + 1)))
        (R.data (R.origin r (i + 1)))) (i + 1) (by omega) (by
          intro j hj
          by_cases hji : j = i + 1
          · subst hji
            exact filled_write h hlt
          · exact (hm j (by omega)).write h hlt)
      have hmem : memAfter handlers m (R.turn r i) = m.write (R.place (R.origin r (i + 1)))
          (R.data (R.origin r (i + 1))) := by
        simp only [memAfter, turn, List.foldl_cons, List.foldl_nil, apply_sendStep]
        exact apply_recvStep _ _ _ _ _ (h.length _ hlt)
      have hturn : sentTo handlers q m (R.turn r i) =
          if R.right r = q then [(R.first + i, R.data (R.origin r i))] else [] := by
        have hfill : m.read (R.place (R.origin r i)) R.count = R.data (R.origin r i) :=
          hm i (Nat.le_refl i)
        simp [sentTo, turn, hfill]
      rw [List.range'_succ, List.flatMap_cons, List.flatMap_cons, sentTo_append, memAfter_append, hmem,
        hturn, hsent]
      exact ⟨rfl, hread⟩

/-- The whole ring: what a member sends to another one is what that one expects, and in the end it has
everybody's data. -/
theorem plan_spec (handlers : Handlers V) (h : R.Valid) (hr : r < R.size) (hq : q < R.size)
    (hm : m.read R.sendBuf R.count = R.data r) :
    sentTo handlers q m (R.plan r) = expected r (R.plan q) ∧
      ∀ p < R.size, R.Filled (memAfter handlers m (R.plan r)) p := by
  have hzero : R.origin r 0 = r := by
    rw [origin_eq hr (by omega), if_pos (by omega), Nat.sub_zero]
  have hstart : ∀ j ≤ 0, R.Filled (m.write (R.place r) (R.data r)) (R.origin r j) := by
    intro j hj
    obtain rfl : j = 0 := by omega
    rw [hzero]
    exact filled_write h hr
  have hspec := turns_spec (q := q) handlers h hr (R.size - 1) 0 (by omega) hstart
  rw [← List.range_eq_range'] at hspec
  have hsplit : sentTo handlers q m (R.plan r) =
      sentTo handlers q (m.write (R.place r) (R.data r)) (R.turns r) := by
    rw [plan, sentTo, sends_copyStep, List.nil_append, apply_copyStep, hm]
  have hmem : memAfter handlers m (R.plan r) =
      memAfter handlers (m.write (R.place r) (R.data r)) (R.turns r) := by
    rw [plan, memAfter, List.foldl_cons, apply_copyStep, hm]
    rfl
  refine ⟨?_, ?_⟩
  · have hexp : expected r (R.plan q) = expected r (R.turns q) := by
      simp [plan, expected]
    rw [hsplit, hexp, expected_turns]
    refine hspec.1.trans (List.flatMap_congr fun i hi => ?_)
    have hi := List.mem_range.mp hi
    by_cases hc : R.right r = q
    · rw [if_pos hc, if_pos ((right_eq_iff hr hq).mp hc), origin_right hr hq hc (by omega)]
    · rw [if_neg hc, if_neg (fun hl => hc ((right_eq_iff hr hq).mpr hl))]
  · intro p hp
    obtain ⟨i, hi, rfl⟩ := exists_origin hr hp
    rw [hmem]
    exact hspec.2 i hi

end Execution

/-! ## §5 — the items of the plan -/

theorem length_plan (R : Ring β V) (r : Nat) : (R.plan r).length = 2 * (R.size - 1) + 1 := by
  simp [plan, turns, turn, List.length_flatMap, Nat.mul_comm]

theorem groups_plan (R : Ring β V) (r : Nat) : Groups (R.plan r) := by
  refine .single rfl (.flatMap (fun i => .pair rfl rfl ?_ .nil) _)
  intro h
  cases h

section Members

variable [DecidableEq β] {handlers : Handlers V} {g : Group β V}

theorem within_turn (hs : g.size = R.size) (ht : g.tag = utilCollFormTag R.cid) (hr : r < R.size) :
    ∀ a ∈ R.turn r i, Within handlers g r (R.first + i) (R.first + i) a := by
  intro a ha
  rcases List.mem_pair.mp ha with rfl | rfl
  · exact ⟨by rw [hs]; exact Nat.mod_lt _ (by omega), by rw [ht], Nat.le_refl _, Nat.le_refl _⟩
  · exact ⟨by rw [hs]; exact Nat.mod_lt _ (by omega), by rw [ht], Nat.le_refl _, Nat.le_refl _⟩

theorem within_plan (hs : g.size = R.size) (ht : g.tag = utilCollFormTag R.cid) (hr : r < R.size) :
    ∀ a ∈ R.plan r, Within handlers g r R.first (R.first + R.size) a := by
  intro a ha
  rcases List.mem_cons.mp ha with rfl | ha
  · exact fun m => rfl
  · obtain ⟨i, hi, ha⟩ := List.mem_flatMap.mp ha
    have hi := List.mem_range.mp hi
    exact (within_turn hs ht hr a ha).mono (by omega) (by omega)

end Members

theorem roundsOk_plan (R : Ring β V) (r : Nat) : RoundsOk (R.plan r) := by
  have hturns : RoundsOk (R.turns r) := by
    refine .flatMap (fun i => .swap rfl) _ ?_
    intro i j hij _ a ha b hb hra hsb
    rcases List.mem_pair.mp ha with rfl | rfl
    · cases hra
    · rcases List.mem_pair.mp hb with rfl | rfl
      · exact Nat.add_lt_add_left hij _
      · cases hsb
  refine RoundsOk.append (P := [_]) (.of_no_recv ?_) hturns ?_
  · intro a ha
    obtain rfl := List.mem_singleton.mp ha
    rfl
  · intro a ha b _ hra
    obtain rfl := List.mem_singleton.mp ha
    cases hra

/-- The result is accessed within its bounds. -/
theorem accesses_result (R : Ring β V) (hsend : R.sendBuf.buf ≠ R.result.buf) (hr : r < R.size) :
    ∀ a ∈ R.plan r, ∀ x ∈ a.work.accesses, x.1.buf = R.result.buf →
      x.1.off + x.2 ≤ R.result.off + R.count * R.size := by
  have hplace : ∀ q < R.size, (R.place q).off + R.count ≤ R.result.off + R.count * R.size := by
    intro q hq
    have := Nat.mul_le_mul_right R.count hq
    rw [Nat.succ_mul, Nat.mul_comm R.size] at this
    simp only [place, Ptr.add_off]
    omega
  intro a ha x hx hbuf
  rcases List.mem_cons.mp ha with rfl | ha
  · rcases List.mem_pair.mp hx with rfl | rfl
    · exact absurd hbuf hsend
    · exact hplace r hr
  · obtain ⟨i, _, ha⟩ := List.mem_flatMap.mp ha
    rcases List.mem_pair.mp ha with rfl | rfl
    · obtain rfl := List.mem_singleton.mp hx
      exact hplace _ (origin_lt hr)
    · obtain rfl := List.mem_singleton.mp hx
      exact hplace _ (origin_lt hr)

end Ring

/-! ## §6 — every run -/

/-- The buffers of the call. -/
inductive AllgatherBuf where
  | buf | result
  deriving DecidableEq, Repr

/-- The arguments of the members' calls of `ofi_ep_allgather`. -/
structure Allgather (V : Type) where
  size : Nat
  cid : Nat
  count : Nat
  data : Nat → List V

namespace Allgather

/-- What `ofi_ep_allgather` schedules at a member. -/
def ofiEpAllgather (A : Allgather V) (r : Nat) : CollOperation AllgatherBuf :=
  (({ cid := A.cid, localRank := r, fiAddrCount := A.size } :
    CollOperation AllgatherBuf).utilCollAllgather ⟨.buf, 0⟩ ⟨.result, 0⟩ A.count).utilCollSchedComp

/-- The group of the calls; `mem` are the members' buffers before. -/
def group (A : Allgather V) (mem : Nat → Mem AllgatherBuf V) : Group AllgatherBuf V where
  size := A.size
  tag := utilCollFormTag A.cid
  schedule := fun r => (A.ofiEpAllgather r).workQueue.map fun x => (x.work, x.fence)
  mem := fun r => (mem r).write ⟨.buf, 0⟩ (A.data r)

/-- The ring of the call. -/
def ring (A : Allgather V) : Ring AllgatherBuf V :=
  ⟨A.size, A.cid, A.count, ⟨.buf, 0⟩, ⟨.result, 0⟩, 0, A.data⟩

structure Valid (A : Allgather V) : Prop where
  bound : A.size < 2 ^ 31
  counts : A.count < 2 ^ 31
  length : ∀ r < A.size, (A.data r).length = A.count

variable {A : Allgather V} {handlers : Handlers V} {mem : Nat → Mem AllgatherBuf V}
  {evs : List (NetEvent V)} {net : Net AllgatherBuf V}

theorem Valid.ring (h : A.Valid) : A.ring.Valid := ⟨h.bound, h.length⟩

theorem schedule_eq (mem : Nat → Mem AllgatherBuf V) {r : Nat} (hr : r < A.size) :
    (A.group mem).schedule r = items (A.ring.plan r ++ [compStep]) :=
  schedule_comp (A.ring.utilCollAllgather_eq hr rfl rfl rfl) rfl

theorem read_buf (h : A.Valid) (mem : Nat → Mem AllgatherBuf V) {r : Nat} (hr : r < A.size) :
    ((A.group mem).mem r).read A.ring.sendBuf A.ring.count = A.ring.data r :=
  Mem.read_write (mem r) _ (h.length r hr)

/-- The plans of the members fit together. -/
theorem sound (h : A.Valid) (handlers : Handlers V) (mem : Nat → Mem AllgatherBuf V) :
    Sound handlers (A.group mem) fun r => A.ring.plan r ++ [compStep] := by
  refine Sound.of_body A.size (fun r hr => schedule_eq mem hr) (fun r _ => A.ring.groups_plan r)
    (fun r _ => A.ring.roundsOk_plan r) ?_ ?_
  · intro r hr a ha
    exact (Ring.within_plan rfl rfl hr a ha).mono (by omega) (Nat.le_of_eq (Nat.zero_add _))
  · intro s hs r hr
    have hspec := (A.ring.plan_spec handlers h.ring hs hr (read_buf h mem hs)).1
    rw [sentTo_append, expected_append, hspec]
    rfl

/-- **Everybody's data.**  Whatever the interleaving, every member ends with the data of every member in
that member's place. -/
theorem allgather_computes (h : A.Valid) (handlers : Handlers V) (mem : Nat → Mem AllgatherBuf V) :
    Computes handlers (A.group mem) (A.size * (6 * A.size + 7)) fun _ m =>
      ∀ q < A.size, m.read ⟨.result, q * A.count⟩ A.count = A.data q := by
  refine (sound h handlers mem).computes ?_ ?_
  · refine (Finset.sum_le_card_nsmul _ _ (6 * A.size + 7) fun r _ => ?_).trans ?_
    · have := A.ring.length_plan r
      rw [List.length_append, this]
      show 3 * (2 * (A.size - 1) + 1 + 1) + 1 ≤ _
      omega
    · exact Nat.le_of_eq (by rw [Finset.card_range]; rfl)
  · intro r hr q hq
    have hspec := (A.ring.plan_spec handlers h.ring hr hq (read_buf h mem hr)).2 q hq
    rw [memAfter_append, memAfter_compStep]
    simpa only [Ring.Filled, Ring.place, Allgather.ring, Ptr.add, Nat.zero_add] using hspec

/-- Three members with a number each. -/
def gatherOfThree : Allgather Nat := ⟨3, 7, 1, fun r => [10 * r]⟩

theorem gatherOfThree_valid : gatherOfThree.Valid := ⟨by decide, by decide, fun _ _ => rfl⟩

theorem allgather_computes_three : ∃ evs net,
    run (Net.step (fun _ => none) (gatherOfThree.group fun _ _ _ => 0)) {} evs = .ok net ∧
      ∀ r < 3, ∃ ep, net.ep r = some ep ∧ ep.comps = 1 ∧
        ∀ q < 3, ep.mem.read ⟨.result, q * 1⟩ 1 = [10 * q] := by
  obtain ⟨evs, net, _, hrun, hall⟩ := (allgather_computes gatherOfThree_valid (fun _ => none)
    fun _ _ _ => 0).continues [] trivial rfl
  exact ⟨evs, net, hrun, hall⟩

end Allgather

end SstTransports.Util
