/-
# SstTransports.Util.Broadcast — the root's data goes to everybody, in chunks.

The data is cut into as many chunks as there are members; the chunks are scattered and then gathered by
everybody.  If the number of members divides the number of elements, everybody ends with the root's
data (`broadcast_computes`).  Otherwise the chunks are rounded up and reach beyond the buffers: the
calls keep to the buffers if and only if the number of members divides the number of elements
(`broadcast_in_bounds_iff`).
-/
import SstTransports.Util.Allgather
import SstTransports.Util.Scatter

namespace SstTransports.Util

open SstTransports.Lib

variable {V : Type}

/-! ## §1 — the call -/

/-- The buffers of the call; `chunk` and `scatter` are allocated by it. -/
inductive BroadcastBuf where
  | buf | chunk | scatter
  deriving DecidableEq, Repr

/-- The arguments of the members' calls of `ofi_ep_broadcast`; `data` is what the root has. -/
structure Broadcast (V : Type) where
  size : Nat
  cid : Nat
  count : Nat
  root : Nat
  data : List V

namespace Broadcast

variable (B : Broadcast V)

/-- `chunk_cnt` at a member. -/
def chunkCnt (r : Nat) : Nat :=
  let chunkCnt := (B.count + B.size - 1) / B.size
  if chunkCnt * r > B.count ∧ chunkCnt * r - B.count > chunkCnt then 0 else chunkCnt

/-- What `ofi_ep_broadcast` schedules at a member. -/
def ofiEpBroadcast (r : Nat) : CollOperation BroadcastBuf :=
  let op : CollOperation BroadcastBuf := { cid := B.cid, localRank := r, fiAddrCount := B.size }
  let op := op.utilCollScatter ⟨.buf, 0⟩ ⟨.chunk, 0⟩ ⟨.scatter, 0⟩ (B.chunkCnt r) B.root
  let op := op.utilCollAllgather ⟨.chunk, 0⟩ ⟨.buf, 0⟩ (B.chunkCnt r)
  op.utilCollSchedComp

/-- The group of the calls; `mem` are the members' buffers before. -/
def group (mem : Nat → Mem BroadcastBuf V) : Group BroadcastBuf V where
  size := B.size
  tag := utilCollFormTag B.cid
  schedule := fun r => (B.ofiEpBroadcast r).workQueue.map fun x => (x.work, x.fence)
  mem := fun r => if r = B.root then (mem r).write ⟨.buf, 0⟩ B.data else mem r

/-- A group that is not larger than the mask allows, a root in it and data of the right length. -/
structure Valid : Prop where
  bound : B.size ≤ 2 ^ 30
  counts : B.count + B.size < 2 ^ 31
  root : B.root < B.size
  length : B.data.length = B.count

/-! ## §2 — chunks that fit -/

/-- The chunk of a member. -/
def chunkOf (r : Nat) : List V := (B.data.drop (r * (B.count / B.size))).take (B.count / B.size)

/-- The tree of the call, for chunks of some size. -/
def treeOf {W : Type} (count : Nat) (data : Nat → List W) : Tree BroadcastBuf W :=
  ⟨B.size, B.cid, count, B.root, ⟨.buf, 0⟩, ⟨.chunk, 0⟩, ⟨.scatter, 0⟩, data⟩

/-- The ring of the call; its rounds come after those of the tree. -/
def ringOf {W : Type} (count : Nat) (data : Nat → List W) : Ring BroadcastBuf W :=
  ⟨B.size, B.cid, count, ⟨.chunk, 0⟩, ⟨.buf, 0⟩, 32, data⟩

def tree : Tree BroadcastBuf V := B.treeOf (B.count / B.size) B.chunkOf

def ring : Ring BroadcastBuf V := B.ringOf (B.count / B.size) B.chunkOf

def body (r : Nat) : List (Step BroadcastBuf V) := B.tree.plan r ++ B.ring.plan r

variable {B}

theorem chunkCnt_of_dvd (hd : B.size ∣ B.count) {r : Nat} (hr : r < B.size) :
    B.chunkCnt r = B.count / B.size := by
  obtain ⟨k, hk⟩ := hd
  have hpos : 0 < B.size := by omega
  have hdiv : (B.count + B.size - 1) / B.size = k := by
    rw [hk, show B.size * k + B.size - 1 = B.size - 1 + B.size * k by omega,
      Nat.add_mul_div_left _ _ hpos, Nat.div_eq_of_lt (by omega), Nat.zero_add]
  have hle : k * r ≤ B.count := by
    rw [hk, Nat.mul_comm]
    exact Nat.mul_le_mul_right k (by omega)
  unfold chunkCnt
  simp only [hdiv]
  rw [if_neg (by omega), hk, Nat.mul_div_cancel_left _ hpos]

/-- The chunks of all members are the data. -/
theorem flatMap_chunkOf (h : B.Valid) (hd : B.size ∣ B.count) :
    (List.range B.size).flatMap B.chunkOf = B.data := by
  have hpre : ∀ n, (List.range n).flatMap B.chunkOf = B.data.take (n * (B.count / B.size)) := by
    intro n
    induction n with
    | zero => simp
    | succ n ih =>
        rw [List.range_succ, List.flatMap_append, ih, List.flatMap_singleton, Nat.succ_mul,
          List.take_add]
        rfl
  rw [hpre, Nat.mul_div_cancel' hd, ← h.length, List.take_length]

theorem length_chunkOf (h : B.Valid) (hd : B.size ∣ B.count) {r : Nat} (hr : r < B.size) :
    (B.chunkOf r).length = B.count / B.size := by
  have hle : (r + 1) * (B.count / B.size) ≤ B.count := by
    calc (r + 1) * (B.count / B.size) ≤ B.size * (B.count / B.size) := Nat.mul_le_mul_right _ hr
      _ = B.count := Nat.mul_div_cancel' hd
  rw [Nat.succ_mul] at hle
  unfold chunkOf
  rw [List.length_take, List.length_drop, h.length]
  omega

theorem Valid.tree (h : B.Valid) (hd : B.size ∣ B.count) : B.tree.Valid where
  bound := h.bound
  counts := by
    have := h.counts
    show B.size * (B.count / B.size) < 2 ^ 31
    rw [Nat.mul_div_cancel' hd]
    omega
  root := h.root
  length := fun r hr => length_chunkOf h hd hr
  apart := by simp [Broadcast.tree, treeOf]

theorem Valid.ring (h : B.Valid) (hd : B.size ∣ B.count) : B.ring.Valid where
  bound := by
    have := h.bound
    show B.size < 2 ^ 31
    omega
  length := fun r hr => length_chunkOf h hd hr

theorem given (h : B.Valid) (hd : B.size ∣ B.count) (mem : Nat → Mem BroadcastBuf V) {r : Nat}
    (hr : r < B.size) : B.tree.Given (B.tree.rel r) ((B.group mem).mem r) := by
  intro h0
  have hroot : r = B.root := by
    rw [← Tree.rank_rel (h.tree hd) hr, h0]
    simp [Tree.rank, Broadcast.tree, treeOf, h.root]
  show (if r = B.root then _ else _ : Mem BroadcastBuf V).read _ _ =
    (List.range B.size).flatMap B.chunkOf
  rw [if_pos hroot, flatMap_chunkOf h hd]
  refine Mem.read_write _ _ ?_
  rw [h.length]
  exact (Nat.div_mul_cancel hd).symm

/-- What the call schedules, for the chunks that the member takes. -/
theorem schedule_of {W : Type} {r c : Nat} {data : Nat → List W} (hr : r < B.size)
    (hc : B.chunkCnt r = c) (h : (B.treeOf c data).Valid) :
    ((B.ofiEpBroadcast r).workQueue.map fun x => (x.work, x.fence)) =
      items ((B.treeOf c data).plan r ++ (B.ringOf c data).plan r ++ [compStep]) := by
  have htree : ({ cid := B.cid, localRank := r, fiAddrCount := B.size } :
      CollOperation BroadcastBuf).utilCollScatter ⟨.buf, 0⟩ ⟨.chunk, 0⟩ ⟨.scatter, 0⟩ c B.root =
        CollOperation.schedule _ (items ((B.treeOf c data).plan r)) :=
    (B.treeOf c data).utilCollScatter_eq h hr rfl rfl rfl
  have hring : ∀ op : CollOperation BroadcastBuf, op.cid = B.cid → op.localRank = r →
      op.fiAddrCount = B.size → op.utilCollAllgather ⟨.chunk, 0⟩ ⟨.buf, 0⟩ c =
        op.schedule (items ((B.ringOf c data).plan r)) :=
    fun op hc hl hn => (B.ringOf c data).utilCollAllgather_eq hr hc hl hn
  refine schedule_comp ?_ (show CollOperation.workQueue
    { cid := B.cid, localRank := r, fiAddrCount := B.size } = [] from rfl)
  rw [hc, htree, hring _ (by simp) (by simp) (by simp), CollOperation.schedule_append, ← items_append]

/-- The plans of the members fit together. -/
theorem sound (h : B.Valid) (hd : B.size ∣ B.count) (handlers : Handlers V)
    (mem : Nat → Mem BroadcastBuf V) :
    Sound handlers (B.group mem) fun r => B.body r ++ [compStep] := by
  have htree : ∀ r < B.size, ∀ a ∈ B.tree.plan r, Within handlers (B.group mem) r 0 31 a :=
    fun r hr => Tree.within_plan (h.tree hd) rfl rfl hr
  have hring : ∀ r < B.size, ∀ a ∈ B.ring.plan r,
      Within handlers (B.group mem) r 32 (32 + B.size) a :=
    fun r hr => Ring.within_plan rfl rfl hr
  refine Sound.of_body (32 + B.size) (fun r hr => schedule_of hr (chunkCnt_of_dvd hd hr) (h.tree hd))
    (fun r _ => (B.tree.groups_plan r).append (B.ring.groups_plan r)) ?_ ?_ ?_
  · intro r hr
    exact (Tree.roundsOk_plan (h.tree hd) hr).append (B.ring.roundsOk_plan r)
      fun a ha b hb => (htree r hr a ha).round_lt (hring r hr b hb) (by omega)
  · intro r hr a ha
    rcases List.mem_append.mp ha with ha | ha
    · exact (htree r hr a ha).mono (by omega) (by omega)
    · exact (hring r hr a ha).mono (by omega) (by omega)
  · intro s hs r hr
    have hfirst := Tree.sentTo_plan handlers (h.tree hd) hs hr (given h hd mem hs)
    have hsecond := (B.ring.plan_spec handlers (h.ring hd) hs hr
      (Tree.read_plan handlers (h.tree hd) hs (given h hd mem hs))).1
    unfold body
    simp only [sentTo_append, expected_append, hfirst, hsecond]
    rfl

/-- **The root's data.**  If the number of members divides the number of elements, then whatever the
interleaving every member ends with the root's data. -/
theorem broadcast_computes (h : B.Valid) (hd : B.size ∣ B.count) (handlers : Handlers V)
    (mem : Nat → Mem BroadcastBuf V) :
    Computes handlers (B.group mem) (B.size * (3 * Nat.clog 2 B.size + 6 * B.size + 16)) fun _ m =>
      m.read ⟨.buf, 0⟩ B.count = B.data := by
  refine (sound h hd handlers mem).computes ?_ ?_
  · refine (Finset.sum_le_card_nsmul _ _ (3 * Nat.clog 2 B.size + 6 * B.size + 16) fun r hr => ?_).trans ?_
    · have htree := Tree.length_plan_le (h.tree hd) (Finset.mem_range.mp hr)
      have hring := B.ring.length_plan r
      unfold body
      simp only [List.length_append, List.length_singleton]
      have hpos : r < B.size := Finset.mem_range.mp hr
      have hsize : B.tree.size = B.size ∧ B.ring.size = B.size := ⟨rfl, rfl⟩
      rw [hsize.1] at htree
      rw [hsize.2] at hring
      omega
    · exact Nat.le_of_eq (by rw [Finset.card_range]; rfl)
  · intro r hr
    have hread := Tree.read_plan handlers (h.tree hd) hr (given h hd mem hr)
    have hfilled := (B.ring.plan_spec handlers (h.ring hd) hr hr hread).2
    have hresult := B.ring.read_result hfilled B.size (Nat.le_refl _)
    unfold body
    rw [memAfter_append, memAfter_append, memAfter_compStep]
    rw [show B.size * B.ring.count = B.count from Nat.mul_div_cancel' hd] at hresult
    exact hresult.trans (flatMap_chunkOf h hd)

/-- Four numbers for two members. -/
def castOfTwo : Broadcast Nat := ⟨2, 7, 4, 1, [5, 6, 7, 8]⟩

theorem castOfTwo_valid : castOfTwo.Valid := ⟨by decide, by decide, by decide, rfl⟩

theorem broadcast_computes_two : ∃ evs net,
    run (Net.step (fun _ => none) (castOfTwo.group fun _ _ _ => 0)) {} evs = .ok net ∧
      ∀ r < 2, ∃ ep, net.ep r = some ep ∧ ep.comps = 1 ∧
        ep.mem.read ⟨.buf, 0⟩ 4 = [5, 6, 7, 8] := by
  obtain ⟨evs, net, _, hrun, hall⟩ := (broadcast_computes castOfTwo_valid (by decide) (fun _ => none)
    fun _ _ _ => 0).continues [] trivial rfl
  exact ⟨evs, net, hrun, hall⟩

/-! ## §3 — the bounds of the buffer -/

/-- The calls keep to the elements of the members' buffers. -/
def InBounds (B : Broadcast V) : Prop :=
  ∀ r < B.size, ∀ x ∈ (B.ofiEpBroadcast r).workQueue, ∀ a ∈ x.work.accesses, a.1.buf = .buf →
    a.1.off + a.2 ≤ B.count

/-- The items of the queue are those of the schedule. -/
theorem work_mem {r : Nat} {S : List (CollWork BroadcastBuf × Bool)}
    (hS : ((B.ofiEpBroadcast r).workQueue.map fun x => (x.work, x.fence)) = S)
    {w : CollWork BroadcastBuf × Bool} : w ∈ S ↔
      ∃ x ∈ (B.ofiEpBroadcast r).workQueue, (x.work, x.fence) = w := by
  rw [← hS, List.mem_map]

theorem inBounds_of_dvd (h : B.Valid) (hd : B.size ∣ B.count) : B.InBounds := by
  intro r hr x hx a ha hbuf
  have hS := schedule_of hr (chunkCnt_of_dvd hd hr) (h.tree hd)
  have hmem := (work_mem hS).mpr ⟨x, hx, rfl⟩
  have hcount : B.count / B.size * B.size = B.count := Nat.div_mul_cancel hd
  obtain ⟨b, hb, hbx⟩ := List.mem_map.mp hmem
  rw [← (Prod.mk.inj hbx).1] at ha
  simp only [List.mem_append] at hb
  rcases hb with (hb | hb) | hb
  · have := Tree.accesses_dataBuf (h.tree hd) (by simp [Broadcast.tree, treeOf]) hr b hb a ha hbuf
    rw [← hcount, ← Nat.zero_add (_ * _)]
    exact this
  · have := Ring.accesses_result B.ring (by simp [Broadcast.ring, ringOf]) hr b hb a ha hbuf
    rw [← hcount, ← Nat.zero_add (_ * _)]
    exact this
  · obtain rfl := List.mem_singleton.mp hb
    cases ha

/-- Member 0 receives the last chunk, which reaches beyond the buffer. -/
theorem not_inBounds (h : B.Valid) (hnd : ¬ B.size ∣ B.count) : ¬ B.InBounds := by
  intro hin
  have hroot := h.root
  have hbound := h.bound
  have hcounts := h.counts
  have hpos : 0 < B.size := by omega
  obtain ⟨c, hc⟩ : ∃ c, (B.count + B.size - 1) / B.size = c := ⟨_, rfl⟩
  -- rounded up, the chunks are together longer than the data
  have hdiv := Nat.div_add_mod (B.count + B.size - 1) B.size
  have hmod := Nat.mod_lt (B.count + B.size - 1) hpos
  rw [hc] at hdiv
  have hlong : B.count < B.size * c := by
    rcases Nat.lt_or_ge B.count (B.size * c) with hlt | hge
    · exact hlt
    · exact absurd ⟨c, by omega⟩ hnd
  have hone : 1 < B.size := by
    by_contra hle
    exact hnd (by rw [show B.size = 1 by omega]; exact Nat.one_dvd _)
  have hchunk : B.chunkCnt 0 = c := by
    unfold chunkCnt
    simp [hc]
  have hvalid : (B.treeOf c fun _ => List.replicate c ()).Valid :=
    ⟨hbound, by show B.size * c < _; omega, hroot, fun _ _ => List.length_replicate .., by simp [treeOf]⟩
  have hS := schedule_of hpos hchunk hvalid
  generalize hring : B.ringOf c (fun _ => List.replicate c ()) = R at hS
  have hsize : R.size = B.size := by rw [← hring]; rfl
  have horigin : R.origin 0 (0 + 1) = B.size - 1 := by
    rw [Ring.origin_eq (by omega) (by omega), if_neg (by omega), hsize]
    omega
  obtain ⟨b, hb, hwork⟩ : ∃ b ∈ R.plan 0,
      b.work = .recv (R.left 0) (utilCollFormTag R.cid (R.left 0)) (R.place (B.size - 1)) R.count := by
    refine ⟨_, List.mem_cons_of_mem _ (List.mem_flatMap.mpr ⟨0, by simp [hsize]; omega,
      List.mem_pair.mpr (.inr rfl)⟩), ?_⟩
    rw [horigin]
    rfl
  obtain ⟨x, hx, hxb⟩ := (work_mem hS).mp (List.mem_map.mpr ⟨b, by simp [hb], rfl⟩)
  have hxw : x.work = b.work := (Prod.mk.inj hxb).1
  have hle : (R.place (B.size - 1)).off + R.count ≤ B.count :=
    hin 0 hpos x hx (R.place (B.size - 1), R.count) (by
      rw [hxw, hwork]
      exact List.mem_singleton_self _) (by rw [← hring]; rfl)
  have hend : (B.size - 1) * c + c = B.size * c := by
    rw [← Nat.succ_mul]
    congr 1
    omega
  have hoff : (R.place (B.size - 1)).off + R.count = B.size * c := by
    rw [← hring, ← hend, ← Nat.zero_add ((B.size - 1) * c)]
    rfl
  omega

/-- **The calls keep to the buffers if and only if the number of members divides the number of
elements.** -/
theorem broadcast_in_bounds_iff (h : B.Valid) : B.InBounds ↔ B.size ∣ B.count := by
  constructor
  · intro hin
    by_contra hnd
    exact not_inBounds h hnd hin
  · exact inBounds_of_dvd h

/-- Three numbers for two members. -/
def oddCastOfTwo : Broadcast Nat := ⟨2, 7, 3, 1, [5, 6, 7]⟩

theorem oddCastOfTwo_valid : oddCastOfTwo.Valid := ⟨by decide, by decide, by decide, rfl⟩

theorem broadcast_out_of_bounds : ¬ oddCastOfTwo.InBounds := by
  rw [broadcast_in_bounds_iff oddCastOfTwo_valid]
  decide

end Broadcast

end SstTransports.Util
