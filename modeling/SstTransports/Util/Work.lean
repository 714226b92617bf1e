/-
# SstTransports.Util.Work — the work queue of a collective operation.

A collective operation of the utility provider is a list of work items: transfers, reductions, copies
and a final completion.  The items of one operation wait in its work queue in the order in which they
were scheduled.  An item may be marked as a fence: it leaves the queue only after everything before
it, and what stands behind it does not start before it has left.

`utilCollOpProgressWork` is the walk over this queue that removes what is complete and starts at most
one item.  `progressWork_eq` says once what the walk does on a queue whose started items stand in
front; `Layout` is the shape of the queue that it keeps.
-/
import Mathlib.Data.List.Induction
import SstTransports.Lib.Memory

namespace SstTransports.Util

open SstTransports.Lib

variable {β V : Type}

/-! ## §1 — work items -/

/-- `enum coll_state`. -/
inductive CollState where
  | waiting | processing | complete
  deriving DecidableEq, Repr

/-- `enum fi_op`, the operations of the atomic calls. -/
inductive FiOp where
  | min | max | sum | prod | lor | land | bor | band | lxor | bxor
  | atomicRead | atomicWrite | cswap | cswapNe | cswapLe | cswapLt | cswapGe | cswapGt | mswap
  deriving DecidableEq, Repr

/-- `FI_MIN <= op && FI_BXOR >= op`. -/
def FiOp.reduces : FiOp → Bool
  | .min | .max | .sum | .prod | .lor | .land | .bor | .band | .lxor | .bxor => true
  | _ => false

/-- An address: an element of a buffer. -/
structure Ptr (β : Type) where
  buf : β
  off : Nat
  deriving DecidableEq, Repr

/-- The address some elements on. -/
def Ptr.add (p : Ptr β) (n : Nat) : Ptr β := ⟨p.buf, p.off + n⟩

@[simp] theorem Ptr.add_buf (p : Ptr β) (n : Nat) : (p.add n).buf = p.buf := rfl

@[simp] theorem Ptr.add_off (p : Ptr β) (n : Nat) : (p.add n).off = p.off + n := rfl

/-- The buffers of a process: an element for each address. -/
abbrev Mem (β V : Type) := β → Memory V

/-- The `count` elements from an address on. -/
def Mem.read (mem : Mem β V) (p : Ptr β) (count : Nat) : List V :=
  (List.range count).map fun i => mem p.buf (p.off + i)

/-- Write the values from an address on. -/
def Mem.write [DecidableEq β] (mem : Mem β V) (p : Ptr β) (vs : List V) : Mem β V :=
  Function.update mem p.buf (store (mem p.buf) p.off vs)

theorem Mem.write_apply [DecidableEq β] (mem : Mem β V) (p : Ptr β) (vs : List V) (b : β) (j : Nat) :
    mem.write p vs b j =
      if b = p.buf ∧ p.off ≤ j then (vs[j - p.off]?).getD (mem b j) else mem b j := by
  unfold Mem.write
  by_cases hb : b = p.buf
  · subst hb
    rw [Function.update_self, store_apply]
    simp
  · rw [Function.update_of_ne hb]
    simp [hb]

/-- Outside of the written elements nothing changes. -/
theorem Mem.write_frame [DecidableEq β] (mem : Mem β V) (p : Ptr β) (vs : List V) {b : β} {j : Nat}
    (h : ¬ (b = p.buf ∧ p.off ≤ j ∧ j < p.off + vs.length)) : mem.write p vs b j = mem b j := by
  rw [Mem.write_apply]
  split
  · rename_i hb
    rw [List.getElem?_eq_none (by by_contra hlt; exact h ⟨hb.1, hb.2, by omega⟩)]
    rfl
  · rfl

/-- In the written elements it does not matter what was there. -/
theorem Mem.write_congr [DecidableEq β] {mem mem' : Mem β V} {p : Ptr β} {vs : List V} {b : β}
    {j : Nat} (h : ¬ (b = p.buf ∧ p.off ≤ j ∧ j < p.off + vs.length) → mem b j = mem' b j) :
    mem.write p vs b j = mem'.write p vs b j := by
  by_cases hin : b = p.buf ∧ p.off ≤ j ∧ j < p.off + vs.length
  · obtain ⟨hb, hle, hlt⟩ := hin
    rw [Mem.write_apply, Mem.write_apply, if_pos ⟨hb, hle⟩, if_pos ⟨hb, hle⟩,
      List.getElem?_eq_getElem (by omega)]
    rfl
  · rw [Mem.write_frame mem p vs hin, Mem.write_frame mem' p vs hin, h hin]

theorem Mem.read_congr {mem mem' : Mem β V} {p : Ptr β} {count : Nat}
    (h : ∀ i < count, mem p.buf (p.off + i) = mem' p.buf (p.off + i)) :
    mem.read p count = mem'.read p count := by
  refine List.map_congr_left ?_
  intro i hi
  exact h i (List.mem_range.mp hi)

@[simp] theorem Mem.length_read (mem : Mem β V) (p : Ptr β) (count : Nat) :
    (mem.read p count).length = count := by
  simp [Mem.read]

/-- Reading in two parts. -/
theorem Mem.read_add (mem : Mem β V) (p : Ptr β) (a b : Nat) :
    mem.read p (a + b) = mem.read p a ++ mem.read (p.add a) b := by
  simp [Mem.read, List.range_add, Function.comp_def, Nat.add_assoc]

/-- What was written is read back. -/
theorem Mem.read_write [DecidableEq β] (mem : Mem β V) (p : Ptr β) {vs : List V} {count : Nat}
    (h : vs.length = count) : (mem.write p vs).read p count = vs := by
  subst h
  refine List.ext_getElem (by simp) fun i h₁ h₂ => ?_
  simp [Mem.read, Mem.write_apply, h₂]

theorem Mem.read_write_of_ne [DecidableEq β] (mem : Mem β V) {p q : Ptr β} (h : q.buf ≠ p.buf)
    (vs : List V) (count : Nat) : (mem.write p vs).read q count = mem.read q count :=
  Mem.read_congr fun i _ => Mem.write_frame mem p vs (by simp [h])

/-- Elements beside the written ones are read as before. -/
theorem Mem.read_write_of_disjoint [DecidableEq β] (mem : Mem β V) {p q : Ptr β} {vs : List V}
    {count : Nat} (h : p.off + vs.length ≤ q.off ∨ q.off + count ≤ p.off) :
    (mem.write p vs).read q count = mem.read q count :=
  Mem.read_congr fun i hi => Mem.write_frame mem p vs (by omega)

/-- `enum coll_work_type` with the fields of the item's own structure. -/
inductive CollWork (β : Type) where
  | send (remoteRank tag : Nat) (buf : Ptr β) (count : Nat)
  | recv (remoteRank tag : Nat) (buf : Ptr β) (count : Nat)
  | reduce (inBuf inoutBuf : Ptr β) (count : Nat) (op : FiOp)
  | copy (inBuf outBuf : Ptr β) (count : Nat)
  | comp
  deriving DecidableEq, Repr

/-- The elements that an item reads or writes: from where on and how many. -/
def CollWork.accesses : CollWork β → List (Ptr β × Nat)
  | .send _ _ buf count | .recv _ _ buf count => [(buf, count)]
  | .reduce inBuf inoutBuf count _ => [(inBuf, count), (inoutBuf, count)]
  | .copy inBuf outBuf count => [(inBuf, count), (outBuf, count)]
  | .comp => []

/-- `struct util_coll_work_item`; `id` stands for the address of the item. -/
structure WorkItem (β : Type) where
  id : Nat
  work : CollWork β
  state : CollState
  fence : Bool
  deriving DecidableEq, Repr

/-! ## §2 — scheduling work -/

/-- `struct util_coll_operation` with what the scheduling functions read of its `mc`. -/
structure CollOperation (β : Type) where
  cid : Nat
  localRank : Nat
  fiAddrCount : Nat
  workQueue : List (WorkItem β) := []

/-- `OFI_COLL_TAG_FLAG`. -/
def ofiCollTagFlag : Nat := 1 <<< 63

/-- The tag of the messages that a rank sends for one collective operation. -/
def utilCollFormTag (collId rank : Nat) : Nat :=
  ofiCollTagFlag ||| (collId ||| (rank <<< 32) % 2 ^ 64)

namespace CollOperation

/-- Put the item at the tail of the work queue, in the waiting state. -/
def utilCollOpBindWork (op : CollOperation β) (work : CollWork β) (fence : Bool) :
    CollOperation β :=
  { op with workQueue := op.workQueue ++ [⟨op.workQueue.length, work, .waiting, fence⟩] }

def utilCollSchedSend (op : CollOperation β) (dest : Nat) (buf : Ptr β) (count : Nat)
    (fence : Bool) : CollOperation β :=
  op.utilCollOpBindWork (.send dest (utilCollFormTag op.cid op.localRank) buf count) fence

def utilCollSchedRecv (op : CollOperation β) (src : Nat) (buf : Ptr β) (count : Nat)
    (fence : Bool) : CollOperation β :=
  op.utilCollOpBindWork (.recv src (utilCollFormTag op.cid src) buf count) fence

def utilCollSchedReduce (op : CollOperation β) (inBuf inoutBuf : Ptr β) (count : Nat)
    (fiOp : FiOp) (fence : Bool) : CollOperation β :=
  op.utilCollOpBindWork (.reduce inBuf inoutBuf count fiOp) fence

def utilCollSchedCopy (op : CollOperation β) (inBuf outBuf : Ptr β) (count : Nat)
    (fence : Bool) : CollOperation β :=
  op.utilCollOpBindWork (.copy inBuf outBuf count) fence

def utilCollSchedComp (op : CollOperation β) : CollOperation β :=
  op.utilCollOpBindWork .comp true

end CollOperation

/-- The waiting items of a schedule, numbered in its order. -/
def queueOf (S : List (CollWork β × Bool)) : List (WorkItem β) :=
  S.mapIdx fun i w => ⟨i, w.1, .waiting, w.2⟩

theorem length_queueOf (S : List (CollWork β × Bool)) : (queueOf S).length = S.length := by
  simp [queueOf]

theorem queueOf_snoc (S : List (CollWork β × Bool)) (w : CollWork β × Bool) :
    queueOf (S ++ [w]) = queueOf S ++ [⟨S.length, w.1, .waiting, w.2⟩] := by
  simp [queueOf, List.mapIdx_append]

theorem map_queueOf (S : List (CollWork β × Bool)) :
    (queueOf S).map (fun x => (x.work, x.fence)) = S := by
  refine List.ext_getElem (by simp [queueOf]) fun i h₁ h₂ => ?_
  simp [queueOf]

theorem drop_queueOf {S : List (CollWork β × Bool)} {p : Nat} {w : CollWork β × Bool}
    (hw : S[p]? = some w) :
    (queueOf S).drop p = ⟨p, w.1, .waiting, w.2⟩ :: (queueOf S).drop (p + 1) := by
  obtain ⟨hp, rfl⟩ := List.getElem?_eq_some_iff.mp hw
  rw [List.drop_eq_getElem_cons (by rw [length_queueOf]; exact hp)]
  simp [queueOf]

/-- An operation to which some more items have been bound. -/
def CollOperation.schedule (op : CollOperation β) (S : List (CollWork β × Bool)) :
    CollOperation β :=
  S.foldl (fun op w => op.utilCollOpBindWork w.1 w.2) op

namespace CollOperation

variable (op : CollOperation β) (S S' : List (CollWork β × Bool))

theorem schedule_append : (op.schedule S).schedule S' = op.schedule (S ++ S') := by
  simp [schedule]

@[simp] theorem schedule_cid : (op.schedule S).cid = op.cid := by
  induction S generalizing op with
  | nil => rfl
  | cons w S ih => exact ih _

@[simp] theorem schedule_localRank : (op.schedule S).localRank = op.localRank := by
  induction S generalizing op with
  | nil => rfl
  | cons w S ih => exact ih _

@[simp] theorem schedule_fiAddrCount : (op.schedule S).fiAddrCount = op.fiAddrCount := by
  induction S generalizing op with
  | nil => rfl
  | cons w S ih => exact ih _

/-- The queue holds what was scheduled, in order. -/
theorem schedule_workQueue (h : op.workQueue = []) : (op.schedule S).workQueue = queueOf S := by
  induction S using List.reverseRecOn with
  | nil => exact h
  | append_singleton S w ih =>
      rw [← schedule_append, queueOf_snoc]
      show (op.schedule S).workQueue ++ _ = _
      rw [ih, length_queueOf]

end CollOperation

/-! ## §3 — the walk over the work queue -/

/-- The loop of `util_coll_op_progress_work`.  `prev` is the item before the current one in the
queue, `none` when that is the head of the list.  The result is the rest of the queue and the item
that was started. -/
def utilCollOpProgressWork (prev : Option (WorkItem β)) :
    List (WorkItem β) → List (WorkItem β) × Option Nat
  | [] => ([], none)
  | cur :: rest =>
    if cur.state = .complete then
      -- a completed fence stays while there is work before it
      if cur.fence && prev.isSome then
        let (q, ready) := utilCollOpProgressWork (some cur) rest
        (cur :: q, ready)
      else utilCollOpProgressWork prev rest
    else if prev.any (·.fence) then (cur :: rest, none)
    else if cur.state ≠ .waiting then
      let (q, ready) := utilCollOpProgressWork (some cur) rest
      (cur :: q, ready)
    else ({ cur with state := .processing } :: rest, some cur.id)

/-- The started items that the walk leaves in the queue. -/
def clean (L : List (WorkItem β)) : List (WorkItem β) :=
  if L.all (·.state = .complete) then [] else L.filter fun x => x.state ≠ .complete || x.fence

/-- Start the first of the waiting items. -/
def startFirst : List (WorkItem β) → List (WorkItem β) × Option Nat
  | [] => ([], none)
  | w :: rest => ({ w with state := .processing } :: rest, some w.id)

/-- Every item but the last is not a fence. -/
def FenceLast (L : List (WorkItem β)) : Prop :=
  L.Pairwise fun x _ => x.fence = false

section Walk

variable {L W : List (WorkItem β)}

theorem walk_behind_fence {y : WorkItem β} (hy : y.fence = true)
    (hW : ∀ w ∈ W, w.state = .waiting) :
    utilCollOpProgressWork (some y) W = (W, none) := by
  cases W with
  | nil => rfl
  | cons w W =>
      have hw : w.state = .waiting := hW w List.mem_cons_self
      simp [utilCollOpProgressWork, hw, hy]

theorem walk_start {p : Option (WorkItem β)} (hp : p.any (·.fence) = false)
    (hW : ∀ w ∈ W, w.state = .waiting) : utilCollOpProgressWork p W = startFirst W := by
  cases W with
  | nil => rfl
  | cons w W =>
      have hw : w.state = .waiting := hW w List.mem_cons_self
      simp [utilCollOpProgressWork, startFirst, hw, hp]

theorem FenceLast.tail {x : WorkItem β} (h : FenceLast (x :: L)) : FenceLast L :=
  (List.pairwise_cons.mp h).2

/-- A fence at the front is alone. -/
theorem FenceLast.eq_nil {x : WorkItem β} (h : FenceLast (x :: L)) (hx : x.fence = true) :
    L = [] := by
  cases L with
  | nil => rfl
  | cons y L =>
      have : x.fence = false := (List.pairwise_cons.mp h).1 y List.mem_cons_self
      simp [hx] at this

/-- The items behind one that stays. -/
theorem walk_after {y : WorkItem β} (hy : y.fence = false) (hL : FenceLast L)
    (hs : ∀ x ∈ L, x.state ≠ .waiting) (hW : ∀ w ∈ W, w.state = .waiting) :
    utilCollOpProgressWork (some y) (L ++ W) =
      let K := L.filter fun x => x.state ≠ .complete || x.fence
      if K.any (·.fence) then (K ++ W, none)
      else (K ++ (startFirst W).1, (startFirst W).2) := by
  induction L generalizing y with
  | nil => simpa using walk_start (p := some y) (by simpa using hy) hW
  | cons x L ih =>
      have hx : x.state ≠ .waiting := hs x List.mem_cons_self
      have hs' : ∀ z ∈ L, z.state ≠ .waiting := fun z hz => hs z (List.mem_cons_of_mem x hz)
      by_cases hc : x.state = .complete
      · by_cases hf : x.fence = true
        · obtain rfl := hL.eq_nil hf
          simp [utilCollOpProgressWork, hc, hf, walk_behind_fence hf hW]
        · simp only [Bool.not_eq_true] at hf
          simp [utilCollOpProgressWork, hc, hf, ih hy hL.tail hs']
      · by_cases hf : x.fence = true
        · obtain rfl := hL.eq_nil hf
          simp [utilCollOpProgressWork, hc, hf, hx, hy, walk_behind_fence hf hW]
        · simp only [Bool.not_eq_true] at hf
          have hrec := ih hf hL.tail hs'
          simp only [List.cons_append, utilCollOpProgressWork, if_neg hc, Option.any_some, hy,
            Bool.false_eq_true, if_false, if_pos hx, hrec]
          simp only [List.filter_cons, hc, ne_eq, not_false_eq_true, decide_true, Bool.true_or,
            if_true, List.any_cons, hf, Bool.false_or]
          split <;> rfl

/-- **What one walk does.** Completed items are dropped, a completed fence only with everything before
it; behind a fence that stays nothing is started, otherwise the first waiting item is. -/
theorem progressWork_eq (hL : FenceLast L) (hs : ∀ x ∈ L, x.state ≠ .waiting)
    (hW : ∀ w ∈ W, w.state = .waiting) :
    utilCollOpProgressWork none (L ++ W) =
      if (clean L).any (·.fence) then (clean L ++ W, none)
      else (clean L ++ (startFirst W).1, (startFirst W).2) := by
  induction L with
  | nil => simpa [clean] using walk_start (p := none) rfl hW
  | cons x L ih =>
      have hx : x.state ≠ .waiting := hs x List.mem_cons_self
      have hs' : ∀ z ∈ L, z.state ≠ .waiting := fun z hz => hs z (List.mem_cons_of_mem x hz)
      by_cases hc : x.state = .complete
      · have hclean : clean (x :: L) = clean L := by
          by_cases hf : x.fence = true
          · obtain rfl := hL.eq_nil hf
            simp [clean, hc]
          · simp [clean, hc, hf]
        rw [hclean, ← ih hL.tail hs']
        simp [utilCollOpProgressWork, hc]
      · have hclean : clean (x :: L) =
            x :: L.filter fun z => z.state ≠ .complete || z.fence := by
          simp [clean, hc]
        rw [hclean]
        by_cases hf : x.fence = true
        · obtain rfl := hL.eq_nil hf
          simp [utilCollOpProgressWork, hc, hf, hx, walk_behind_fence hf hW]
        · simp only [Bool.not_eq_true] at hf
          have hrest := walk_after hf hL.tail hs' hW
          simp only [List.cons_append, utilCollOpProgressWork, if_neg hc, Option.any_none,
            Bool.false_eq_true, if_false, if_pos hx, hrest, List.any_cons, hf, Bool.false_or]
          split <;> rfl

end Walk

/-! ## §4 — the shape of the queue -/

/-- The schedule has a fence at this place. -/
def FenceAt (S : List (CollWork β × Bool)) (i : Nat) : Prop :=
  ∃ w, S[i]? = some (w, true)

/-- The shape of a work queue in which the first `p` items of the schedule have been started and
those of `L` are still there. -/
structure Layout (S : List (CollWork β × Bool)) (L : List (WorkItem β)) (p : Nat) : Prop where
  bound : p ≤ S.length
  item : ∀ x ∈ L, x.id < p ∧ S[x.id]? = some (x.work, x.fence) ∧ x.state ≠ .waiting
  sorted : L.Pairwise (·.id < ·.id)
  /-- between an item that is still there and the last one started there is no fence -/
  noFence : ∀ x ∈ L, ∀ f, x.id ≤ f → f + 1 < p → ¬ FenceAt S f
  lastFence : ∀ f, f + 1 = p → FenceAt S f → L ≠ [] → ∃ x ∈ L, x.id = f

/-- Nothing can be started: all is started, or the last item started is a fence and still there. -/
def Settled (S : List (CollWork β × Bool)) (L : List (WorkItem β)) (p : Nat) : Prop :=
  p = S.length ∨ ∃ x ∈ L, x.id + 1 = p ∧ x.fence = true

namespace Layout

variable {S : List (CollWork β × Bool)} {L : List (WorkItem β)} {p : Nat}

theorem nil (S : List (CollWork β × Bool)) : Layout S [] 0 where
  bound := Nat.zero_le _
  item := by simp
  sorted := List.Pairwise.nil
  noFence := by simp
  lastFence := by simp

/-- A fence that is still there is the last item started. -/
theorem id_of_fence (h : Layout S L p) {x : WorkItem β} (hx : x ∈ L) (hf : x.fence = true) :
    x.id + 1 = p := by
  obtain ⟨hlt, hS, _⟩ := h.item x hx
  by_contra hne
  exact h.noFence x hx x.id (Nat.le_refl _) (by omega) ⟨x.work, by rw [hS, hf]⟩

theorem fenceLast (h : Layout S L p) : FenceLast L := by
  refine h.sorted.imp_of_mem ?_
  intro x y hx hy hlt
  by_contra hf
  have hxp := h.id_of_fence hx (by simpa using hf)
  have hyp := (h.item y hy).1
  omega

theorem sublist (h : Layout S L p) {K : List (WorkItem β)} (hK : K.Sublist L)
    (hlast : K ≠ [] → ∀ x ∈ L, x.fence = true → x ∈ K) : Layout S K p where
  bound := h.bound
  item := fun x hx => h.item x (hK.subset hx)
  sorted := h.sorted.sublist hK
  noFence := fun x hx => h.noFence x (hK.subset hx)
  lastFence := by
    intro f hfp hf hne
    have hL : L ≠ [] := by
      rintro rfl
      exact hne (List.sublist_nil.mp hK)
    obtain ⟨x, hx, rfl⟩ := h.lastFence f hfp hf hL
    refine ⟨x, hlast hne x hx ?_, rfl⟩
    obtain ⟨w, hw⟩ := hf
    have := (h.item x hx).2.1
    rw [hw] at this
    exact (Prod.mk.inj (Option.some.inj this)).2.symm

theorem clean (h : Layout S L p) : Layout S (clean L) p := by
  unfold Util.clean
  split
  · exact h.sublist (List.nil_sublist L) (fun hne => absurd rfl hne)
  · refine h.sublist List.filter_sublist ?_
    intro _ x hx hf
    simp [hx, hf]

theorem start (h : Layout S L p) (hL : L.any (·.fence) = false) {w : CollWork β × Bool}
    (hw : S[p]? = some w) : Layout S (L ++ [⟨p, w.1, .processing, w.2⟩]) (p + 1) where
  bound := by
    have := (List.getElem?_eq_some_iff.mp hw).1
    omega
  item := by
    intro x hx
    rcases List.mem_append.mp hx with hx | hx
    · obtain ⟨hlt, hS, hst⟩ := h.item x hx
      exact ⟨by omega, hS, hst⟩
    · obtain rfl := List.mem_singleton.mp hx
      exact ⟨Nat.lt_succ_self p, hw, by simp⟩
  sorted := by
    refine List.pairwise_append.mpr ⟨h.sorted, List.pairwise_singleton _ _, ?_⟩
    intro x hx y hy
    obtain rfl := List.mem_singleton.mp hy
    exact (h.item x hx).1
  noFence := by
    intro x hx f hxf hfp hf
    rcases List.mem_append.mp hx with hx | hx
    · by_cases hlast : f + 1 = p
      · -- the last item started is not a fence, or it would still be there
        obtain ⟨y, hy, rfl⟩ := h.lastFence f hlast hf (List.ne_nil_of_mem hx)
        obtain ⟨w', hw'⟩ := hf
        have hyS := (h.item y hy).2.1
        rw [hw'] at hyS
        have hyf : y.fence = true := (Prod.mk.inj (Option.some.inj hyS)).2.symm
        have := List.any_eq_false.mp hL y hy
        exact this hyf
      · exact h.noFence x hx f hxf (by omega) hf
    · obtain rfl := List.mem_singleton.mp hx
      simp only at hxf
      omega
  lastFence := by
    intro f hfp _ _
    exact ⟨_, List.mem_append_right L (List.mem_singleton_self _), by simp only; omega⟩

theorem mem_clean {x : WorkItem β} (hx : x ∈ Util.clean L) :
    x ∈ L ∧ (x.state = .complete → x.fence = true ∧ ∃ y ∈ L, y.state ≠ .complete) := by
  unfold Util.clean at hx
  split at hx
  · cases hx
  · rename_i hall
    obtain ⟨hxL, hk⟩ := List.mem_filter.mp hx
    refine ⟨hxL, ?_⟩
    intro hc
    have hy : ∃ y ∈ L, y.state ≠ .complete := by simpa using hall
    exact ⟨by simpa [hc] using hk, hy⟩

/-- What is not complete stays. -/
theorem mem_clean_of_not_complete {x : WorkItem β} (hx : x ∈ L) (hc : x.state ≠ .complete) :
    x ∈ Util.clean L := by
  unfold Util.clean
  have hall : ¬ (L.all (·.state = .complete)) = true := by
    intro hall
    exact hc (by simpa using List.all_eq_true.mp hall x hx)
  rw [if_neg hall]
  simp [hx, hc]

/-- One walk keeps the shape.  It starts the next item of the schedule, or there is nothing to
start. -/
theorem progressWork (h : Layout S L p) :
    (utilCollOpProgressWork none (L ++ (queueOf S).drop p) =
        (Util.clean L ++ (queueOf S).drop p, none) ∧ Settled S (Util.clean L) p) ∨
    ∃ w, S[p]? = some w ∧ (Util.clean L).any (·.fence) = false ∧
      utilCollOpProgressWork none (L ++ (queueOf S).drop p) =
        ((Util.clean L ++ [⟨p, w.1, .processing, w.2⟩]) ++ (queueOf S).drop (p + 1), some p) := by
  have hW : ∀ w ∈ (queueOf S).drop p, w.state = .waiting := by
    intro w hw
    have := List.mem_of_mem_drop hw
    simp only [queueOf, List.mem_mapIdx] at this
    obtain ⟨i, hi, rfl⟩ := this
    rfl
  rw [progressWork_eq h.fenceLast (fun x hx => (h.item x hx).2.2) hW]
  by_cases hb : (Util.clean L).any (·.fence) = true
  · rw [if_pos hb]
    obtain ⟨x, hx, hf⟩ := List.any_eq_true.mp hb
    exact .inl ⟨rfl, .inr ⟨x, hx, h.clean.id_of_fence hx hf, hf⟩⟩
  · rw [if_neg hb]
    simp only [Bool.not_eq_true] at hb
    by_cases hp : p < S.length
    · refine .inr ⟨S[p], List.getElem?_eq_getElem hp, hb, ?_⟩
      rw [drop_queueOf (List.getElem?_eq_getElem hp)]
      simp [startFirst]
    · have hlen : p = S.length := Nat.le_antisymm h.bound (by omega)
      have hdrop : (queueOf S).drop p = [] := List.drop_eq_nil_of_le (by rw [length_queueOf]; omega)
      rw [hdrop]
      exact .inl ⟨by simp [startFirst], .inl hlen⟩

end Layout

/-! ## §5 — marking an item complete -/

/-- Set the state of one item to complete. -/
def mark (i : Nat) (L : List (WorkItem β)) : List (WorkItem β) :=
  L.map fun x => if x.id = i then { x with state := .complete } else x

section Mark

variable {S : List (CollWork β × Bool)} {L : List (WorkItem β)} {p i : Nat}

theorem mem_mark {y : WorkItem β} (hy : y ∈ mark i L) :
    ∃ x ∈ L, y.id = x.id ∧ y.work = x.work ∧ y.fence = x.fence ∧
      y.state = if x.id = i then .complete else x.state := by
  obtain ⟨x, hx, rfl⟩ := List.mem_map.mp hy
  refine ⟨x, hx, ?_⟩
  by_cases hxi : x.id = i
  · simp [hxi]
  · simp [hxi]

theorem mem_mark_of_ne {x : WorkItem β} (hx : x ∈ L) (hne : x.id ≠ i) : x ∈ mark i L :=
  List.mem_map.mpr ⟨x, hx, by simp [hne]⟩

theorem mark_append (L W : List (WorkItem β)) : mark i (L ++ W) = mark i L ++ mark i W := by
  simp [mark]

/-- The waiting items are not touched. -/
theorem mark_drop (hi : i < p) : mark i ((queueOf S).drop p) = (queueOf S).drop p := by
  refine (List.map_congr_left ?_).trans (List.map_id _)
  intro x hx
  obtain ⟨k, hk, rfl⟩ := List.mem_iff_getElem.mp hx
  have : ((queueOf S).drop p)[k].id ≠ i := by
    simp [queueOf]
    omega
  rw [if_neg this]
  rfl

theorem Layout.mark (h : Layout S L p) (i : Nat) : Layout S (mark i L) p where
  bound := h.bound
  item := by
    intro y hy
    obtain ⟨x, hx, hid, hw, hf, hst⟩ := mem_mark hy
    obtain ⟨hlt, hS, hne⟩ := h.item x hx
    refine ⟨by omega, by rw [hid, hw, hf]; exact hS, ?_⟩
    rw [hst]
    split
    · simp
    · exact hne
  sorted := by
    refine List.pairwise_map.mpr (h.sorted.imp ?_)
    intro x y hxy
    split <;> split <;> exact hxy
  noFence := by
    intro y hy
    obtain ⟨x, hx, hid, _⟩ := mem_mark hy
    rw [hid]
    exact h.noFence x hx
  lastFence := by
    intro f hfp hf hne
    obtain ⟨x, hx, rfl⟩ := h.lastFence f hfp hf (by rintro rfl; exact hne rfl)
    refine ⟨_, List.mem_map_of_mem hx, ?_⟩
    split <;> rfl

end Mark

end SstTransports.Util
