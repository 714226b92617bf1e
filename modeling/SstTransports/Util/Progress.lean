/-
# SstTransports.Util.Progress — an endpoint progressing a collective operation.

`CollEp` is an endpoint with one operation on it: the work queue, the queue of ready items, the
transfers that were handed to the provider and have not completed, and the buffers.  It moves when
`ofi_coll_ep_progress` takes the next ready item and when the provider reports a completed transfer.

The provider may refuse a transfer.  A send that is refused with `-FI_EAGAIN` goes back to the ready
queue; a receive that is refused, for whatever reason, is not put back, and neither is a send that
fails otherwise.  `fence_orders_items` holds whatever the provider answers;
`refused_transfer_never_completes` is what becomes of an operation that has lost an item.
-/
import Mathlib.Data.List.Nodup
import SstTransports.Lib.Run
import SstTransports.Util.Work

namespace SstTransports.Util

open SstTransports.Lib

variable {β V : Type}

/-! ## §1 — the endpoint -/

/-- An endpoint with one collective operation. -/
structure CollEp (β V : Type) where
  workQueue : List (WorkItem β)
  readyQueue : List Nat := []
  /-- items whose transfer the provider has accepted and not completed -/
  posted : List Nat := []
  mem : Mem β V
  /-- how often the completion function has been called -/
  comps : Nat := 0

/-- What the provider answers to a transfer. -/
inductive XferRet where
  | success | eagain | error
  deriving DecidableEq, Repr

/-- Why there is no next state: nothing of the kind is due, or a freed item is used or a null
function called. -/
inductive Stop where
  | notDue | fault
  deriving DecidableEq, Repr

/-- A message given to the provider. -/
structure Message (V : Type) where
  dest : Nat
  tag : Nat
  data : List V
  deriving DecidableEq, Repr

/-- The reduction functions of a data type by operation; null where the type does not have it. -/
abbrev Handlers (V : Type) := FiOp → Option (V → V → V)

namespace CollEp

/-- `util_coll_op_progress_work` on the endpoint's operation. -/
def progressWork (ep : CollEp β V) : CollEp β V :=
  let (q, ready) := utilCollOpProgressWork none ep.workQueue
  { ep with workQueue := q, readyQueue := ep.readyQueue ++ ready.toList }

/-- An item is complete and the operation goes on. -/
def complete (ep : CollEp β V) (i : Nat) : CollEp β V :=
  { ep with workQueue := mark i ep.workQueue }.progressWork

variable [DecidableEq β]

/-- `util_coll_proc_reduce_item`; `none` stands for `-FI_ENOSYS`. -/
def utilCollProcReduceItem (handlers : Handlers V) (mem : Mem β V) (inBuf inoutBuf : Ptr β)
    (count : Nat) (op : FiOp) : Except Stop (Option (Mem β V)) :=
  if op.reduces then
    match handlers op with
    | some f =>
      .ok (some (mem.write inoutBuf
        (List.zipWith f (mem.read inoutBuf count) (mem.read inBuf count))))
    | none => .error .fault
  else .ok none

/-- One pass of the loop of `ofi_coll_ep_progress`: the first ready item is taken and processed;
`ret` is the provider's answer if it is a transfer. -/
def ofiCollEpProgress (handlers : Handlers V) (ret : XferRet) (ep : CollEp β V) :
    Except Stop (CollEp β V × Option (Message V)) :=
  match ep.readyQueue with
  | [] => .error .notDue
  | i :: rest =>
    match ep.workQueue.find? (·.id = i) with
    | none => .error .fault
    | some item =>
      match item.work with
      | .send dest tag buf count =>
        match ret with
        | .success =>
          .ok ({ ep with readyQueue := rest, posted := ep.posted ++ [i] }.progressWork,
            some ⟨dest, tag, ep.mem.read buf count⟩)
        | .eagain => .ok ({ ep with readyQueue := rest ++ [i] }, none)
        | .error => .ok ({ ep with readyQueue := rest }.progressWork, none)
      | .recv _ _ _ _ =>
        match ret with
        | .success =>
          .ok ({ ep with readyQueue := rest, posted := ep.posted ++ [i] }.progressWork, none)
        | _ => .ok ({ ep with readyQueue := rest }, none)
      | .reduce inBuf inoutBuf count op =>
        match utilCollProcReduceItem handlers ep.mem inBuf inoutBuf count op with
        | .ok (some mem) => .ok ({ ep with readyQueue := rest, mem := mem }.complete i, none)
        | .ok none => .ok ({ ep with readyQueue := rest }, none)
        | .error e => .error e
      | .copy inBuf outBuf count =>
        .ok ({ ep with readyQueue := rest,
                       mem := ep.mem.write outBuf (ep.mem.read inBuf count) }.complete i, none)
      | .comp => .ok ({ ep with readyQueue := rest, comps := ep.comps + 1 }.complete i, none)

/-- `ofi_coll_handle_xfer_comp`, called with the item of a transfer that the provider had accepted;
for a receive the provider has put the data into the item's buffer. -/
def ofiCollHandleXferComp (ep : CollEp β V) (i : Nat) (data : List V) :
    Except Stop (CollEp β V) :=
  if i ∈ ep.posted then
    match ep.workQueue.find? (·.id = i) with
    | none => .error .fault
    | some item =>
      match item.work with
      | .recv _ _ buf count =>
        .ok ({ ep with posted := ep.posted.erase i,
                       mem := ep.mem.write buf (data.take count) }.complete i)
      | _ => .ok ({ ep with posted := ep.posted.erase i }.complete i)
  else .error .notDue

/-- What happens at one endpoint. -/
inductive Event (V : Type) where
  | progress (ret : XferRet)
  | xferComp (i : Nat) (data : List V)

def step (handlers : Handlers V) (ep : CollEp β V) : Event V → Except Stop (CollEp β V)
  | .progress ret =>
    match ep.ofiCollEpProgress handlers ret with
    | .ok (ep', _) => .ok ep'
    | .error e => .error e
  | .xferComp i data => ep.ofiCollHandleXferComp i data

/-- The endpoint after a call that has scheduled the items of `S`. -/
def entered (S : List (CollWork β × Bool)) (mem : Mem β V) : CollEp β V :=
  { workQueue := queueOf S, mem := mem : CollEp β V }.progressWork

end CollEp

/-! ## §2 — the shape of an endpoint's queues -/

/-- The first `p` items of the schedule have been started and those of `L` are still there.  Among
these are the ready items, the posted ones and those of `G`, which are being processed but neither
ready nor posted. -/
structure Shape (S : List (CollWork β × Bool)) (ep : CollEp β V) (G : List Nat)
    (L : List (WorkItem β)) (p : Nat) : Prop where
  layout : Layout S L p
  queue : ep.workQueue = L ++ (queueOf S).drop p
  held : ∀ k ∈ ep.readyQueue ++ (ep.posted ++ G), ∃ x ∈ L, x.id = k ∧ x.state = .processing
  nodup : (ep.readyQueue ++ (ep.posted ++ G)).Nodup

section Endpoint

variable {handlers : Handlers V} {S : List (CollWork β × Bool)} {ep ep' : CollEp β V}
  {G : List Nat} {L : List (WorkItem β)} {p i : Nat}

/-- One walk over the queue of an endpoint. -/
theorem progressWork_cases (hl : Layout S L p) (hq : ep.workQueue = L ++ (queueOf S).drop p) :
    (ep.progressWork = { ep with workQueue := clean L ++ (queueOf S).drop p } ∧
      Settled S (clean L) p) ∨
    ∃ w, S[p]? = some w ∧ (clean L).any (·.fence) = false ∧
      ep.progressWork =
        { ep with workQueue := (clean L ++ [⟨p, w.1, .processing, w.2⟩]) ++ (queueOf S).drop (p + 1),
                  readyQueue := ep.readyQueue ++ [p] } := by
  rcases hl.progressWork with ⟨heq, hset⟩ | ⟨w, hw, hany, heq⟩
  · refine .inl ⟨?_, hset⟩
    simp only [CollEp.progressWork, hq, heq]
    simp
  · refine .inr ⟨w, hw, hany, ?_⟩
    simp only [CollEp.progressWork, hq, heq]
    simp

namespace Shape

theorem lt (h : Shape S ep G L p) {k : Nat} (hk : k ∈ ep.readyQueue ++ (ep.posted ++ G)) : k < p := by
  obtain ⟨x, hx, rfl, _⟩ := h.held k hk
  exact (h.layout.item x hx).1

/-- The item that a ready or posted number stands for. -/
theorem find (h : Shape S ep G L p) {k : Nat} (hk : k ∈ ep.readyQueue ++ (ep.posted ++ G)) :
    ∃ x ∈ L, ep.workQueue.find? (·.id = k) = some x ∧ x.id = k ∧
      S[k]? = some (x.work, x.fence) ∧ x.state = .processing := by
  obtain ⟨x, hx, rfl, hst⟩ := h.held k hk
  refine ⟨x, hx, ?_, rfl, (h.layout.item x hx).2.1, hst⟩
  obtain ⟨A, B, rfl⟩ := List.append_of_mem hx
  rw [h.queue, List.append_assoc, List.find?_append]
  have hA : A.find? (fun y => decide (y.id = x.id)) = none := by
    refine List.find?_eq_none.mpr ?_
    intro y hy
    have := (List.pairwise_append.mp h.layout.sorted).2.2 y hy x List.mem_cons_self
    simp only [decide_eq_true_eq]
    omega
  simp [hA]

/-- What is being processed is not removed. -/
theorem held_clean {Q : List Nat} (held : ∀ k ∈ Q, ∃ x ∈ L, x.id = k ∧ x.state = .processing) :
    ∀ k ∈ Q, ∃ x ∈ clean L, x.id = k ∧ x.state = .processing := by
  intro k hk
  obtain ⟨x, hx, hid, hst⟩ := held k hk
  exact ⟨x, Layout.mem_clean_of_not_complete hx (by simp [hst]), hid, hst⟩

/-- The shape after a walk that starts the next item. -/
theorem started (ep : CollEp β V) (hl : Layout S L p)
    (held : ∀ k ∈ ep.readyQueue ++ (ep.posted ++ G), ∃ x ∈ L, x.id = k ∧ x.state = .processing)
    (nodup : (ep.readyQueue ++ (ep.posted ++ G)).Nodup) {w : CollWork β × Bool}
    (hw : S[p]? = some w) (hany : (clean L).any (·.fence) = false) :
    Shape S { ep with workQueue := (clean L ++ [⟨p, w.1, .processing, w.2⟩]) ++
                        (queueOf S).drop (p + 1),
                      readyQueue := ep.readyQueue ++ [p] } G
      (clean L ++ [⟨p, w.1, .processing, w.2⟩]) (p + 1) := by
  refine ⟨hl.clean.start hany hw, rfl, ?_, ?_⟩
  · intro k hk
    by_cases hkp : k = p
    · subst hkp
      exact ⟨_, List.mem_append_right _ (List.mem_singleton_self _), rfl, rfl⟩
    · obtain ⟨x, hx, hx'⟩ := held_clean held k (by grind)
      exact ⟨x, List.mem_append_left _ hx, hx'⟩
  · have hp : p ∉ ep.readyQueue ++ (ep.posted ++ G) := by
      intro hp
      obtain ⟨x, hx, hid, _⟩ := held p hp
      have := (hl.item x hx).1
      omega
    rw [List.append_assoc, List.singleton_append]
    exact List.nodup_middle.mpr (List.nodup_cons.mpr ⟨hp, nodup⟩)

/-- Walking over the queue, when the ready and posted items are still being processed. -/
theorem of_progressWork (ep : CollEp β V) (hl : Layout S L p)
    (hq : ep.workQueue = L ++ (queueOf S).drop p)
    (held : ∀ k ∈ ep.readyQueue ++ (ep.posted ++ G), ∃ x ∈ L, x.id = k ∧ x.state = .processing)
    (nodup : (ep.readyQueue ++ (ep.posted ++ G)).Nodup) :
    ∃ L' p', Shape S ep.progressWork G L' p' ∧
      ∀ y ∈ ep.progressWork.workQueue, ∃ x ∈ ep.workQueue, x.id = y.id := by
  rcases progressWork_cases hl hq with ⟨heq, _⟩ | ⟨w, hw, hany, heq⟩
  · rw [heq]
    refine ⟨clean L, p, ⟨hl.clean, rfl, held_clean held, nodup⟩, ?_⟩
    intro y hy
    rw [hq]
    rcases List.mem_append.mp hy with hy | hy
    · exact ⟨y, List.mem_append_left _ (Layout.mem_clean hy).1, rfl⟩
    · exact ⟨y, List.mem_append_right _ hy, rfl⟩
  · rw [heq]
    refine ⟨_, p + 1, started ep hl held nodup hw hany, ?_⟩
    intro y hy
    rw [hq, drop_queueOf hw]
    rw [List.append_assoc] at hy
    rcases List.mem_append.mp hy with hy | hy
    · exact ⟨y, List.mem_append_left _ (Layout.mem_clean hy).1, rfl⟩
    · rcases List.mem_cons.mp hy with rfl | hy
      · exact ⟨_, List.mem_append_right _ List.mem_cons_self, rfl⟩
      · exact ⟨y, List.mem_append_right _ (List.mem_cons_of_mem _ hy), rfl⟩

/-- The same after setting an item to complete that is neither ready nor posted any more. -/
theorem of_complete (ep : CollEp β V) (hl : Layout S L p)
    (hq : ep.workQueue = L ++ (queueOf S).drop p) (hip : i < p)
    (hi : i ∉ ep.readyQueue ++ (ep.posted ++ G))
    (held : ∀ k ∈ ep.readyQueue ++ (ep.posted ++ G), ∃ x ∈ L, x.id = k ∧ x.state = .processing)
    (nodup : (ep.readyQueue ++ (ep.posted ++ G)).Nodup) :
    ∃ L' p', Shape S (ep.complete i) G L' p' ∧
      ∀ y ∈ (ep.complete i).workQueue, ∃ x ∈ ep.workQueue, x.id = y.id := by
  have hq' : mark i ep.workQueue = mark i L ++ (queueOf S).drop p := by
    rw [hq, mark_append, mark_drop hip]
  have held' : ∀ k ∈ ep.readyQueue ++ (ep.posted ++ G),
      ∃ x ∈ mark i L, x.id = k ∧ x.state = .processing := by
    intro k hk
    obtain ⟨x, hx, rfl, hst⟩ := held k hk
    exact ⟨x, mem_mark_of_ne hx (by rintro rfl; exact hi hk), rfl, hst⟩
  obtain ⟨L', p', hsh, hids⟩ :=
    of_progressWork { ep with workQueue := mark i ep.workQueue } (hl.mark i) hq' held' nodup
  refine ⟨L', p', hsh, ?_⟩
  intro y hy
  obtain ⟨x, hx, hxy⟩ := hids y hy
  obtain ⟨z, hz, hzx, _⟩ := mem_mark hx
  exact ⟨z, hz, by omega⟩

theorem entered (S : List (CollWork β × Bool)) (mem : Mem β V) :
    ∃ L p, Shape S (CollEp.entered S mem) [] L p := by
  obtain ⟨L, p, h, _⟩ := of_progressWork (G := []) { workQueue := queueOf S, mem := mem }
    (Layout.nil S) rfl (by simp) (by simp)
  exact ⟨L, p, h⟩

end Shape

end Endpoint

/-! ## §3 — one event at an endpoint -/

def CollWork.isSend : CollWork β → Bool
  | .send _ _ _ _ => true
  | _ => false

def CollWork.isRecv : CollWork β → Bool
  | .recv _ _ _ _ => true
  | _ => false

def CollWork.isComp : CollWork β → Bool
  | .comp => true
  | _ => false

/-- The message of an item, as the buffers are when it is processed. -/
def CollWork.message (mem : Mem β V) : CollWork β → Option (Message V)
  | .send dest tag buf count => some ⟨dest, tag, mem.read buf count⟩
  | _ => none

section Step

variable [DecidableEq β] {handlers : Handlers V} {S : List (CollWork β × Bool)} {ep ep' : CollEp β V}
  {L : List (WorkItem β)} {p i : Nat}

/-- What an item that is no transfer makes of the buffers; `none` if it cannot be processed. -/
def CollWork.effect (handlers : Handlers V) (mem : Mem β V) : CollWork β → Option (Mem β V)
  | .reduce inBuf inoutBuf count op =>
    if op.reduces then
      (handlers op).map fun f =>
        mem.write inoutBuf (List.zipWith f (mem.read inoutBuf count) (mem.read inBuf count))
    else none
  | .copy inBuf outBuf count => some (mem.write outBuf (mem.read inBuf count))
  | .comp => some mem
  | _ => none

/-- The ways a pass over the ready item `i` can end. -/
inductive Pass (handlers : Handlers V) (ep : CollEp β V) (i : Nat) (rest : List Nat)
    (w : CollWork β) : XferRet → CollEp β V → Option (Message V) → Prop where
  /-- the provider has taken the transfer -/
  | handed (hw : w.isSend || w.isRecv) :
      Pass handlers ep i rest w .success
        { ep with readyQueue := rest, posted := ep.posted ++ [i] }.progressWork (w.message ep.mem)
  /-- the send goes back to the ready queue -/
  | again (hw : w.isSend) :
      Pass handlers ep i rest w .eagain { ep with readyQueue := rest ++ [i] } none
  /-- the send has failed -/
  | failed (hw : w.isSend) :
      Pass handlers ep i rest w .error { ep with readyQueue := rest }.progressWork none
  /-- the loop is left without the item -/
  | left (ret : XferRet) (hw : w.isRecv ∧ ret ≠ .success ∨
      (w.isSend || w.isRecv) = false ∧ w.effect handlers ep.mem = none) :
      Pass handlers ep i rest w ret { ep with readyQueue := rest } none
  /-- the item is complete at once -/
  | done (ret : XferRet) (mem : Mem β V) (hw : w.effect handlers ep.mem = some mem) :
      Pass handlers ep i rest w ret
        ({ ep with readyQueue := rest, mem := mem,
                   comps := ep.comps + w.isComp.toNat }.complete i) none

/-- A pass processes the first ready item in one of these ways. -/
theorem pass_of_progress {ret : XferRet} {m : Option (Message V)}
    (hstep : ep.ofiCollEpProgress handlers ret = .ok (ep', m)) :
    ∃ i rest x, ep.readyQueue = i :: rest ∧ ep.workQueue.find? (·.id = i) = some x ∧
      Pass handlers ep i rest x.work ret ep' m := by
  unfold CollEp.ofiCollEpProgress at hstep
  split at hstep
  · cases hstep
  · rename_i i rest hr
    split at hstep
    · cases hstep
    · rename_i x hfind
      refine ⟨i, rest, x, hr, hfind, ?_⟩
      obtain ⟨id, work, state, fence⟩ := x
      cases work with
      | send dest tag buf count =>
          cases ret with
          | success => cases hstep; exact .handed rfl
          | eagain => cases hstep; exact .again rfl
          | error => cases hstep; exact .failed rfl
      | recv src tag buf count =>
          cases ret with
          | success => cases hstep; exact .handed rfl
          | eagain => cases hstep; exact .left .eagain (.inl ⟨rfl, by simp⟩)
          | error => cases hstep; exact .left .error (.inl ⟨rfl, by simp⟩)
      | reduce inBuf inoutBuf count op =>
          simp only [CollEp.utilCollProcReduceItem] at hstep
          cases hop : op.reduces with
          | false =>
              simp only [hop, Bool.false_eq_true, if_false] at hstep
              cases hstep
              exact .left ret (.inr ⟨rfl, by simp [CollWork.effect, hop]⟩)
          | true =>
              cases hh : handlers op with
              | none => simp [hop, hh] at hstep
              | some f =>
                  simp only [hop, hh, if_true] at hstep
                  cases hstep
                  exact .done ret _ (by simp [CollWork.effect, hop, hh])
      | copy inBuf outBuf count => cases hstep; exact .done ret _ rfl
      | comp => cases hstep; exact .done ret _ rfl

/-- The items of the queue afterwards are items of the queue before. -/
def NoNewItems (ep ep' : CollEp β V) : Prop :=
  ∀ y ∈ ep'.workQueue, ∃ x ∈ ep.workQueue, x.id = y.id

/-- The provider refuses a receive, or fails a send for good. -/
def Refused (w : CollWork β) (ret : XferRet) : Prop :=
  w.isRecv ∧ ret ≠ .success ∨ w.isSend ∧ ret = .error

/-- A pass keeps the shape; a refused transfer stays in the queue without being ready or posted. -/
theorem Shape.pass (h : Shape S ep G L p) {rest : List Nat} {w : CollWork β} {ret : XferRet}
    {m : Option (Message V)} (hr : ep.readyQueue = i :: rest)
    (hpass : Pass handlers ep i rest w ret ep' m) :
    ∃ G' L' p', Shape S ep' G' L' p' ∧ (G ⊆ G' ∧ (Refused w ret → i ∈ G')) ∧
      NoNewItems ep ep' := by
  have hip : i < p := h.lt (by simp [hr])
  have hnd := h.nodup
  rw [hr, List.cons_append] at hnd
  have held := h.held
  rw [hr] at held
  have hsame : NoNewItems ep ep := fun y hy => ⟨y, hy, rfl⟩
  cases hpass with
  | handed hw =>
      obtain ⟨L', p', h', hids⟩ := Shape.of_progressWork
        { ep with readyQueue := rest, posted := ep.posted ++ [i] } h.layout h.queue (G := G)
        (fun k hk => held k (by grind)) (by grind)
      exact ⟨G, L', p', h', ⟨List.Subset.refl G, by simp [Refused]⟩, hids⟩
  | again hw =>
      have hnr : ¬ Refused w .eagain := by
        cases w <;> simp [Refused, CollWork.isRecv, CollWork.isSend] at hw ⊢
      exact ⟨G, L, p, ⟨h.layout, h.queue, fun k hk => held k (by grind), by grind⟩,
        ⟨List.Subset.refl G, fun hf => absurd hf hnr⟩, hsame⟩
  | failed hw =>
      obtain ⟨L', p', h', hids⟩ := Shape.of_progressWork
        { ep with readyQueue := rest } h.layout h.queue (G := i :: G)
        (fun k hk => held k (by grind)) (by grind)
      exact ⟨i :: G, L', p', h', ⟨List.subset_cons_self i G, fun _ => List.mem_cons_self⟩, hids⟩
  | left ret hw =>
      exact ⟨i :: G, L, p, ⟨h.layout, h.queue, fun k hk => held k (by grind), by grind⟩,
        ⟨List.subset_cons_self i G, fun _ => List.mem_cons_self⟩, hsame⟩
  | done ret mem hw =>
      obtain ⟨L', p', h', hids⟩ := Shape.of_complete
        { ep with readyQueue := rest, mem := mem, comps := ep.comps + w.isComp.toNat }
        h.layout h.queue hip (G := G) (by grind) (fun k hk => held k (by grind)) (by grind)
      have hnr : ¬ Refused w ret := by
        cases w <;> simp [Refused, CollWork.isRecv, CollWork.isSend, CollWork.effect] at hw ⊢
      exact ⟨G, L', p', h', ⟨List.Subset.refl G, fun hf => absurd hf hnr⟩, hids⟩

/-- A completed transfer keeps the shape. -/
theorem Shape.xferComp (h : Shape S ep G L p) {data : List V}
    (hstep : ep.ofiCollHandleXferComp i data = .ok ep') :
    ep'.comps = ep.comps ∧ ∃ L' p', Shape S ep' G L' p' ∧ NoNewItems ep ep' := by
  unfold CollEp.ofiCollHandleXferComp at hstep
  split at hstep
  · rename_i hi
    have hip : i < p := h.lt (by simp [hi])
    have hnd := h.nodup
    have hdisj : i ∉ ep.readyQueue ++ (ep.posted.erase i ++ G) := by
      grind [List.Nodup.mem_erase_iff]
    have hsub : ∀ k ∈ ep.readyQueue ++ (ep.posted.erase i ++ G),
        ∃ x ∈ L, x.id = k ∧ x.state = .processing := fun k hk => h.held k (by grind)
    have hnd' : (ep.readyQueue ++ (ep.posted.erase i ++ G)).Nodup := by
      grind [List.Nodup.erase]
    split at hstep
    · cases hstep
    · split at hstep
      · cases hstep
        exact ⟨rfl, Shape.of_complete _ h.layout h.queue hip hdisj hsub hnd'⟩
      · cases hstep
        exact ⟨rfl, Shape.of_complete _ h.layout h.queue hip hdisj hsub hnd'⟩
  · cases hstep

/-- Every event keeps the shape, and the completion function is called only for its own item. -/
theorem Shape.step (h : Shape S ep G L p) {ev : CollEp.Event V}
    (hstep : ep.step handlers ev = .ok ep') :
    ∃ G' L' p', Shape S ep' G' L' p' ∧ G ⊆ G' ∧ NoNewItems ep ep' ∧
      (ep'.comps = ep.comps ∨ ∃ x ∈ L, x.work = .comp) := by
  cases ev with
  | progress ret =>
      simp only [CollEp.step] at hstep
      split at hstep
      · rename_i ep₁ m hprog
        cases hstep
        obtain ⟨i, rest, x, hr, hfind, hpass⟩ := pass_of_progress hprog
        obtain ⟨G', L', p', h', ⟨hG, _⟩, hids⟩ := h.pass hr hpass
        refine ⟨G', L', p', h', hG, hids, ?_⟩
        obtain ⟨y, hy, hfind', _⟩ := h.find (k := i) (by simp [hr])
        rw [hfind] at hfind'
        cases hfind'
        cases hpass with
        | handed hw => exact .inl rfl
        | again hw => exact .inl rfl
        | failed hw => exact .inl rfl
        | left ret hw => exact .inl rfl
        | done ret mem hw =>
            cases hx : x.work with
            | comp => exact .inr ⟨x, hy, hx⟩
            | send dest tag buf count => exact .inl rfl
            | recv src tag buf count => exact .inl rfl
            | reduce inBuf inoutBuf count op => exact .inl rfl
            | copy inBuf outBuf count => exact .inl rfl
      · cases hstep
  | xferComp i data =>
      obtain ⟨hc, L', p', h', hids⟩ := h.xferComp hstep
      exact ⟨G, L', p', h', List.Subset.refl G, hids, .inl hc⟩

/-! ## §4 — what holds in every run of an endpoint -/

theorem shape_of_run {mem : Mem β V} {es : List (CollEp.Event V)}
    (hrun : run (CollEp.step handlers) (CollEp.entered S mem) es = .ok ep) :
    ∃ G L p, Shape S ep G L p := by
  refine run_induction (P := fun _ ep => ∃ G L p, Shape S ep G L p) ?_ ?_ hrun
  · obtain ⟨L, p, h⟩ := Shape.entered S mem
    exact ⟨[], L, p, h⟩
  · intro as s a s' _ ⟨G, L, p, h⟩ hstep
    obtain ⟨G', L', p', h', _⟩ := h.step hstep
    exact ⟨G', L', p', h'⟩

/-- **A fence orders the items around it.**  Whatever the provider answers and in whatever order the
transfers complete: as long as an item at or before a fence is in the queue, every item behind the
fence is waiting. -/
theorem fence_orders_items {mem : Mem β V} {es : List (CollEp.Event V)}
    (hrun : run (CollEp.step handlers) (CollEp.entered S mem) es = .ok ep) {i j f : Nat}
    (hjf : j ≤ f) (hfi : f < i) (hi : i < S.length) (hf : FenceAt S f)
    (hj : ∃ x ∈ ep.workQueue, x.id = j) :
    ∃ x ∈ ep.workQueue, x.id = i ∧ x.state = .waiting := by
  obtain ⟨G, L, p, h⟩ := shape_of_run hrun
  have hpi : p ≤ i := by
    obtain ⟨x, hx, rfl⟩ := hj
    rw [h.queue] at hx
    rcases List.mem_append.mp hx with hx | hx
    · by_contra hlt
      exact h.layout.noFence x hx f hjf (by omega) hf
    · obtain ⟨k, hk, rfl⟩ := List.mem_iff_getElem.mp hx
      simp only [List.getElem_drop, queueOf, List.getElem_mapIdx] at hjf
      omega
  refine ⟨⟨i, S[i].1, .waiting, S[i].2⟩, ?_, rfl, rfl⟩
  rw [h.queue]
  refine List.mem_append_right _ (List.mem_iff_getElem.mpr ⟨i - p, ?_, ?_⟩)
  · rw [List.length_drop, length_queueOf]
    omega
  · simp [queueOf, show p + (i - p) = i by omega]

/-- A message to member 1 and the completion. -/
def oneSend : List (CollWork Unit × Bool) :=
  [(.send 1 5 ⟨(), 0⟩ 1, true), (.comp, true)]

theorem fence_orders_items_oneSend : ∃ ep : CollEp Unit Nat,
    run (CollEp.step fun _ => none) (CollEp.entered oneSend fun _ _ => 0) [.progress .success] = .ok ep ∧
      ∃ x ∈ ep.workQueue, x.id = 1 ∧ x.state = .waiting := by
  obtain ⟨ep, hrun, hj⟩ : ∃ ep : CollEp Unit Nat, run (CollEp.step fun _ => none)
      (CollEp.entered oneSend fun _ _ => 0) [.progress .success] = .ok ep ∧
        ∃ x ∈ ep.workQueue, x.id = 0 := ⟨_, rfl, _, List.mem_cons_self, rfl⟩
  exact ⟨ep, hrun, fence_orders_items hrun (Nat.le_refl 0) (by decide) (by decide) ⟨_, rfl⟩ hj⟩

/-- A schedule that ends in its only completion item, with a fence before it. -/
structure Closed (S : List (CollWork β × Bool)) : Prop where
  nonempty : S ≠ []
  comp : ∀ i w, S[i]? = some w → (w.1 = .comp ↔ i + 1 = S.length)
  fenced : ∀ i, i + 2 = S.length → FenceAt S i

omit [DecidableEq β] in
/-- When the completion item has been started nothing else is in the queue. -/
theorem Shape.comp_alone (hS : Closed S) (h : Shape S ep G L p)
    (hc : ∃ x ∈ L, x.work = .comp) : ∀ y ∈ ep.workQueue, ¬ y.id + 1 < S.length := by
  obtain ⟨x, hx, hxc⟩ := hc
  obtain ⟨hlt, hxS, _⟩ := h.layout.item x hx
  have hlast : x.id + 1 = S.length := (hS.comp x.id _ hxS).mp hxc
  have hp := h.layout.bound
  intro y hy hylt
  rw [h.queue, List.drop_eq_nil_of_le (by rw [length_queueOf]; omega), List.append_nil] at hy
  exact h.layout.noFence y hy (S.length - 2) (by omega) (by omega) (hS.fenced _ (by omega))

/-- As long as an item of the schedule is in the queue the completion function is not called. -/
theorem comps_of_run (hS : Closed S) {mem : Mem β V} {es : List (CollEp.Event V)}
    (hrun : run (CollEp.step handlers) (CollEp.entered S mem) es = .ok ep)
    (hx : ∃ x ∈ ep.workQueue, x.id + 1 < S.length) : ep.comps = 0 := by
  suffices h : (∃ G L p, Shape S ep G L p) ∧
      ((∃ x ∈ ep.workQueue, x.id + 1 < S.length) → ep.comps = 0) from h.2 hx
  refine run_induction (P := fun _ ep => (∃ G L p, Shape S ep G L p) ∧
      ((∃ x ∈ ep.workQueue, x.id + 1 < S.length) → ep.comps = 0)) ?_ ?_ hrun
  · obtain ⟨L, p, h⟩ := Shape.entered S mem
    exact ⟨⟨[], L, p, h⟩, fun _ => rfl⟩
  · rintro as s a s' _ ⟨⟨G, L, p, h⟩, ih⟩ hstep
    obtain ⟨G', L', p', h', _, hids, hcomps⟩ := h.step hstep
    refine ⟨⟨G', L', p', h'⟩, ?_⟩
    rintro ⟨y, hy, hylt⟩
    obtain ⟨x, hxq, hxy⟩ := hids y hy
    rcases hcomps with hcomps | hcomp
    · rw [hcomps]
      exact ih ⟨x, hxq, by omega⟩
    · exact absurd (by omega) (h.comp_alone hS hcomp x hxq)

/-- An item that nothing asks for any more keeps the completion item from being started. -/
theorem Shape.lost_step (hS : Closed S) (h : Shape S ep G L p) (hG : i ∈ G) (hi : i + 1 < S.length)
    (hc : ep.comps = 0) {e : CollEp.Event V} (hstep : CollEp.step handlers ep e = .ok ep') :
    ∃ G' L' p', Shape S ep' G' L' p' ∧ i ∈ G' ∧ ep'.comps = 0 := by
  obtain ⟨G', L', p', h', hsub, _, hcomps⟩ := h.step hstep
  refine ⟨G', L', p', h', hsub hG, ?_⟩
  rcases hcomps with hcomps | hcomp
  · rw [hcomps, hc]
  · exfalso
    obtain ⟨y, hy, hid, _⟩ := h.held i (by simp [hG])
    exact h.comp_alone hS hcomp y (by rw [h.queue]; exact List.mem_append_left _ hy) (by omega)

/-- The step in which the provider refuses. -/
theorem Shape.refused (h : Shape S ep G L p) {ret : XferRet} {rest : List Nat}
    {w : CollWork β} {f : Bool} (hr : ep.readyQueue = i :: rest) (hi : S[i]? = some (w, f))
    (hw : Refused w ret) (hc : ep.comps = 0)
    (hstep : CollEp.step handlers ep (.progress ret) = .ok ep') :
    ∃ G' L' p', Shape S ep' G' L' p' ∧ i ∈ G' ∧ ep'.comps = 0 := by
  obtain ⟨x, hx, hfind, rfl, hxS, _⟩ := h.find (k := i) (by simp [hr])
  rw [hi] at hxS
  cases hxS
  simp only [CollEp.step] at hstep
  split at hstep
  · rename_i ep₃ m hprog
    cases hstep
    obtain ⟨i, rest', x', hr', hfind', hpass⟩ := pass_of_progress hprog
    rw [hr] at hr'
    cases hr'
    rw [hfind] at hfind'
    cases hfind'
    obtain ⟨G', L', p', h', ⟨_, hG⟩, _⟩ := h.pass hr hpass
    refine ⟨G', L', p', h', hG hw, ?_⟩
    cases hpass with
    | handed hx => exact hc
    | again hx => exact hc
    | failed hx => exact hc
    | left ret hx => exact hc
    | done ret mem hx =>
        cases hxw : x.work <;> simp [hxw, Refused, CollWork.isRecv, CollWork.isSend,
          CollWork.effect] at hw hx
  · cases hstep

/-- **A refused transfer is never made up for.**  If the provider refuses a receive, or fails a send
with anything but `-FI_EAGAIN`, the item is in the queue for ever and the operation's completion
function is never called, whatever happens later. -/
theorem refused_transfer_never_completes (hS : Closed S) {mem : Mem β V}
    {es es' : List (CollEp.Event V)} {ret : XferRet} {i : Nat} {rest : List Nat} {w : CollWork β}
    {f : Bool} {ep₀ : CollEp β V}
    (hrun₀ : run (CollEp.step handlers) (CollEp.entered S mem) es = .ok ep₀)
    (hr : ep₀.readyQueue = i :: rest) (hi : S[i]? = some (w, f))
    (hw : Refused w ret)
    (hrun : run (CollEp.step handlers) (CollEp.entered S mem) (es ++ .progress ret :: es') = .ok ep) :
    ep.comps = 0 ∧ ∃ x ∈ ep.workQueue, x.id = i ∧ x.state = .processing := by
  obtain ⟨ep₁, h₁, h₂⟩ := run_append_ok.mp hrun
  rw [hrun₀] at h₁
  cases h₁
  obtain ⟨ep₂, h₂, h₃⟩ := run_cons_ok.mp h₂
  obtain ⟨G, L, p, h⟩ := shape_of_run hrun₀
  have hlt : i + 1 < S.length := by
    have hlen := (List.getElem?_eq_some_iff.mp hi).1
    have hnc : ¬ i + 1 = S.length := by
      rw [← hS.comp i _ hi]
      rintro rfl
      simp [Refused, CollWork.isRecv, CollWork.isSend] at hw
    omega
  have hzero : ep₀.comps = 0 := by
    obtain ⟨x, hx, _, hid, _⟩ := h.find (k := i) (by simp [hr])
    exact comps_of_run hS hrun₀ ⟨x, by rw [h.queue]; exact List.mem_append_left _ hx, by omega⟩
  obtain ⟨G', L', p', h', hG, hcomps⟩ :=
    run_induction (P := fun _ ep => ∃ G L p, Shape S ep G L p ∧ i ∈ G ∧ ep.comps = 0)
      (h.refused hr hi hw hzero h₂)
      (fun _ _ _ _ _ ⟨_, _, _, h, hG, hc⟩ hstep => h.lost_step hS hG hlt hc hstep) h₃
  obtain ⟨y, hy, hid, hst⟩ := h'.held i (by simp [hG])
  exact ⟨hcomps, y, by rw [h'.queue]; exact List.mem_append_left _ hy, hid, hst⟩

theorem closed_oneSend : Closed oneSend where
  nonempty := by decide
  comp := by
    intro i w hw
    rcases i with _ | _ | i
    · cases hw
      decide
    · cases hw
      decide
    · simp [oneSend] at hw
  fenced := by
    intro i hi
    obtain rfl : i = 0 := by simpa [oneSend] using hi
    exact ⟨_, rfl⟩

theorem refused_transfer_never_completes_oneSend : ∃ ep : CollEp Unit Nat,
    run (CollEp.step fun _ => none) (CollEp.entered oneSend fun _ _ => 0) [.progress .error] = .ok ep ∧
      ep.comps = 0 ∧ ∃ x ∈ ep.workQueue, x.id = 0 ∧ x.state = .processing := by
  obtain ⟨ep, hrun⟩ : ∃ ep : CollEp Unit Nat, run (CollEp.step fun _ => none)
      (CollEp.entered oneSend fun _ _ => 0) ([] ++ [.progress .error]) = .ok ep := ⟨_, rfl⟩
  refine ⟨ep, hrun, refused_transfer_never_completes closed_oneSend rfl rfl rfl ?_ hrun⟩
  simp [Refused, CollWork.isSend, CollWork.isRecv]

end Step

end SstTransports.Util
