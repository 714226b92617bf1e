/-
# SstTransports.Ugni.Completed — from a completion event back to the descriptor.

The message of a posted descriptor remembers the descriptor's address, and `GNI_GetCompleted` is to
give it back.  `getCompleted` does so for messages with an acknowledgement's type and makes a new
descriptor for all others.  A PUT is completed at the initiator by an acknowledgement, a GET by the
payload, so `completed_posted_iff` holds for the former only.

Of sumi it is assumed that the initiator's event of a PUT is the clone that `cloneInjectionAck`
makes, with a type of acknowledgement, and that the initiator's event of a GET is the arriving
message, of type `rdma_get_payload`.
-/
import SstTransports.Ugni.Transport
import SstTransports.Ugni.Post

namespace SstTransports.Ugni

open SstTransports.Lib
open SstTransports.Fabric (Ptr)

/-! ## §1 — messages of posted descriptors -/

/-- The constructor of `GNIRdmaMessage`, with `base` for what sumi makes of the other arguments. -/
def GniRdmaMessage.construct (instId : BitVec 64) (pd : Ptr) (descr : PostDescriptor)
    (base : SumiMessage) : GniRdmaMessage :=
  { base with
    instId := instId
    msgId := BitVec.allOnes 64
    type := descr.type
    firstOp := descr.firstOperand
    secondOp := descr.secondOperand
    cqwriteVal := descr.cqwriteValue
    syncFlagAddr := descr.syncFlagAddr
    syncFlagValue := descr.syncFlagValue
    pd := pd }

/-- `GNIRdmaMessage::cloneInjectionAck`: a copy, at an address of its own, that sstmac's
`convertToAck` is applied to. -/
def GniRdmaMessage.cloneInjectionAck (convertToAck : NetworkMessageType → NetworkMessageType)
    (addr : Nat) (msg : GniRdmaMessage) : GniRdmaMessage :=
  { msg with addr := addr, networkType := convertToAck msg.networkType }

/-- The types `getCompleted` takes for an acknowledgement. -/
def NetworkMessageType.isAck : NetworkMessageType → Bool
  | .payloadSentAck | .rdmaPutSentAck | .rdmaGetSentAck => true
  | _ => false

/-- The fields `getCompleted` sets in a descriptor it makes. -/
structure NewDescriptor where
  firstOperand : BitVec 64
  secondOperand : BitVec 64
  cqwriteValue : BitVec 64
  localAddr : Ptr
  remoteAddr : Ptr
  length : BitVec 64
  syncFlagValue : BitVec 64
  syncFlagAddr : BitVec 64
  deriving DecidableEq, Repr

/-- Where `*descr` points afterwards: to the descriptor at a given address, or to one just
allocated. -/
inductive Completed
  | posted (pd : Ptr)
  | new (descr : NewDescriptor)
  deriving DecidableEq, Repr

/-- `GNIRdmaMessage::getCompleted` -/
def GniRdmaMessage.getCompleted (msg : GniRdmaMessage) : Completed :=
  if msg.networkType.isAck then .posted msg.pd
  else .new
    { firstOperand := msg.firstOp
      secondOperand := msg.secondOp
      cqwriteValue := msg.cqwriteVal
      localAddr := msg.localBuffer
      remoteAddr := msg.remoteBuffer
      length := msg.byteLength
      syncFlagValue := msg.syncFlagValue
      syncFlagAddr := msg.syncFlagAddr }

/-- `GNI_GetCompleted`; the event is cast to an RDMA message unchecked. -/
def gniGetCompleted : Event → Except Fault (GniReturn × Completed)
  | .rdma msg => .ok (.success, msg.getCompleted)
  | .smsg _ => .error .badCast

/-! ## §2 — posts, completions and reads at the initiator -/

-- `sumi::Message::no_ack`, and what `convertToAck` makes of a message's type
variable (noAck : BitVec 32) (convertToAck : NetworkMessageType → NetworkMessageType)

/-- The event of a request at the initiator, an object at `addr`. -/
def RdmaRequest.initiatorEvent (r : RdmaRequest) (addr : Nat) : GniRdmaMessage :=
  let message (networkType : NetworkMessageType) : GniRdmaMessage :=
    .construct (r.instId.signExtend 64) r.pd r.descr
      ⟨addr, networkType, r.byteLength, r.localBuffer, r.remoteBuffer⟩
  match r.op with
  | .rdmaPut => (message .rdmaPutPayload).cloneInjectionAck convertToAck addr
  | .rdmaGet => message .rdmaGetPayload

/-- The completion of a posted descriptor: the queue it is for, the message, and the address the
descriptor was posted at. -/
structure Completion where
  cq : BitVec 32
  msg : GniRdmaMessage
  pd : Ptr
  deriving DecidableEq, Repr

/-- A read of a completion: the queue, the event, and what `GNI_GetCompleted` gave for it. -/
structure Yield where
  cq : BitVec 32
  event : Event
  result : Completed
  deriving DecidableEq, Repr

structure Initiator where
  transport : Transport := {}
  posted : List Completion := []
  inFlight : List Completion := []
  yielded : List Yield := []

inductive InitiatorAction
  /-- A post; `addr` is where the event object will be. -/
  | post (p : Post) (addr : Nat)
  /-- The `i`-th completion on the way arrives. -/
  | complete (i : Nat)
  /-- `GNI_CqGetEvent`, and `GNI_GetCompleted` for the event if there is one. -/
  | getCompleted (cqHndl : BitVec 32)
  deriving DecidableEq, Repr

/-- The completion a post causes at the initiator, if it causes one. -/
def completionOf (p : Post) (addr : Nat) : Option Completion :=
  match (postRdmaOp noAck p).2 with
  | some r =>
    if r.localCq ≠ noAck then some ⟨r.localCq, r.initiatorEvent convertToAck addr, p.pd⟩ else none
  | none => none

def initiatorStep (s : Initiator) : InitiatorAction → Except Fault Initiator
  | .post p addr =>
    match completionOf noAck convertToAck p addr with
    | some c => .ok { s with posted := s.posted ++ [c], inFlight := s.inFlight ++ [c] }
    | none => .ok s
  | .complete i =>
    match s.inFlight[i]? with
    | some c =>
      .ok { s with
        transport := arrive s.transport c.cq (.rdma c.msg)
        inFlight := s.inFlight.eraseIdx i }
    | none => .ok s
  | .getCompleted cqHndl =>
    match gniCqGetEvent s.transport cqHndl with
    | (_, some e, t) => do
      let (_, result) ← gniGetCompleted e
      return { s with transport := t, yielded := s.yielded ++ [⟨cqHndl, e, result⟩] }
    | (_, none, t) => .ok { s with transport := t }

/-! ## §3 — the promise -/

/-- The descriptor an event is about. -/
def Event.pd? : Event → Option Ptr
  | .rdma msg => some msg.pd
  | .smsg _ => none

def Initiator.posts (s : Initiator) (cq : BitVec 32) (pd : Ptr) : Nat :=
  s.posted.countP fun c => c.cq = cq ∧ c.pd = pd

def Initiator.onTheWay (s : Initiator) (cq : BitVec 32) (pd : Ptr) : Nat :=
  s.inFlight.countP fun c => c.cq = cq ∧ c.pd = pd

def Initiator.queued (s : Initiator) (cq : BitVec 32) (pd : Ptr) : Nat :=
  (s.transport.cqs cq).countP fun e => e.pd? = some pd

def Initiator.yields (s : Initiator) (cq : BitVec 32) (pd : Ptr) : Nat :=
  s.yielded.countP fun y => y.cq = cq ∧ y.result = .posted pd

/-- Every event read gave the address its own descriptor was posted at, and every post of a
descriptor is yielded once: it has been, or its completion is in the queue or on the way. -/
structure PostedYielded (s : Initiator) : Prop where
  own : ∀ y ∈ s.yielded, ∃ c ∈ s.posted, c.cq = y.cq ∧ .rdma c.msg = y.event ∧
    y.result = .posted c.pd
  once : ∀ cq pd, s.yields cq pd + s.queued cq pd + s.onTheWay cq pd = s.posts cq pd

/-- An event of a PUT, as the library itself records the type in the message. -/
def Event.isPut : Event → Bool
  | .rdma msg => msg.type.op = .rdmaPut
  | .smsg _ => false

/-- A read finds the completion of a PUT, or an empty queue. -/
def HeadIsPut (s : Initiator) : InitiatorAction → Prop
  | .getCompleted cqHndl => (s.transport.cqs cqHndl).head?.all Event.isPut = true
  | _ => True

instance (s : Initiator) (a : InitiatorAction) : Decidable (HeadIsPut s a) :=
  match a with
  | .post _ _ => .isTrue trivial
  | .complete _ => .isTrue trivial
  | .getCompleted _ => inferInstanceAs (Decidable (_ = true))

/-! ## §4 — one step -/

variable {noAck convertToAck} {s s' : Initiator}

/-- The message of a completion remembers the descriptor, and gives it back exactly if the
descriptor was a PUT. -/
theorem completionOf_eq_some (hack : (convertToAck .rdmaPutPayload).isAck = true) {p : Post}
    {addr : Nat} {c : Completion} (h : completionOf noAck convertToAck p addr = some c) :
    c.msg.pd = c.pd ∧ (c.msg.getCompleted = .posted c.pd ↔ (Event.rdma c.msg).isPut = true) := by
  unfold completionOf at h
  cases hr : (postRdmaOp noAck p).2 with
  | none =>
      rw [hr] at h
      cases h
  | some r =>
      have htype := isPutOrGet_of_request hr
      rw [hr] at h
      rw [postRdmaOp_eq noAck p htype] at hr
      cases hr
      simp only at h
      split at h
      · cases h
        cases hop : p.descr.type.op with
        | rdmaPut =>
            simp [RdmaRequest.initiatorEvent, hop, GniRdmaMessage.construct,
              GniRdmaMessage.cloneInjectionAck, GniRdmaMessage.getCompleted, hack, Event.isPut]
        | rdmaGet =>
            simp [RdmaRequest.initiatorEvent, hop, GniRdmaMessage.construct,
              GniRdmaMessage.getCompleted, NetworkMessageType.isAck, Event.isPut]
      · cases h

variable (noAck convertToAck) in
/-- What the proof carries: beside the promise, that every event in a queue or on the way is the
completion of a posted descriptor. -/
structure Completing (s : Initiator) : Prop where
  promise : PostedYielded s
  sent : ∀ c ∈ s.posted, ∃ p addr, completionOf noAck convertToAck p addr = some c
  flying : ∀ c ∈ s.inFlight, c ∈ s.posted
  waiting : ∀ cq, ∀ e ∈ s.transport.cqs cq, ∃ c ∈ s.posted, c.cq = cq ∧ e = .rdma c.msg

theorem completing_post (h : Completing noAck convertToAck s) {p : Post} {addr : Nat}
    {c : Completion} (hc : completionOf noAck convertToAck p addr = some c) :
    Completing noAck convertToAck
      { s with posted := s.posted ++ [c], inFlight := s.inFlight ++ [c] } := by
  refine ⟨⟨?_, ?_⟩, ?_, ?_, ?_⟩
  · intro y hy
    obtain ⟨x, hx, hxy⟩ := h.promise.own y hy
    exact ⟨x, List.mem_append_left _ hx, hxy⟩
  · intro cq pd
    have hbefore := h.promise.once cq pd
    simp only [Initiator.yields, Initiator.queued, Initiator.onTheWay, Initiator.posts,
      List.countP_append] at hbefore ⊢
    omega
  · intro x hx
    rcases List.mem_append.mp hx with hx | hx
    · exact h.sent x hx
    · rw [List.mem_singleton.mp hx]
      exact ⟨p, addr, hc⟩
  · intro x hx
    rcases List.mem_append.mp hx with hx | hx
    · exact List.mem_append_left _ (h.flying x hx)
    · exact List.mem_append_right _ hx
  · intro cq e he
    obtain ⟨x, hx, hxe⟩ := h.waiting cq e he
    exact ⟨x, List.mem_append_left _ hx, hxe⟩

/-- An event that arrives counts in its queue, for the descriptor its message remembers. -/
theorem queued_arrive {c : Completion} (hpd : c.msg.pd = c.pd)
    (harrive : s'.transport = arrive s.transport c.cq (.rdma c.msg)) (cq : BitVec 32) (pd : Ptr) :
    s'.queued cq pd = s.queued cq pd + if c.cq = cq ∧ c.pd = pd then 1 else 0 := by
  unfold Initiator.queued
  rw [harrive]
  show (Function.update s.transport.cqs c.cq _ cq).countP _ = _
  by_cases hcq : c.cq = cq
  · subst hcq
    rw [Function.update_self, List.countP_append]
    simp [Event.pd?, hpd]
  · rw [Function.update_of_ne (Ne.symm hcq)]
    simp [hcq]

/-- Of a completion on the way, the event counts for the descriptor it was posted with. -/
theorem completing_complete (hack : (convertToAck .rdmaPutPayload).isAck = true)
    (h : Completing noAck convertToAck s) {i : Nat} {c : Completion}
    (hc : s.inFlight[i]? = some c) :
    Completing noAck convertToAck
      { s with
        transport := arrive s.transport c.cq (.rdma c.msg)
        inFlight := s.inFlight.eraseIdx i } := by
  obtain ⟨hi, hget⟩ := List.getElem?_eq_some_iff.mp hc
  have hmem : c ∈ s.inFlight := hget ▸ List.getElem_mem hi
  have hposted := h.flying c hmem
  obtain ⟨p, addr, hsent⟩ := h.sent c hposted
  have hpd := (completionOf_eq_some hack hsent).1
  have hperm : s.inFlight.Perm (c :: s.inFlight.eraseIdx i) := by
    rw [← hget]
    exact (List.getElem_cons_eraseIdx_perm hi).symm
  refine ⟨⟨h.promise.own, ?_⟩, h.sent, ?_, ?_⟩
  · intro cq pd
    have hbefore := h.promise.once cq pd
    simp only [Initiator.onTheWay, hperm.countP_eq, List.countP_cons] at hbefore
    rw [queued_arrive hpd rfl]
    show s.yields cq pd + _ + (s.inFlight.eraseIdx i).countP _ = s.posts cq pd
    simp only [decide_eq_true_eq] at hbefore
    omega
  · intro x hx
    exact h.flying x (List.mem_of_mem_eraseIdx hx)
  · intro cq e he
    by_cases hcq : c.cq = cq
    · subst hcq
      have he' : e ∈ s.transport.cqs c.cq ++ [.rdma c.msg] := by
        simpa [arrive] using he
      rcases List.mem_append.mp he' with he | he
      · exact h.waiting c.cq e he
      · exact ⟨c, hposted, rfl, List.mem_singleton.mp he⟩
    · apply h.waiting cq e
      simpa [arrive, Function.update_of_ne (Ne.symm hcq)] using he

/-- The state after the completion `c` at the head of its queue has been read. -/
def Initiator.read (s : Initiator) (c : Completion) (rest : List Event) : Initiator :=
  { s with
    transport := s.transport.pop c.cq rest
    yielded := s.yielded ++ [⟨c.cq, .rdma c.msg, c.msg.getCompleted⟩] }

/-- A read of a queue that holds completions only. -/
theorem initiatorStep_getCompleted {c : Completion} {rest : List Event}
    (hq : s.transport.cqs c.cq = .rdma c.msg :: rest) :
    initiatorStep noAck convertToAck s (.getCompleted c.cq) = .ok (s.read c rest) := by
  simp only [initiatorStep, gniCqGetEvent, poll, hq]
  rfl

theorem initiatorStep_empty {cqHndl : BitVec 32} (hq : s.transport.cqs cqHndl = []) :
    initiatorStep noAck convertToAck s (.getCompleted cqHndl) = .ok s := by
  simp only [initiatorStep, gniCqGetEvent, poll, hq]

theorem completing_read {c : Completion} {rest : List Event}
    (h : Completing noAck convertToAck s) (hc : c ∈ s.posted)
    (hq : s.transport.cqs c.cq = .rdma c.msg :: rest) (hpd : c.msg.pd = c.pd)
    (hresult : c.msg.getCompleted = .posted c.pd) :
    Completing noAck convertToAck (s.read c rest) := by
  refine ⟨⟨?_, ?_⟩, h.sent, h.flying, ?_⟩
  · intro y hy
    rcases List.mem_append.mp hy with hy | hy
    · exact h.promise.own y hy
    · rw [List.mem_singleton.mp hy]
      exact ⟨c, hc, rfl, rfl, hresult⟩
  · intro cq pd
    have hbefore := h.promise.once cq pd
    have hyields : (s.read c rest).yields cq pd =
        s.yields cq pd + if c.cq = cq ∧ c.pd = pd then 1 else 0 := by
      simp [Initiator.yields, Initiator.read, List.countP_append, List.countP_cons, hresult]
    have hqueued : s.queued cq pd =
        (s.read c rest).queued cq pd + if c.cq = cq ∧ c.pd = pd then 1 else 0 := by
      unfold Initiator.queued
      show (s.transport.cqs cq).countP _ = ((s.transport.pop c.cq rest).cqs cq).countP _ + _
      by_cases hcq : c.cq = cq
      · subst hcq
        rw [pop_cqs_self, hq, List.countP_cons]
        simp [Event.pd?, hpd]
      · rw [pop_cqs_of_ne (Ne.symm hcq)]
        simp [hcq]
    rw [hyields]
    show _ + _ + s.onTheWay cq pd = s.posts cq pd
    omega
  · intro cq e he
    apply h.waiting cq e
    by_cases hcq : cq = c.cq
    · subst hcq
      have he' : e ∈ rest := by simpa [Initiator.read] using he
      rw [hq]
      exact List.mem_cons_of_mem _ he'
    · have he' : e ∈ (s.transport.pop c.cq rest).cqs cq := he
      rwa [pop_cqs_of_ne hcq] at he'

/-- What a read can find. -/
theorem head_cases (h : Completing noAck convertToAck s) (cqHndl : BitVec 32) :
    s.transport.cqs cqHndl = [] ∨
      ∃ c ∈ s.posted, c.cq = cqHndl ∧ ∃ rest, s.transport.cqs c.cq = .rdma c.msg :: rest := by
  cases hq : s.transport.cqs cqHndl with
  | nil => exact Or.inl rfl
  | cons e rest =>
      obtain ⟨c, hc, rfl, rfl⟩ := h.waiting cqHndl e (hq ▸ List.mem_cons_self)
      exact Or.inr ⟨c, hc, rfl, rest, hq⟩

/-- **One step.** It returns, and it keeps the promise exactly if what it reads is a PUT. -/
theorem completing_step (hack : (convertToAck .rdmaPutPayload).isAck = true)
    (h : Completing noAck convertToAck s) (a : InitiatorAction) :
    ∃ s', initiatorStep noAck convertToAck s a = .ok s' ∧
      (HeadIsPut s a → Completing noAck convertToAck s') ∧ (PostedYielded s' → HeadIsPut s a) := by
  cases a with
  | post p addr =>
      cases hc : completionOf noAck convertToAck p addr with
      | none =>
          refine ⟨s, ?_, fun _ => h, fun _ => trivial⟩
          simp only [initiatorStep, hc]
      | some c =>
          refine ⟨_, ?_, fun _ => completing_post h hc, fun _ => trivial⟩
          simp only [initiatorStep, hc]
  | complete i =>
      cases hc : s.inFlight[i]? with
      | none =>
          refine ⟨s, ?_, fun _ => h, fun _ => trivial⟩
          simp only [initiatorStep, hc]
      | some c =>
          refine ⟨_, ?_, fun _ => completing_complete hack h hc, fun _ => trivial⟩
          simp only [initiatorStep, hc]
  | getCompleted cqHndl =>
      rcases head_cases h cqHndl with hq | ⟨c, hc, rfl, rest, hq⟩
      · refine ⟨s, initiatorStep_empty hq, fun _ => h, fun _ => ?_⟩
        rw [HeadIsPut, hq]
        rfl
      · obtain ⟨p, addr, hsent⟩ := h.sent c hc
        obtain ⟨hpd, hput⟩ := completionOf_eq_some hack hsent
        have hhead : HeadIsPut s (.getCompleted c.cq) ↔ (Event.rdma c.msg).isPut = true := by
          rw [HeadIsPut, hq]
          simp
        refine ⟨_, initiatorStep_getCompleted hq, ?_, ?_⟩
        · intro hC
          exact completing_read h hc hq hpd (hput.mpr (hhead.mp hC))
        · intro hP
          -- the read is the last one recorded, and it gave a descriptor that was posted
          obtain ⟨c', -, -, -, hresult⟩ :=
            hP.own _ (List.mem_append_right _ (List.mem_singleton_self _))
          have hisAck : c.msg.networkType.isAck = true := by
            by_contra hnot
            simp [GniRdmaMessage.getCompleted, hnot] at hresult
          have hown : c.msg.getCompleted = .posted c.pd := by
            rw [GniRdmaMessage.getCompleted, if_pos hisAck, hpd]
          exact hhead.mpr (hput.mp hown)

/-! ## §5 — whole runs -/

variable (noAck convertToAck)

/-- **When descriptors come back.** For any posts, of any type, mode and queue, and completions that
arrive in any order: every read returns, gives the address its own descriptor was posted at, and
yields each post once, if and only if every completion that is read is that of a PUT. -/
theorem completed_posted_iff (hack : (convertToAck .rdmaPutPayload).isAck = true)
    (as : List InitiatorAction) :
    ((∃ s, run (initiatorStep noAck convertToAck) {} as = .ok s) ∧
      EveryState (initiatorStep noAck convertToAck) (fun _ s => PostedYielded s) {} as) ↔
      StepsMeet (initiatorStep noAck convertToAck) HeadIsPut {} as := by
  refine run_ok_and_everyState_iff_stepsMeet
    (J := fun _ s => Completing noAck convertToAck s) (V := fun _ _ => True) ?_ ?_ ?_ ?_ ?_
    (stepsMeet_of_forall (fun _ _ => trivial) _ _)
  · exact ⟨⟨by simp, fun _ _ => rfl⟩, by simp, by simp, by simp⟩
  · exact fun _ s h => h.promise
  · intro _ s a h _ _
    obtain ⟨s', hs', -⟩ := completing_step hack h a
    exact ⟨s', hs'⟩
  · intro _ s a s' h _ hC hstep
    obtain ⟨s'', hs'', hkeep, -⟩ := completing_step hack h a
    rw [hstep] at hs''
    cases hs''
    exact hkeep hC
  · intro _ s a s' h _ hstep hP
    obtain ⟨s'', hs'', -, hneeded⟩ := completing_step hack h a
    rw [hstep] at hs''
    cases hs''
    exact hneeded hP

/-- What sstmac's `convertToAck` makes of the types it is applied to. -/
def sampleConvertToAck : NetworkMessageType → NetworkMessageType
  | .rdmaGetPayload => .rdmaGetSentAck
  | .rdmaPutPayload => .rdmaPutSentAck
  | _ => .payloadSentAck

/-- Two PUTs with descriptors at different addresses.  The completion of the second arrives first. -/
def samplePuts : List InitiatorAction :=
  [.post (samplePost gniCqmodeGlobalEvent) 0, .post { samplePost gniCqmodeGlobalEvent with pd := 8192 } 1,
    .complete 1, .getCompleted 2, .complete 0, .getCompleted 2]

theorem completed_posted_iff_sample :
    (∃ s, run (initiatorStep (BitVec.allOnes 32) sampleConvertToAck) {} samplePuts = .ok s) ∧
      EveryState (initiatorStep (BitVec.allOnes 32) sampleConvertToAck) (fun _ s => PostedYielded s) {}
        samplePuts :=
  (completed_posted_iff (BitVec.allOnes 32) sampleConvertToAck rfl _).mpr (by decide)

/-- The same transfer as a GET. -/
def sampleGet : Post :=
  { samplePost gniCqmodeGlobalEvent with
    descr := { (samplePost gniCqmodeGlobalEvent).descr with type := .rdmaGet } }

/-- The completion of a GET gives a descriptor nobody posted. -/
theorem completed_not_posted :
    ¬ EveryState (initiatorStep (BitVec.allOnes 32) sampleConvertToAck)
      (fun _ s => PostedYielded s) {} [.post sampleGet 0, .complete 0, .getCompleted 2] := by
  intro h
  have hlast := (h _ (List.prefix_refl _) _ rfl).once 2 4096
  revert hlast
  decide

end SstTransports.Ugni
