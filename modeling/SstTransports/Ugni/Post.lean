/-
# SstTransports.Ugni.Post — posted descriptors and the events they cause.

`post_rdma_op` turns a descriptor into one request to sumi, which names a completion queue for each
side of the transfer or passes `sumi::Message::no_ack` for it.  The descriptor's `cq_mode` is to
decide this.  The library tests the mode bits with `|` in place of `&`, so both sides always get an
event: `cq_mode_honoured_iff` says which descriptors are served right all the same.

Of sumi it is assumed that a request causes one event at each side whose queue is not `no_ack`.
-/
import SstTransports.Ugni.Message
import SstTransports.Lib.Run

namespace SstTransports.Ugni

open SstTransports.Lib
open SstTransports.Fabric (Ptr)

/-! ## §1 — posting -/

-- `gni_pub.h`: the bits of `cq_mode`.
def gniCqmodeLocalEvent : BitVec 16 := 0x0001
def gniCqmodeGlobalEvent : BitVec 16 := 0x0002
def gniCqmodeRemoteEvent : BitVec 16 := 0x0004

inductive RdmaOp
  | rdmaGet
  | rdmaPut
  deriving DecidableEq, Repr

/-- A call of `rdmaGet<GNIRdmaMessage>` or `rdmaPut<GNIRdmaMessage>`; the message class is always
`pt2pt`.  `instId` and `descr` are handed on to the message's constructor, with `pd` for the
descriptor's address. -/
structure RdmaRequest where
  op : RdmaOp
  rank : BitVec 32
  byteLength : BitVec 64
  localBuffer : Ptr
  remoteBuffer : Ptr
  localCq : BitVec 32
  remoteCq : BitVec 32
  qos : BitVec 32
  instId : BitVec 32
  pd : Ptr
  descr : PostDescriptor
  deriving DecidableEq, Repr

/-- A call: the rank of the process, the endpoint, and the descriptor with its address. -/
structure Post where
  rank : BitVec 32
  ep : Ep
  pd : Ptr
  descr : PostDescriptor
  deriving DecidableEq, Repr

/-- `src_cq` of `post_rdma_op`. -/
def Post.srcCq (p : Post) : BitVec 32 :=
  if p.descr.srcCqHndl ≠ 0 then p.descr.srcCqHndl else p.ep.cqId

-- `sumi::Message::no_ack`
variable (noAck : BitVec 32)

/-- `post_rdma_op`: the code, and the request it makes. -/
def postRdmaOp (p : Post) : GniReturn × Option RdmaRequest :=
  let descr := p.descr
  let srcCq := p.srcCq
  match descr.type with
  | .fmaGet | .rdmaGet =>
    let recvAck := descr.cqMode ||| gniCqmodeGlobalEvent != 0 ||
      descr.cqMode ||| gniCqmodeLocalEvent != 0
    let sendAck := descr.cqMode ||| gniCqmodeRemoteEvent != 0
    (.success, some
      { op := .rdmaGet, rank := p.ep.epId, byteLength := descr.length
        localBuffer := descr.localAddr, remoteBuffer := descr.remoteAddr
        localCq := if recvAck then srcCq else noAck
        remoteCq := if sendAck then descr.remoteMemHndl else noAck
        qos := 0, instId := p.rank, pd := p.pd, descr := descr })
  | .fmaPutWSyncflag | .rdmaPut | .fmaPut =>
    let sendAck := descr.cqMode ||| gniCqmodeGlobalEvent != 0 ||
      descr.cqMode ||| gniCqmodeLocalEvent != 0
    let recvAck := descr.cqMode ||| gniCqmodeRemoteEvent != 0
    (.success, some
      { op := .rdmaPut, rank := p.ep.epId, byteLength := descr.length
        localBuffer := descr.localAddr, remoteBuffer := descr.remoteAddr
        localCq := if sendAck then srcCq else noAck
        remoteCq := if recvAck then descr.remoteMemHndl else noAck
        qos := 0, instId := p.rank, pd := p.pd, descr := descr })
  | .amo | .cqwrite | .ce | .fmaGetWFlag | .amoWFlag => (.invalidParam, none)

/-- `GNI_PostRdma` -/
def gniPostRdma (p : Post) : GniReturn × Option RdmaRequest := postRdmaOp noAck p

/-- `GNI_PostFma` -/
def gniPostFma (p : Post) : GniReturn × Option RdmaRequest := postRdmaOp noAck p

/-- The PUT and GET types. -/
def PostType.isPutOrGet : PostType → Bool
  | .rdmaPut | .rdmaGet | .fmaPut | .fmaPutWSyncflag | .fmaGet => true
  | .amo | .cqwrite | .ce | .fmaGetWFlag | .amoWFlag => false

/-- The operation of a PUT or GET type. -/
def PostType.op : PostType → RdmaOp
  | .rdmaGet | .fmaGet | .fmaGetWFlag => .rdmaGet
  | _ => .rdmaPut

theorem or_ne_zero (mode : BitVec 16) {bit : BitVec 16} (h : bit ≠ 0) : mode ||| bit ≠ 0 := by
  intro hzero
  exact h (BitVec.or_eq_zero_iff.mp hzero).2

/-- **What a post asks of sumi.** The mode is without influence: both sides get an event. -/
theorem postRdmaOp_eq (p : Post) (h : p.descr.type.isPutOrGet = true) :
    postRdmaOp noAck p = (.success, some
      { op := p.descr.type.op, rank := p.ep.epId, byteLength := p.descr.length
        localBuffer := p.descr.localAddr, remoteBuffer := p.descr.remoteAddr
        localCq := p.srcCq, remoteCq := p.descr.remoteMemHndl
        qos := 0, instId := p.rank, pd := p.pd, descr := p.descr }) := by
  have hglobal : (p.descr.cqMode ||| gniCqmodeGlobalEvent != 0) = true :=
    bne_iff_ne.mpr (or_ne_zero _ (by decide))
  have hremote : (p.descr.cqMode ||| gniCqmodeRemoteEvent != 0) = true :=
    bne_iff_ne.mpr (or_ne_zero _ (by decide))
  cases htype : p.descr.type with
  | rdmaPut => simp only [postRdmaOp, htype, hglobal, hremote, Bool.true_or, if_true, PostType.op]
  | rdmaGet => simp only [postRdmaOp, htype, hglobal, hremote, Bool.true_or, if_true, PostType.op]
  | fmaPut => simp only [postRdmaOp, htype, hglobal, hremote, Bool.true_or, if_true, PostType.op]
  | fmaPutWSyncflag =>
      simp only [postRdmaOp, htype, hglobal, hremote, Bool.true_or, if_true, PostType.op]
  | fmaGet => simp only [postRdmaOp, htype, hglobal, hremote, Bool.true_or, if_true, PostType.op]
  | amo => simp [htype, PostType.isPutOrGet] at h
  | cqwrite => simp [htype, PostType.isPutOrGet] at h
  | ce => simp [htype, PostType.isPutOrGet] at h
  | fmaGetWFlag => simp [htype, PostType.isPutOrGet] at h
  | amoWFlag => simp [htype, PostType.isPutOrGet] at h

theorem postRdmaOp_invalid (p : Post) (h : p.descr.type.isPutOrGet = false) :
    postRdmaOp noAck p = (.invalidParam, none) := by
  cases htype : p.descr.type with
  | rdmaPut => simp [htype, PostType.isPutOrGet] at h
  | rdmaGet => simp [htype, PostType.isPutOrGet] at h
  | fmaPut => simp [htype, PostType.isPutOrGet] at h
  | fmaPutWSyncflag => simp [htype, PostType.isPutOrGet] at h
  | fmaGet => simp [htype, PostType.isPutOrGet] at h
  | amo => simp only [postRdmaOp, htype]
  | cqwrite => simp only [postRdmaOp, htype]
  | ce => simp only [postRdmaOp, htype]
  | fmaGetWFlag => simp only [postRdmaOp, htype]
  | amoWFlag => simp only [postRdmaOp, htype]

/-! ## §2 — what the mode asks for -/

/-- `cq_mode & (GNI_CQMODE_LOCAL_EVENT | GNI_CQMODE_GLOBAL_EVENT)` -/
def PostDescriptor.asksInitiator (d : PostDescriptor) : Bool :=
  d.cqMode &&& gniCqmodeLocalEvent != 0 || d.cqMode &&& gniCqmodeGlobalEvent != 0

/-- `cq_mode & GNI_CQMODE_REMOTE_EVENT` -/
def PostDescriptor.asksTarget (d : PostDescriptor) : Bool :=
  d.cqMode &&& gniCqmodeRemoteEvent != 0

/-- The request names a queue exactly on the sides for which the mode asks for an event. -/
def Honoured (p : Post) (r : RdmaRequest) : Prop :=
  r.localCq = (if p.descr.asksInitiator then p.srcCq else noAck) ∧
    r.remoteCq = if p.descr.asksTarget then p.descr.remoteMemHndl else noAck

/-- A queue of one process: its rank and the queue's id. -/
abbrev CqAt := BitVec 32 × BitVec 32

/-- The queues at which a request causes an event. -/
def RdmaRequest.events (r : RdmaRequest) (initiator : BitVec 32) : List CqAt :=
  [(initiator, r.localCq), (r.rank, r.remoteCq)].filter (·.2 ≠ noAck)

/-- The queues at which a descriptor asks for an event. -/
def Post.asks (p : Post) : List CqAt :=
  if p.descr.type.isPutOrGet then
    (if p.descr.asksInitiator then [(p.rank, p.srcCq)] else []) ++
      if p.descr.asksTarget then [(p.ep.epId, p.descr.remoteMemHndl)] else []
  else []

/-- The descriptor asks for every event that it could get: a side it does not ask for has no
queue. -/
def AsksAll (p : Post) : Prop :=
  p.descr.type.isPutOrGet = true →
    (p.descr.asksInitiator = true ∨ p.srcCq = noAck) ∧
      (p.descr.asksTarget = true ∨ p.descr.remoteMemHndl = noAck)

/-! ## §3 — posts and arrivals -/

/-- The requests made so far, and their events: on the way and arrived. -/
structure Posted where
  requests : List (Post × RdmaRequest) := []
  inFlight : List CqAt := []
  arrived : List CqAt := []
  deriving DecidableEq, Repr

inductive PostAction
  | postRdma (p : Post)
  | postFma (p : Post)
  /-- The `i`-th event on the way arrives. -/
  | deliver (i : Nat)
  deriving DecidableEq, Repr

def Posted.issue (s : Posted) (p : Post) : GniReturn × Option RdmaRequest → Posted
  | (_, some r) =>
    { s with
      requests := s.requests ++ [(p, r)]
      inFlight := s.inFlight ++ r.events noAck p.rank }
  | (_, none) => s

def postStep (s : Posted) : PostAction → Except Fault Posted
  | .postRdma p => .ok (s.issue noAck p (gniPostRdma noAck p))
  | .postFma p => .ok (s.issue noAck p (gniPostFma noAck p))
  | .deliver i =>
    match s.inFlight[i]? with
    | some cq => .ok { s with inFlight := s.inFlight.eraseIdx i, arrived := s.arrived ++ [cq] }
    | none => .ok s

/-- The queues at which the posts of a run ask for an event. -/
def askedBy (as : List PostAction) : List CqAt :=
  as.flatMap fun
    | .postRdma p => p.asks
    | .postFma p => p.asks
    | .deliver _ => []

/-- Every request honours its descriptor's mode, and at every queue there are as many events, arrived
and on the way, as descriptors that ask for one there. -/
structure ModeHonoured (as : List PostAction) (s : Posted) : Prop where
  requests : ∀ x ∈ s.requests, Honoured noAck x.1 x.2
  events : ∀ cq : CqAt, cq.2 ≠ noAck →
    s.arrived.count cq + s.inFlight.count cq = (askedBy as).count cq

def PostAsksAll (_ : Posted) : PostAction → Prop
  | .postRdma p => AsksAll noAck p
  | .postFma p => AsksAll noAck p
  | .deliver _ => True

/-! ## §4 — one step -/

variable {noAck} {s s' : Posted} {as : List PostAction}

theorem isPutOrGet_of_request {p : Post} {r : RdmaRequest} (hr : (postRdmaOp noAck p).2 = some r) :
    p.descr.type.isPutOrGet = true := by
  cases h : p.descr.type.isPutOrGet with
  | true => rfl
  | false =>
      rw [postRdmaOp_invalid noAck p h] at hr
      cases hr

theorem isPutOrGet_of_no_request {p : Post} (hr : (postRdmaOp noAck p).2 = none) :
    p.descr.type.isPutOrGet = false := by
  cases h : p.descr.type.isPutOrGet with
  | false => rfl
  | true =>
      rw [postRdmaOp_eq noAck p h] at hr
      cases hr

/-- A post is served right exactly if it asks for all it could get. -/
theorem honoured_iff {p : Post} {r : RdmaRequest} (hr : (postRdmaOp noAck p).2 = some r) :
    Honoured noAck p r ↔ AsksAll noAck p := by
  have htype := isPutOrGet_of_request hr
  rw [postRdmaOp_eq noAck p htype] at hr
  cases hr
  unfold Honoured AsksAll
  cases p.descr.asksInitiator <;> cases p.descr.asksTarget <;> simp [htype]

/-- The events of a post that asks for all of them. -/
theorem count_events {p : Post} {r : RdmaRequest} (hr : (postRdmaOp noAck p).2 = some r)
    (hall : AsksAll noAck p) {cq : CqAt} (hcq : cq.2 ≠ noAck) :
    (r.events noAck p.rank).count cq = p.asks.count cq := by
  have hhonoured := (honoured_iff hr).mpr hall
  have htype := isPutOrGet_of_request hr
  have hrank : r.rank = p.ep.epId := by
    rw [postRdmaOp_eq noAck p htype] at hr
    cases hr
    rfl
  rw [RdmaRequest.events, Post.asks, if_pos htype, hhonoured.1, hhonoured.2, hrank,
    List.count_filter (by simpa using hcq)]
  have hnot : ∀ rank : BitVec 32, cq ≠ (rank, noAck) := by
    rintro rank rfl
    exact hcq rfl
  cases p.descr.asksInitiator <;> cases p.descr.asksTarget <;>
    simp [List.count_cons, Ne.symm (hnot _)]

/-- A post keeps the promise exactly if it asks for all it could get.  `a` is the call that makes
it. -/
theorem modeHonoured_issue {a : PostAction} {p : Post} (h : ModeHonoured noAck as s)
    (ha : askedBy [a] = p.asks) :
    ModeHonoured noAck (as ++ [a]) (s.issue noAck p (postRdmaOp noAck p)) ↔ AsksAll noAck p := by
  have hasked : askedBy (as ++ [a]) = askedBy as ++ p.asks := by
    rw [← ha]
    exact List.flatMap_append
  rcases hpost : postRdmaOp noAck p with ⟨ret, request⟩
  have hr : (postRdmaOp noAck p).2 = request := by rw [hpost]
  cases request with
  | none =>
      have htype := isPutOrGet_of_no_request hr
      refine iff_of_true ⟨h.requests, ?_⟩ ?_
      · intro cq hcq
        have hnone : p.asks = [] := by simp [Post.asks, htype]
        rw [hasked, hnone, List.append_nil]
        exact h.events cq hcq
      · intro hput
        rw [htype] at hput
        cases hput
  | some r =>
      constructor
      · intro h'
        exact (honoured_iff hr).mp
          (h'.requests (p, r) (List.mem_append_right _ (List.mem_singleton_self _)))
      · intro hall
        refine ⟨?_, ?_⟩
        · intro x hx
          rcases List.mem_append.mp hx with hx | hx
          · exact h.requests x hx
          · rw [List.mem_singleton.mp hx]
            exact (honoured_iff hr).mpr hall
        · intro cq hcq
          show s.arrived.count cq + (s.inFlight ++ r.events noAck p.rank).count cq = _
          rw [hasked, List.count_append, List.count_append, count_events hr hall hcq,
            ← h.events cq hcq, Nat.add_assoc]

/-- An arrival moves one event and changes no count. -/
theorem modeHonoured_deliver {i : Nat} (h : ModeHonoured noAck as s)
    (hstep : postStep noAck s (.deliver i) = .ok s') :
    ModeHonoured noAck (as ++ [.deliver i]) s' := by
  have hasked : askedBy (as ++ [.deliver i]) = askedBy as := by
    simp [askedBy]
  simp only [postStep] at hstep
  cases hget : s.inFlight[i]? with
  | none =>
      rw [hget] at hstep
      cases hstep
      exact ⟨h.requests, fun cq hcq => by rw [hasked]; exact h.events cq hcq⟩
  | some cq =>
      rw [hget] at hstep
      cases hstep
      refine ⟨h.requests, ?_⟩
      intro cq' hcq'
      obtain ⟨hi, hcq⟩ := List.getElem?_eq_some_iff.mp hget
      have hperm : s.inFlight.Perm (cq :: s.inFlight.eraseIdx i) := by
        rw [← hcq]
        exact (List.getElem_cons_eraseIdx_perm hi).symm
      have hbefore := h.events cq' hcq'
      rw [hperm.count_eq, List.count_cons] at hbefore
      show (s.arrived ++ [cq]).count cq' + (s.inFlight.eraseIdx i).count cq' = _
      rw [hasked, List.count_append, List.count_singleton]
      omega

/-! ## §5 — whole runs -/

variable (noAck)

theorem postRun_returns (s : Posted) (as : List PostAction) :
    ∃ t, run (postStep noAck) s as = .ok t := by
  induction as generalizing s with
  | nil => exact ⟨s, rfl⟩
  | cons a as ih =>
      obtain ⟨s', hs'⟩ : ∃ s', postStep noAck s a = .ok s' := by
        cases a with
        | postRdma p => exact ⟨_, rfl⟩
        | postFma p => exact ⟨_, rfl⟩
        | deliver i =>
            simp only [postStep]
            split
            · exact ⟨_, rfl⟩
            · exact ⟨_, rfl⟩
      obtain ⟨t, ht⟩ := ih s'
      exact ⟨t, run_cons_ok.mpr ⟨s', hs', ht⟩⟩

/-- **When the events follow the mode.** For any run of posts, by any processes, with any modes and
queue handles, and any order of arrivals: every request names the queues its descriptor's mode asks
for and `no_ack` otherwise, and every queue gets as many events as there are descriptors asking for
one there, if and only if each PUT or GET posted asks for an event on each side that has a queue. -/
theorem cq_mode_honoured_iff (as : List PostAction) :
    EveryState (postStep noAck) (ModeHonoured noAck) {} as ↔
      StepsMeet (postStep noAck) (PostAsksAll noAck) {} as := by
  obtain ⟨s, hrun⟩ := postRun_returns noAck {} as
  refine everyState_iff_stepsMeet ?_ ?_ hrun
  · exact ⟨fun _ hx => (List.not_mem_nil hx).elim, fun _ _ => rfl⟩
  · intro as s a s' hs hall hstep
    have h : ModeHonoured noAck as s := hall as (List.prefix_refl as) s hs
    cases a with
    | postRdma p =>
        cases hstep
        exact modeHonoured_issue h (by simp [askedBy])
    | postFma p =>
        cases hstep
        exact modeHonoured_issue h (by simp [askedBy])
    | deliver i => exact iff_of_true (modeHonoured_deliver h hstep) trivial

/-- A PUT to rank 1 of memory registered with queue 3, from queue 2. -/
def samplePost (cqMode : BitVec 16) : Post where
  rank := 0
  ep := ⟨0, 1, 2⟩
  pd := 4096
  descr :=
    { type := .rdmaPut, cqMode := cqMode, localAddr := 8192, remoteAddr := 12288, remoteMemHndl := 3
      length := 64, srcCqHndl := 0, syncFlagValue := 0, syncFlagAddr := 0, firstOperand := 0
      secondOperand := 0, cqwriteValue := 0 }

/-- A descriptor that asks for a local event only: the target gets an event nobody asked for. -/
theorem cq_mode_not_honoured :
    ¬ EveryState (postStep (BitVec.allOnes 32)) (ModeHonoured (BitVec.allOnes 32)) {}
      [.postRdma (samplePost gniCqmodeLocalEvent), .deliver 0, .deliver 0] := by
  intro h
  have hlast := (h _ (List.prefix_refl _) _ rfl).events (1, 3) (by decide)
  revert hlast
  decide

end SstTransports.Ugni
