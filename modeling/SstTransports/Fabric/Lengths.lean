/-
# SstTransports.Fabric.Lengths — the length of a receive.

A receive is posted with a 64-bit length, of at most the `max_msg_size` the provider advertises.
`postRecv` takes 32 bits of it.  A message is delivered if it is no longer than these 32 bits say, so
one that fits the buffer is deleted where the length needs more of them (`lengths_kept_iff`).

The advertised size is `1<<31`, an `int`, which is negative; as a `size_t` it is `0xFFFFFFFF80000000`.
So lengths beyond 32 bits are advertised, and hints that ask for them are accepted.
-/
import SstTransports.Fabric.Completions
import SstTransports.Fabric.Vector
import SstTransports.Fabric.Verdict

namespace SstTransports.Fabric

open SstTransports.Lib

/-! ## §1 — the four calls -/

inductive RecvCall
  | recv (buf : Ptr) (len : BitVec 64) (srcAddr : FiAddr) (context : Ptr)
  | recvv (iov : List Iovec) (srcAddr : FiAddr) (context : Ptr)
  | trecv (buf : Ptr) (len : BitVec 64) (srcAddr : FiAddr) (tag ignore : BitVec 64) (context : Ptr)
  | trecvv (iov : List Iovec) (srcAddr : FiAddr) (tag ignore : BitVec 64) (context : Ptr)
  deriving DecidableEq, Repr

def RecvCall.post (sumi : Sumi) (rq : State) : RecvCall → Except Fault (Int × State)
  | .recv buf len srcAddr context => sstmacEpRecv sumi rq buf len srcAddr context
  | .recvv iov srcAddr context => sstmacEpRecvv sumi rq iov srcAddr context
  | .trecv buf len srcAddr tag ignore context =>
    sstmacEpTrecv sumi rq buf len srcAddr tag ignore context
  | .trecvv iov srcAddr tag ignore context =>
    sstmacEpTrecvv sumi rq iov srcAddr tag ignore context

/-- The length of the one buffer of an array. -/
def iovecLen : List Iovec → BitVec 64
  | [v] => v.len
  | _ => 0

/-- The length a call is made with. -/
def RecvCall.len : RecvCall → BitVec 64
  | .recv _ len _ _ => len
  | .recvv iov _ _ => iovecLen iov
  | .trecv _ len _ _ _ _ => len
  | .trecvv iov _ _ _ _ => iovecLen iov

/-- The queue, and the lengths of the receives posted to it, by call. -/
structure LengthRun where
  queue : State := {}
  lens : List (BitVec 64) := []
  deriving DecidableEq, Repr

inductive LengthAction
  | post (c : RecvCall)
  | incoming (msg : FabricMessage)
  deriving DecidableEq, Repr

def lengthStep (sumi : Sumi) (s : LengthRun) : LengthAction → Except Fault LengthRun
  | .post c => do
    let (ret, queue) ← c.post sumi s.queue
    return ⟨queue, if ret = 0 then s.lens ++ [c.len] else s.lens⟩
  | .incoming msg => do
    let queue ← incoming sumi s.queue msg
    return ⟨queue, s.lens⟩

variable {sumi : Sumi}

theorem oneElement_ok {α : Type} {iov : List Iovec} {unchanged : α}
    {call : Ptr → BitVec 64 → Except Fault (Int × α)} {ret : Int} {a : α}
    (h : oneElement iov unchanged call = .ok (ret, a)) :
    (∃ buf, call buf (iovecLen iov) = .ok (ret, a)) ∨ (ret = -fiEnosys ∧ a = unchanged) := by
  match iov, h with
  | [], h => exact Or.inr (by cases h; exact ⟨rfl, rfl⟩)
  | [v], h => exact Or.inl ⟨v.base, h⟩
  | _ :: _ :: _, h => exact Or.inr (by cases h; exact ⟨rfl, rfl⟩)

theorem epRecv_posts {rq rq' : State} {buf : Ptr} {len : BitVec 64} {srcAddr : FiAddr}
    {context : Ptr} {tag ignore flags : BitVec 64} {ret : Int}
    (h : sstmaciEpRecv sumi rq buf len srcAddr context tag ignore flags = .ok (ret, rq')) :
    (ret = 0 ∧ ∃ p, p.size = len.setWidth 32 ∧ Step sumi rq (.postRecv p) rq') ∨
      (ret ≠ 0 ∧ rq' = rq) := by
  rcases sstmaciEpRecv_ok h with ⟨-, hret, hstep⟩ | ⟨-, hret, hsame⟩
  · exact Or.inl ⟨hret, _, rfl, step_inv hstep⟩
  · exact Or.inr ⟨by simp [hret, fiEinval], hsame⟩

/-- A call posts a receive with 32 bits of its length, or leaves the queue alone. -/
theorem RecvCall.post_ok {c : RecvCall} {rq rq' : State} {ret : Int}
    (h : c.post sumi rq = .ok (ret, rq')) :
    (ret = 0 ∧ ∃ p, p.size = c.len.setWidth 32 ∧ Step sumi rq (.postRecv p) rq') ∨
      (ret ≠ 0 ∧ rq' = rq) := by
  cases c with
  | recv buf len srcAddr context =>
      unfold RecvCall.post sstmacEpRecv at h
      exact epRecv_posts h
  | recvv iov srcAddr context =>
      unfold RecvCall.post sstmacEpRecvv at h
      rcases oneElement_ok h with ⟨buf, hcall⟩ | ⟨hret, hsame⟩
      · exact epRecv_posts hcall
      · exact Or.inr ⟨by simp [hret, fiEnosys], hsame⟩
  | trecv buf len srcAddr tag ignore context =>
      unfold RecvCall.post sstmacEpTrecv at h
      exact epRecv_posts h
  | trecvv iov srcAddr tag ignore context =>
      unfold RecvCall.post sstmacEpTrecvv at h
      rcases oneElement_ok h with ⟨buf, hcall⟩ | ⟨hret, hsame⟩
      · exact epRecv_posts hcall
      · exact Or.inr ⟨by simp [hret, fiEnosys], hsame⟩

/-! ## §2 — what is delivered -/

/-- The receives have 32 bits of their lengths, and those messages were delivered that fit their
receives. -/
structure LengthsOk (s : LengthRun) : Prop where
  kinds : KindsOk s.queue
  provenance : Provenance s.queue
  sizes : s.queue.posts.map (·.size) = s.lens.map (·.setWidth 32)
  sound : ∀ x ∈ s.queue.completions,
    ∃ p, s.queue.posts[x.call]? = some p ∧ fits p.size x.msg = true
  complete : ∀ x ∈ s.queue.matches, ∀ p, s.queue.posts[x.call]? = some p →
    fits p.size x.msg = true → ⟨x.call, x.msg, true⟩ ∈ s.queue.completions

theorem mem_completions {s : State} {call : Nat} {msg : FabricMessage} :
    ⟨call, msg, true⟩ ∈ s.completions ↔ (msg, some call) ∈ s.handOffs := by
  simp only [State.completions, sstmacCqReaderr, Option.toList_none, List.append_nil,
    List.mem_filterMap, Option.map_eq_some_iff, Completion.mk.injEq, and_true]
  constructor
  · rintro ⟨⟨m, _⟩, hmem, c, rfl, rfl, rfl⟩
    exact hmem
  · intro hmem
    exact ⟨_, hmem, call, rfl, rfl, rfl⟩

/-- A step adds a match, with its completion if the message fits, or neither. -/
theorem completions_step {s s' : State} {a : Action} (hp : Provenance s) (hk : KindsOk s)
    (hs : Step sumi s a s') :
    (s'.matches = s.matches ∧ s'.completions = s.completions) ∨
      ∃ x p, s'.posts[x.call]? = some p ∧ s'.matches = s.matches ++ [x] ∧
        s'.completions =
          s.completions ++ if fits p.size x.msg then [⟨x.call, x.msg, true⟩] else [] := by
  cases hc : s.nextMatch a with
  | none =>
      obtain ⟨hmatches, hcompletions, -⟩ := unmatched_step hp hk hs hc
      exact Or.inl ⟨hmatches, hcompletions⟩
  | some c =>
      obtain ⟨tagged, p, hposted, hsize, hmatches, hcompletions, -⟩ := matched_step hp hk hs hc
      rw [← hsize] at hcompletions
      exact Or.inr ⟨⟨tagged, c.call, c.msg⟩, p, hposted, hmatches, hcompletions⟩

/-- The queue takes a step, and a receive it posts has 32 bits of the length recorded for it. -/
theorem LengthsOk.step {s : LengthRun} (h : LengthsOk s) {a : Action} {queue : State}
    (hs : Step sumi s.queue a queue) (lens : List (BitVec 64))
    (hlens : (posted [a]).map (·.size) = lens.map (·.setWidth 32)) :
    LengthsOk ⟨queue, s.lens ++ lens⟩ := by
  have hposts := posts_step hs
  have hsizes : queue.posts.map (·.size) = (s.lens ++ lens).map (·.setWidth 32) := by
    rw [hposts, List.map_append, h.sizes, hlens, List.map_append]
  -- what is known of the earlier completions and matches holds of the longer list of posts
  have hsound : ∀ x ∈ s.queue.completions,
      ∃ p, queue.posts[x.call]? = some p ∧ fits p.size x.msg = true := by
    intro x hx
    obtain ⟨p, hp, hfits⟩ := h.sound x hx
    exact ⟨p, hposts ▸ getElem?_append_of_some hp _, hfits⟩
  have hcomplete : ∀ x ∈ s.queue.matches, ∀ p, queue.posts[x.call]? = some p →
      fits p.size x.msg = true → ⟨x.call, x.msg, true⟩ ∈ s.queue.completions := by
    intro x hx p hp hfits
    exact h.complete x hx p (posted_before_step h.provenance hs hx hp) hfits
  have hkinds := h.kinds.step hs
  have hprovenance := h.provenance.step h.kinds hs
  rcases completions_step h.provenance h.kinds hs with
    ⟨hmatches, hcompletions⟩ | ⟨x, p, hp, hmatches, hcompletions⟩
  · refine ⟨hkinds, hprovenance, hsizes, ?_, ?_⟩
    · rw [hcompletions]
      exact hsound
    · rw [hmatches, hcompletions]
      exact hcomplete
  · refine ⟨hkinds, hprovenance, hsizes, ?_, ?_⟩
    · rw [hcompletions]
      refine List.forall_mem_append.mpr ⟨hsound, ?_⟩
      intro y hy
      split_ifs at hy with hfits
      · obtain rfl := List.mem_singleton.mp hy
        exact ⟨p, hp, hfits⟩
      · cases hy
    · rw [hmatches, hcompletions]
      refine List.forall_mem_append.mpr ⟨?_, List.forall_mem_singleton.mpr ?_⟩
      · intro y hy q hq hfits
        exact List.mem_append_left _ (hcomplete y hy q hq hfits)
      · intro q hq hfits
        rw [hp] at hq
        cases hq
        rw [if_pos hfits]
        exact List.mem_append_right _ (List.mem_singleton_self _)

theorem lengthsOk_run {as : List LengthAction} {s : LengthRun}
    (h : run (lengthStep sumi) {} as = .ok s) : LengthsOk s := by
  refine run_induction (P := fun _ s => LengthsOk s) ?_ ?_ h
  · have hempty : run (Fabric.step sumi) {} [] = .ok {} := rfl
    exact ⟨kindsOk_empty, provenance_run hempty, rfl, by simp [State.completions, State.handOffs,
      sstmacCqReaderr], by simp [State.matches]⟩
  · intro as s a s' _ hok hstep
    cases a with
    | post c =>
        obtain ⟨⟨ret, queue⟩, hpost, hret⟩ := bind_eq_ok.mp hstep
        cases hret
        rcases RecvCall.post_ok hpost with ⟨rfl, p, hsize, hs⟩ | ⟨hne, rfl⟩
        · exact hok.step hs [c.len] (by simp [posted, hsize])
        · rw [if_neg hne]
          exact hok
    | incoming msg =>
        obtain ⟨queue, hin, hret⟩ := bind_eq_ok.mp hstep
        cases hret
        have hnext := hok.step (step_inv (a := .incoming msg) hin) [] rfl
        rwa [List.append_nil] at hnext

/-- A message of at most `len` bytes that was matched with a receive of `len` bytes, which the
provider advertises, has gone to the progress queue. -/
def DeliversLength (s : LengthRun) (x : Match) (len : BitVec 64) : Prop :=
  len ≤ sstmacAllocinfo.epAttr.maxMsgSize → x.msg.payloadBytes ≤ len →
    (x.msg, some x.call) ∈ s.queue.handOffs

/-- The message fits what 32 bits say of the length. -/
def FitsNarrowed (msg : FabricMessage) (len : BitVec 64) : Prop :=
  len ≤ sstmacAllocinfo.epAttr.maxMsgSize → msg.payloadBytes ≤ len →
    msg.payloadBytes.toNat ≤ len.toNat % 2 ^ 32

/-- Every match was with a receive posted with some length, and delivered the message exactly if it
fits 32 bits of it. -/
theorem LengthsOk.delivered_iff {s : LengthRun} (h : LengthsOk s) {x : Match}
    (hx : x ∈ s.queue.matches) :
    ∃ len, s.lens[x.call]? = some len ∧
      ((x.msg, some x.call) ∈ s.queue.handOffs ↔
        x.msg.payloadBytes.toNat ≤ len.toNat % 2 ^ 32) := by
  obtain ⟨p, hp, -⟩ := h.provenance.matched x hx
  have hsize := congrArg (·[x.call]?) h.sizes
  simp only [List.getElem?_map, hp.posted, Option.map_some] at hsize
  obtain ⟨len, hlen, hnarrow⟩ := Option.map_eq_some_iff.mp hsize.symm
  refine ⟨len, hlen, ?_⟩
  have hfits : fits p.size x.msg = true ↔ x.msg.payloadBytes.toNat ≤ len.toNat % 2 ^ 32 := by
    rw [fits_iff, ← hnarrow, BitVec.toNat_setWidth]
  rw [← hfits, ← mem_completions]
  constructor
  · intro hmem
    obtain ⟨q, hq, hfit⟩ := h.sound _ hmem
    rw [hp.posted] at hq
    cases hq
    exact hfit
  · exact h.complete x hx p hp.posted

/-! ## §3 — what is accepted -/

/-- The size only matters if it is above the provider's, which is `0xFFFFFFFF80000000`. -/
theorem epGetinfo_size_iff (epType : EpType) (version : BitVec 32) (h : Hints) (ep : EpAttr) :
    sstmacEpGetinfo epType version (some { h with epAttr := some ep }) =
        .error (.ret (-fiEnodata)) ↔
      sstmacMaxMsgSize < ep.maxMsgSize ∨
        Hints.verdict epType { h with epAttr := some { ep with maxMsgSize := 0 } } =
          some (.ret (-fiEnodata)) := by
  have hep : refusedEpAttr ep =
      (refusedEpAttr { ep with maxMsgSize := 0 } || sstmacMaxMsgSize < ep.maxMsgSize) := by
    simp [refusedEpAttr]
  have hearly : Hints.refusedEarly epType { h with epAttr := some ep } =
      (Hints.refusedEarly epType { h with epAttr := some { ep with maxMsgSize := 0 } } ||
        sstmacMaxMsgSize < ep.maxMsgSize) := by
    simp only [Hints.refusedEarly, Option.any_some, hep]
    ac_rfl
  rw [epGetinfo_error_iff]
  unfold Hints.verdict
  rw [hearly, ← refusal_or]
  by_cases hbig : sstmacMaxMsgSize < ep.maxMsgSize
  · refine iff_of_true ?_ (Or.inl hbig)
    cases Hints.refusedEarly epType { h with epAttr := some { ep with maxMsgSize := 0 } } <;>
      simp [refusal, hbig]
  · have hnone : refusal (decide (sstmacMaxMsgSize < ep.maxMsgSize)) = none := by
      simp [refusal, hbig]
    rw [hnone, Option.or_none]
    constructor
    · exact Or.inr
    · rintro (hbig' | hrefused)
      · exact absurd hbig' hbig
      · exact hrefused

/-- **When no length is lost.** In any run of receives and arrivals, every match was with a receive
posted with some length, and delivers a message that fits this length exactly if the message also fits
the length modulo `2^32`.  And `sstmac_ep_getinfo` refuses hints with a `max_msg_size` above `2^31`
exactly if the size is above `0xFFFFFFFF80000000` too, or the hints would be refused without it. -/
theorem lengths_kept_iff (sumi : Sumi) (as : List LengthAction) (s : LengthRun)
    (hrun : run (lengthStep sumi) {} as = .ok s) :
    (∀ x ∈ s.queue.matches, ∃ len, s.lens[x.call]? = some len ∧
      (DeliversLength s x len ↔ FitsNarrowed x.msg len)) ∧
    ∀ (epType : EpType) (version : BitVec 32) (h : Hints) (ep : EpAttr),
      ((2 ^ 31 < ep.maxMsgSize.toNat →
        sstmacEpGetinfo epType version (some { h with epAttr := some ep }) =
          .error (.ret (-fiEnodata))) ↔
      (2 ^ 31 < ep.maxMsgSize.toNat → 0xFFFFFFFF80000000 < ep.maxMsgSize.toNat ∨
        Hints.verdict epType { h with epAttr := some { ep with maxMsgSize := 0 } } =
          some (.ret (-fiEnodata)))) := by
  refine ⟨?_, ?_⟩
  · intro x hx
    obtain ⟨len, hlen, hdelivered⟩ := (lengthsOk_run hrun).delivered_iff hx
    refine ⟨len, hlen, ?_⟩
    unfold DeliversLength FitsNarrowed
    rw [hdelivered]
  · intro epType version h ep
    have hmax : sstmacMaxMsgSize < ep.maxMsgSize ↔ 0xFFFFFFFF80000000 < ep.maxMsgSize.toNat := by
      rw [BitVec.lt_def]
      rfl
    rw [epGetinfo_size_iff, hmax]

/-- A receive, and a message of eight bytes. -/
def lengthSample (c : RecvCall) : List LengthAction := [.post c, .incoming (sampleSend 0)]

/-- Of `2^32 + 8` bytes the 32 bits that are left say eight. -/
theorem lengths_kept_iff_sample :
    ∃ s, run (lengthStep copyingSumi) {}
        (lengthSample (.recv 0x1000 0x100000008 fiAddrUnspec 0x200)) = .ok s ∧
      ∃ x ∈ s.queue.matches, ∃ len, s.lens[x.call]? = some len ∧ DeliversLength s x len := by
  refine ⟨_, rfl, ⟨false, 0, sampleSend 0⟩, by decide, ?_⟩
  obtain ⟨len, hlen, hiff⟩ := (lengths_kept_iff copyingSumi
    (lengthSample (.recv 0x1000 0x100000008 fiAddrUnspec 0x200)) _ rfl).1 ⟨false, 0, sampleSend 0⟩
      (by decide)
  refine ⟨len, hlen, hiff.mpr ?_⟩
  obtain rfl : (0x100000008 : BitVec 64) = len := Option.some.inj hlen
  intro _ _
  decide

/-- A receive of `2^32` bytes, which is less than what is advertised, deletes a message of eight bytes,
and so does the vector call; and hints for messages of `2^31 + 1` bytes are not refused. -/
theorem lengths_lost :
    (∀ c ∈ [RecvCall.recv 0x1000 0x100000000 fiAddrUnspec 0x200,
        .recvv [⟨0x1000, 0x100000000⟩] fiAddrUnspec 0x200],
      ∃ s, run (lengthStep copyingSumi) {} (lengthSample c) = .ok s ∧
        s.queue.deleted = [sampleSend 0] ∧
        ¬ DeliversLength s ⟨false, 0, sampleSend 0⟩ 0x100000000) ∧
    sstmacEpGetinfo .rdm (fiVersion 1 9)
      (some { sampleHints .rdm with epAttr := some { maxMsgSize := 0x80000001 } }) ≠
        .error (.ret (-fiEnodata)) := by
  refine ⟨?_, ?_⟩
  · simp only [List.forall_mem_cons, List.not_mem_nil, false_implies, implies_true, and_true]
    constructor
    · refine ⟨_, rfl, by decide, ?_⟩
      unfold DeliversLength
      decide
    · refine ⟨_, rfl, by decide, ?_⟩
      unfold DeliversLength
      decide
  · rw [ne_eq, epGetinfo_error_iff]
    decide

end SstTransports.Fabric
