/-
# SstTransports.Fabric.Endpoint — the data transfer calls of an endpoint.

The eleven calls that send, read and write go through three helpers, `sstmaciEpSend`,
`sstmaciEpRead` and `sstmaciEpWrite`, each of which hands one request to the transport.  A request
carries the trailing arguments of `postSend`, `rdmaGet` or `rdmaPut` in the order of the call; sumi
passes them on in that order as the first constructor arguments of the `FabricMessage`
(`Request.message`).

* `addressing_iff`: whatever the destination, the helpers target rank `0xFFFFFFFF`, so an address is
  honoured only if that is its rank.
* `metadata_survives_iff`: the helpers pass tag, immediate data, flags, context, and the constructor
  takes tag, flags, immediate data, context, so flags and immediate data arrive exchanged.
-/
import SstTransports.Fabric.Address
import SstTransports.Fabric.CompletionQueue

namespace SstTransports.Fabric

/-! ## §1 — the helpers -/

/-- Of `sstmac_fid_ep` what the transfer calls read; a completion queue is its sumi id, and `none`
the null pointer of an endpoint it was not bound to. -/
structure Ep where
  opFlags : BitVec 64
  sendCq : Option (BitVec 32)
  qos : BitVec 32
  deriving DecidableEq, Repr

inductive TransportOp
  | postSend
  | rdmaGet
  | rdmaPut
  deriving DecidableEq, Repr

/-- A call of the transport.  `args` are the trailing arguments, in order. -/
structure Request where
  op : TransportOp
  rank : BitVec 32
  byteLength : BitVec 64
  localBuffer : Ptr
  remoteBuffer : Option Ptr
  localCq : BitVec 32
  remoteCq : BitVec 32
  qos : BitVec 32
  args : BitVec 64 × BitVec 64 × BitVec 64 × Ptr
  deriving DecidableEq, Repr

/-- The message sumi constructs for a request. -/
def Request.message (r : Request) (base : SumiMessage) : FabricMessage :=
  FabricMessage.construct r.args.1 r.args.2.1 r.args.2.2.1 r.args.2.2.2 base

@[simp] theorem message_flags (r : Request) (base : SumiMessage) :
    (r.message base).flags = r.args.2.1 := rfl

/-- What a call returns, and the requests it made. -/
abbrev Issued := Except Fault (Int × List Request)

-- `sumi::Message::no_ack`
variable (noAck : BitVec 32) (ep : Ep)

/-- `sstmaci_ep_send` -/
def sstmaciEpSend (buf : Ptr) (len : BitVec 64) (destAddr : FiAddr) (context : Ptr)
    (tag _data flags : BitVec 64) : Issued :=
  let destRank : BitVec 32 := (addrRank destAddr).setWidth 32
  let remoteCq : BitVec 16 := (addrCq destAddr).setWidth 16
  let flags := flags ||| fiSend
  match ep.sendCq with
  | none => .error .nullDereference
  | some sendCq =>
    .ok (0, [{
      op := .postSend, rank := destRank, byteLength := len, localBuffer := buf,
      remoteBuffer := none, localCq := sendCq, remoteCq := remoteCq.setWidth 32, qos := ep.qos,
      args := (tag, FabricMessage.noImmData, flags, context) }])

/-- `sstmaci_ep_read` -/
def sstmaciEpRead (buf : Ptr) (len : BitVec 64) (srcAddr : FiAddr) (addr : BitVec 64)
    (context : Ptr) : Issued :=
  let srcRank : BitVec 32 := (addrRank srcAddr).setWidth 32
  let remoteRead := hasFlag ep.opFlags fiRemoteRead
  let remoteCq : BitVec 32 := if remoteRead then (addrCq srcAddr).setWidth 32 else noAck
  let flags := (if remoteRead then 0 ||| fiRemoteRead else 0) ||| fiRead
  match ep.sendCq with
  | none => .error .nullDereference
  | some sendCq =>
    .ok (0, [{
      op := .rdmaGet, rank := srcRank, byteLength := len, localBuffer := buf,
      remoteBuffer := some addr, localCq := sendCq, remoteCq := remoteCq, qos := ep.qos,
      args := (FabricMessage.noTag, FabricMessage.noImmData, flags, context) }])

/-- `flags` as `sstmaci_ep_write` passes them on. -/
def Ep.writeFlags (flags : BitVec 64) : BitVec 64 :=
  (if hasFlag ep.opFlags fiRemoteWrite then flags ||| fiRemoteWrite else flags) ||| fiWrite

/-- `sstmaci_ep_write` -/
def sstmaciEpWrite (buf : Ptr) (len : BitVec 64) (destAddr : FiAddr) (addr : BitVec 64)
    (context : Ptr) (data flags : BitVec 64) : Issued :=
  let remoteWrite := hasFlag ep.opFlags fiRemoteWrite
  let remoteCq : BitVec 32 := if remoteWrite then (addrCq destAddr).setWidth 32 else noAck
  let srcRank : BitVec 32 := (addrRank destAddr).setWidth 32
  match ep.sendCq with
  | none => .error .nullDereference
  | some sendCq =>
    .ok (0, [{
      op := .rdmaPut, rank := srcRank, byteLength := len, localBuffer := buf,
      remoteBuffer := some addr, localCq := sendCq, remoteCq := remoteCq, qos := ep.qos,
      args := (FabricMessage.noTag, data, ep.writeFlags flags, context) }])

/-! ## §2 — the calls -/

/-- `struct iovec` -/
structure Iovec where
  base : Ptr
  len : BitVec 64
  deriving DecidableEq, Repr

/-- The vector calls do what the scalar call does for a single element, and nothing else. -/
def singleIovec (iov : List Iovec) (call : Ptr → BitVec 64 → Issued) : Issued :=
  match iov with
  | [v] => call v.base v.len
  | _ => .ok (-fiEnosys, [])

section Calls

variable (buf : Ptr) (len : BitVec 64) (iov : List Iovec) (data tag : BitVec 64)
  (destAddr : FiAddr) (addr : BitVec 64) (context : Ptr)

def sstmacEpSend : Issued :=
  sstmaciEpSend ep buf len destAddr context FabricMessage.noTag FabricMessage.noImmData 0

def sstmacEpSendv : Issued :=
  singleIovec iov fun buf len =>
    sstmaciEpSend ep buf len destAddr context FabricMessage.noTag FabricMessage.noImmData 0

def sstmacEpSenddata : Issued :=
  sstmaciEpSend ep buf len destAddr context FabricMessage.noTag data fiRemoteCqData

def sstmacEpTsend : Issued :=
  sstmaciEpSend ep buf len destAddr context tag FabricMessage.noImmData fiTagged

def sstmacEpTsendv : Issued :=
  singleIovec iov fun buf len =>
    sstmaciEpSend ep buf len destAddr context tag FabricMessage.noImmData fiTagged

def sstmacEpTsenddata : Issued :=
  sstmaciEpSend ep buf len destAddr context tag data (fiTagged ||| fiRemoteCqData)

def sstmacEpRead : Issued := sstmaciEpRead noAck ep buf len destAddr addr context

def sstmacEpReadv : Issued :=
  singleIovec iov fun buf len => sstmaciEpRead noAck ep buf len destAddr addr context

/-- A plain write passes `FI_REMOTE_CQ_DATA` along, with no data. -/
def sstmacEpWrite : Issued :=
  sstmaciEpWrite noAck ep buf len destAddr addr context FabricMessage.noImmData fiRemoteCqData

def sstmacEpWritev : Issued :=
  singleIovec iov fun buf len =>
    sstmaciEpWrite noAck ep buf len destAddr addr context FabricMessage.noImmData 0

def sstmacEpWritedata : Issued :=
  sstmaciEpWrite noAck ep buf len destAddr addr context data fiRemoteCqData

end Calls

/-! ## §3 — targeting -/

/-- The field macros take out of the packed address what was put in. -/
structure RoundTrips (rank : BitVec 32) (cq queue : BitVec 16) : Prop where
  sameRank : addrRank (packAddr rank cq queue) = rank.setWidth 64
  sameCq : (addrCq (packAddr rank cq queue)).setWidth 16 = cq
  sameQueue : (addrQueue (packAddr rank cq queue)).setWidth 16 = queue

/-- The call makes one request, for this rank and, where a remote completion queue is asked for,
this queue. -/
def Targets (issued : Issued) (rank : BitVec 32) (cq : BitVec 16) (remote : Bool) : Prop :=
  ∃ r, issued = .ok (0, [r]) ∧ r.rank = rank ∧ (remote = true → r.remoteCq = cq.setWidth 32)

/-- The three helpers honour an address. -/
structure Honoured (noAck : BitVec 32) (ep : Ep) (rank : BitVec 32) (cq queue : BitVec 16) :
    Prop where
  send : ∀ buf len context tag data flags,
    Targets (sstmaciEpSend ep buf len (packAddr rank cq queue) context tag data flags) rank cq true
  read : ∀ buf len addr context,
    Targets (sstmaciEpRead noAck ep buf len (packAddr rank cq queue) addr context) rank cq
      (hasFlag ep.opFlags fiRemoteRead)
  write : ∀ buf len addr context data flags,
    Targets (sstmaciEpWrite noAck ep buf len (packAddr rank cq queue) addr context data flags) rank
      cq (hasFlag ep.opFlags fiRemoteWrite)

/-- The rank of the request a call makes, if it makes one. -/
def requestRank : Issued → Option (BitVec 32)
  | .ok (_, r :: _) => some r.rank
  | _ => none

/-- Widening loses nothing. -/
theorem setWidth_inj {v w : Nat} (hw : v ≤ w) {x y : BitVec v} :
    x.setWidth w = y.setWidth w ↔ x = y := by
  constructor
  · intro h
    have hback := congrArg (BitVec.setWidth v) h
    rwa [BitVec.setWidth_setWidth_of_le x hw, BitVec.setWidth_setWidth_of_le y hw,
      BitVec.setWidth_eq, BitVec.setWidth_eq] at hback
  · rintro rfl
    rfl

theorem roundTrips_iff (rank : BitVec 32) (cq queue : BitVec 16) :
    RoundTrips rank cq queue ↔
      rank = BitVec.allOnes 32 ∧ cq = BitVec.allOnes 16 ∧ queue = BitVec.allOnes 16 := by
  have hrank : (0xFFFFFFFF : BitVec 64) = rank.setWidth 64 ↔ BitVec.allOnes 32 = rank := by
    have hones : (0xFFFFFFFF : BitVec 64) = (BitVec.allOnes 32).setWidth 64 := by decide
    rw [hones, setWidth_inj (by omega)]
  constructor
  · rintro ⟨h₁, h₂, h₃⟩
    rw [addrRank_eq, hrank] at h₁
    rw [addrCq_setWidth] at h₂
    rw [addrQueue_setWidth] at h₃
    exact ⟨h₁.symm, h₂.symm, h₃.symm⟩
  · rintro ⟨h₁, h₂, h₃⟩
    refine ⟨?_, ?_, ?_⟩
    · rw [addrRank_eq, hrank]
      exact h₁.symm
    · rw [addrCq_setWidth]
      exact h₂.symm
    · rw [addrQueue_setWidth]
      exact h₃.symm

theorem setWidth_addrRank (addr : FiAddr) : (addrRank addr).setWidth 32 = BitVec.allOnes 32 := by
  rw [addrRank_eq]
  decide

/-- An `int` completion queue of an address with the rank the macros report is never the one that
was put in: the rank shows above it. -/
theorem addrCq_int_ne (cq queue : BitVec 16) :
    (addrCq (packAddr (BitVec.allOnes 32) cq queue)).setWidth 32 ≠ cq.setWidth 32 := by
  intro h
  have hbit := addrCq_packAddr_bit (BitVec.allOnes 32) cq queue
  rw [h] at hbit
  simp at hbit

section Helpers

variable (buf : Ptr) (len : BitVec 64) (a : FiAddr) (addr : BitVec 64) (context : Ptr)
  (tag data flags : BitVec 64) (rank : BitVec 32) (cq : BitVec 16)

theorem targets_send_iff :
    Targets (sstmaciEpSend ep buf len a context tag data flags) rank cq true ↔
      ep.sendCq ≠ none ∧ rank = BitVec.allOnes 32 ∧ cq = BitVec.allOnes 16 := by
  unfold Targets sstmaciEpSend
  rw [setWidth_addrRank, addrCq_setWidth]
  cases ep.sendCq with
  | none => simp
  | some sendCq =>
      constructor
      · rintro ⟨r, hr, hrank, hcq⟩
        cases hr
        exact ⟨by simp, hrank.symm, ((setWidth_inj (by omega)).mp (hcq rfl)).symm⟩
      · rintro ⟨-, rfl, rfl⟩
        exact ⟨_, rfl, rfl, fun _ => rfl⟩

theorem targets_read_iff :
    Targets (sstmaciEpRead noAck ep buf len a addr context) rank cq
        (hasFlag ep.opFlags fiRemoteRead) ↔
      ep.sendCq ≠ none ∧ rank = BitVec.allOnes 32 ∧
        (hasFlag ep.opFlags fiRemoteRead = true → (addrCq a).setWidth 32 = cq.setWidth 32) := by
  unfold Targets sstmaciEpRead
  rw [setWidth_addrRank]
  cases ep.sendCq with
  | none => simp
  | some sendCq => cases hasFlag ep.opFlags fiRemoteRead <;> simp [eq_comm]

theorem targets_write_iff :
    Targets (sstmaciEpWrite noAck ep buf len a addr context data flags) rank cq
        (hasFlag ep.opFlags fiRemoteWrite) ↔
      ep.sendCq ≠ none ∧ rank = BitVec.allOnes 32 ∧
        (hasFlag ep.opFlags fiRemoteWrite = true → (addrCq a).setWidth 32 = cq.setWidth 32) := by
  unfold Targets sstmaciEpWrite
  rw [setWidth_addrRank]
  cases ep.sendCq with
  | none => simp
  | some sendCq => cases hasFlag ep.opFlags fiRemoteWrite <;> simp [eq_comm]

end Helpers

theorem honoured_iff (rank : BitVec 32) (cq queue : BitVec 16) :
    Honoured noAck ep rank cq queue ↔
      ep.sendCq ≠ none ∧ rank = BitVec.allOnes 32 ∧ cq = BitVec.allOnes 16 ∧
        hasFlag ep.opFlags fiRemoteRead = false ∧ hasFlag ep.opFlags fiRemoteWrite = false := by
  constructor
  · rintro ⟨hsend, hread, hwrite⟩
    obtain ⟨hbound, rfl, hcq⟩ := (targets_send_iff ep _ _ _ _ _ _ _ rank cq).mp
      (hsend nullptr 0 nullptr 0 0 0)
    obtain ⟨_, _, hread⟩ := (targets_read_iff noAck ep _ _ _ _ _ _ cq).mp
      (hread nullptr 0 0 nullptr)
    obtain ⟨_, _, hwrite⟩ := (targets_write_iff noAck ep _ _ _ _ _ _ _ _ cq).mp
      (hwrite nullptr 0 0 nullptr 0 0)
    refine ⟨hbound, rfl, hcq, ?_, ?_⟩
    · rw [← Bool.not_eq_true]
      exact fun h => addrCq_int_ne cq queue (hread h)
    · rw [← Bool.not_eq_true]
      exact fun h => addrCq_int_ne cq queue (hwrite h)
  · rintro ⟨hbound, hrank, hcq, hread, hwrite⟩
    refine ⟨?_, ?_, ?_⟩
    · intro buf len context tag data flags
      exact (targets_send_iff ep _ _ _ _ _ _ _ rank cq).mpr ⟨hbound, hrank, hcq⟩
    · intro buf len addr context
      refine (targets_read_iff noAck ep _ _ _ _ _ rank cq).mpr ⟨hbound, hrank, ?_⟩
      intro h
      rw [hread] at h
      cases h
    · intro buf len addr context data flags
      refine (targets_write_iff noAck ep _ _ _ _ _ _ _ rank cq).mpr ⟨hbound, hrank, ?_⟩
      intro h
      rw [hwrite] at h
      cases h

/-- **Addressing, exactly.** An address comes back from the field macros and is honoured by the
three helpers if and only if its fields are all ones, the endpoint has a send completion queue, and
no remote completion is asked of reads and writes.  Two addresses are never told apart: the helpers
target the same rank for both. -/
theorem addressing_iff (noAck : BitVec 32) (ep : Ep) (rank : BitVec 32) (cq queue : BitVec 16) :
    (RoundTrips rank cq queue ∧ Honoured noAck ep rank cq queue ↔
      rank = BitVec.allOnes 32 ∧ cq = BitVec.allOnes 16 ∧ queue = BitVec.allOnes 16 ∧
        ep.sendCq ≠ none ∧ hasFlag ep.opFlags fiRemoteRead = false ∧
        hasFlag ep.opFlags fiRemoteWrite = false) ∧
    ∀ a b : FiAddr,
      (∀ buf len context tag data flags,
        requestRank (sstmaciEpSend ep buf len a context tag data flags) =
          requestRank (sstmaciEpSend ep buf len b context tag data flags)) ∧
      (∀ buf len addr context,
        requestRank (sstmaciEpRead noAck ep buf len a addr context) =
          requestRank (sstmaciEpRead noAck ep buf len b addr context)) ∧
      ∀ buf len addr context data flags,
        requestRank (sstmaciEpWrite noAck ep buf len a addr context data flags) =
          requestRank (sstmaciEpWrite noAck ep buf len b addr context data flags) := by
  refine ⟨?_, ?_⟩
  · rw [roundTrips_iff, honoured_iff]
    tauto
  · intro a b
    refine ⟨?_, ?_, ?_⟩
    · intro buf len context tag data flags
      simp only [sstmaciEpSend, setWidth_addrRank]
      cases ep.sendCq <;> rfl
    · intro buf len addr context
      simp only [sstmaciEpRead, setWidth_addrRank]
      cases ep.sendCq <;> rfl
    · intro buf len addr context data flags
      simp only [sstmaciEpWrite, setWidth_addrRank]
      cases ep.sendCq <;> rfl

/-- An endpoint with a send completion queue and no operation flags. -/
def sampleEp : Ep := ⟨0, some 0, 0⟩

/-- The address of rank 3 does not come back, and a send to it goes to rank `0xFFFFFFFF`. -/
theorem rank3_not_honoured :
    requestRank (sstmaciEpSend sampleEp 0x100 8 (packAddr 3 1 0) 0x200 0 0 0) = some 0xFFFFFFFF ∧
      ¬ (RoundTrips 3 1 0 ∧ Honoured 0xFFFFFFFF sampleEp 3 1 0) := by
  refine ⟨by decide, ?_⟩
  rintro ⟨htrip, _⟩
  have hrank := htrip.sameRank
  revert hrank
  decide

/-! ## §4 — metadata from the call to the completion entry -/

/-- The data transfer calls; the vector forms with their single element. -/
inductive Call
  | send (buf : Ptr) (len : BitVec 64) (destAddr : FiAddr) (context : Ptr)
  | sendv (iov : Iovec) (destAddr : FiAddr) (context : Ptr)
  | senddata (buf : Ptr) (len data : BitVec 64) (destAddr : FiAddr) (context : Ptr)
  | tsend (buf : Ptr) (len : BitVec 64) (destAddr : FiAddr) (tag : BitVec 64) (context : Ptr)
  | tsendv (iov : Iovec) (destAddr : FiAddr) (tag : BitVec 64) (context : Ptr)
  | tsenddata (buf : Ptr) (len data : BitVec 64) (destAddr : FiAddr) (tag : BitVec 64)
      (context : Ptr)
  | read (buf : Ptr) (len : BitVec 64) (srcAddr : FiAddr) (addr : BitVec 64) (context : Ptr)
  | readv (iov : Iovec) (srcAddr : FiAddr) (addr : BitVec 64) (context : Ptr)
  | write (buf : Ptr) (len : BitVec 64) (destAddr : FiAddr) (addr : BitVec 64) (context : Ptr)
  | writev (iov : Iovec) (destAddr : FiAddr) (addr : BitVec 64) (context : Ptr)
  | writedata (buf : Ptr) (len data : BitVec 64) (destAddr : FiAddr) (addr : BitVec 64)
      (context : Ptr)
  deriving DecidableEq, Repr

namespace Call

def issue : Call → Issued
  | send buf len destAddr context => sstmacEpSend ep buf len destAddr context
  | sendv iov destAddr context => sstmacEpSendv ep [iov] destAddr context
  | senddata buf len data destAddr context => sstmacEpSenddata ep buf len data destAddr context
  | tsend buf len destAddr tag context => sstmacEpTsend ep buf len tag destAddr context
  | tsendv iov destAddr tag context => sstmacEpTsendv ep [iov] tag destAddr context
  | tsenddata buf len data destAddr tag context =>
    sstmacEpTsenddata ep buf len data tag destAddr context
  | read buf len srcAddr addr context => sstmacEpRead noAck ep buf len srcAddr addr context
  | readv iov srcAddr addr context => sstmacEpReadv noAck ep [iov] srcAddr addr context
  | write buf len destAddr addr context => sstmacEpWrite noAck ep buf len destAddr addr context
  | writev iov destAddr addr context => sstmacEpWritev noAck ep [iov] destAddr addr context
  | writedata buf len data destAddr addr context =>
    sstmacEpWritedata noAck ep buf len data destAddr addr context

/-- The caller's tag. -/
def tag : Call → BitVec 64
  | tsend _ _ _ tag _ => tag
  | tsendv _ _ tag _ => tag
  | tsenddata _ _ _ _ tag _ => tag
  | _ => FabricMessage.noTag

/-- The caller's immediate data. -/
def data : Call → BitVec 64
  | senddata _ _ data _ _ => data
  | tsenddata _ _ data _ _ _ => data
  | writedata _ _ data _ _ _ => data
  | _ => FabricMessage.noImmData

def context : Call → Ptr
  | send _ _ _ context => context
  | sendv _ _ context => context
  | senddata _ _ _ _ context => context
  | tsend _ _ _ _ context => context
  | tsendv _ _ _ context => context
  | tsenddata _ _ _ _ _ context => context
  | read _ _ _ _ context => context
  | readv _ _ _ context => context
  | write _ _ _ _ context => context
  | writev _ _ _ context => context
  | writedata _ _ _ _ _ context => context

/-- A t-variant. -/
def isTagged : Call → Bool
  | tsend .. => true
  | tsendv .. => true
  | tsenddata .. => true
  | _ => false

/-- A data variant. -/
def isData : Call → Bool
  | senddata .. => true
  | tsenddata .. => true
  | writedata .. => true
  | _ => false

def opBit : Call → BitVec 64
  | read .. => fiRead
  | readv .. => fiRead
  | write .. => fiWrite
  | writev .. => fiWrite
  | writedata .. => fiWrite
  | _ => fiSend

end Call

/-- The message a call's request becomes says what the caller said, and its entry in the tagged
format repeats it. -/
structure Carries (call : Call) (m : FabricMessage) : Prop where
  tag : m.tag = call.tag
  immData : m.immData = call.data
  context : m.context = call.context
  tagged : hasFlag m.flags fiTagged = call.isTagged
  remoteCqData : hasFlag m.flags fiRemoteCqData = call.isData
  op : hasFlag m.flags call.opBit = true
  entry : ∀ localBuffer, sstmaciFillCqEntry .tagged localBuffer m =
    some (.tagged call.context m.flags m.byteLength localBuffer call.data call.tag)

/-- The metadata of a call survives: it makes one request, whose message carries it. -/
def MetadataSurvives (noAck : BitVec 32) (ep : Ep) (call : Call) : Prop :=
  ∃ r, call.issue noAck ep = .ok (0, [r]) ∧ ∀ base, Carries call (r.message base)

/-- The calls whose immediate data happens to be the flags of their own operation. -/
def DataIsFlags (ep : Ep) : Call → Prop
  | .tsenddata _ _ data _ _ _ => data = fiTagged ||| fiRemoteCqData ||| fiSend
  | .writedata _ _ data _ _ _ => data = ep.writeFlags fiRemoteCqData
  | _ => False

/-- What is asked of a message, in terms of the four arguments it was made from. -/
theorem carries_message_iff {call : Call} {r : Request} (base : SumiMessage)
    (htag : r.args.1 = call.tag) (hcontext : r.args.2.2.2 = call.context) :
    Carries call (r.message base) ↔
      r.args.2.2.1 = call.data ∧ hasFlag r.args.2.1 fiTagged = call.isTagged ∧
        hasFlag r.args.2.1 fiRemoteCqData = call.isData ∧ hasFlag r.args.2.1 call.opBit = true := by
  constructor
  · intro h
    exact ⟨h.immData, h.tagged, h.remoteCqData, h.op⟩
  · rintro ⟨hdata, htagged, hremote, hop⟩
    refine ⟨htag, hdata, hcontext, htagged, hremote, hop, ?_⟩
    intro localBuffer
    show some (CqEntry.tagged r.args.2.2.2 r.args.2.1 _ _ r.args.2.2.1 r.args.1) = _
    rw [htag, hcontext, hdata]
    rfl

/-- The same for a call that makes the request `r`. -/
theorem metadataSurvives_of_issue {call : Call} {r : Request}
    (hissue : call.issue noAck ep = .ok (0, [r])) (htag : r.args.1 = call.tag)
    (hcontext : r.args.2.2.2 = call.context) :
    MetadataSurvives noAck ep call ↔
      r.args.2.2.1 = call.data ∧ hasFlag r.args.2.1 fiTagged = call.isTagged ∧
        hasFlag r.args.2.1 fiRemoteCqData = call.isData ∧ hasFlag r.args.2.1 call.opBit = true := by
  have hbase := fun base => carries_message_iff base htag hcontext
  constructor
  · rintro ⟨r', hr', hcarries⟩
    rw [hissue] at hr'
    cases hr'
    exact (hbase ⟨0, .postedSend, 0, 0, nullptr, 0⟩).mp (hcarries _)
  · intro h
    exact ⟨r, hissue, fun base => (hbase base).mpr h⟩

-- all bits of `no_imm_data` are set, so as flags it claims everything
theorem hasFlag_noImmData_tagged : hasFlag FabricMessage.noImmData fiTagged = true := by decide

theorem hasFlag_noImmData_remoteCqData :
    hasFlag FabricMessage.noImmData fiRemoteCqData = true := by decide

theorem hasFlag_noImmData_send : hasFlag FabricMessage.noImmData fiSend = true := by decide

/-- The flags of a write with data. -/
theorem hasFlag_writeFlags :
    hasFlag (ep.writeFlags fiRemoteCqData) fiTagged = false ∧
      hasFlag (ep.writeFlags fiRemoteCqData) fiRemoteCqData = true ∧
      hasFlag (ep.writeFlags fiRemoteCqData) fiWrite = true := by
  unfold Ep.writeFlags
  cases hasFlag ep.opFlags fiRemoteWrite <;> decide

/-- A call whose request has `no_imm_data` where the constructor takes the flags claims both a tag
and data. -/
theorem not_survives_of_noImmData {call : Call} {r : Request}
    (hissue : call.issue noAck ep = .ok (0, [r])) (hflags : r.args.2.1 = FabricMessage.noImmData)
    (hcall : call.isTagged = false ∨ call.isData = false) : ¬ MetadataSurvives noAck ep call := by
  rintro ⟨r', hr', hcarries⟩
  rw [hissue] at hr'
  cases hr'
  have h := hcarries ⟨0, .postedSend, 0, 0, nullptr, 0⟩
  rcases hcall with huntagged | hnodata
  · have htagged := h.tagged
    rw [message_flags, hflags, hasFlag_noImmData_tagged, huntagged] at htagged
    cases htagged
  · have hremote := h.remoteCqData
    rw [message_flags, hflags, hasFlag_noImmData_remoteCqData, hnodata] at hremote
    cases hremote

theorem not_survives_of_unbound {call : Call} (h : ep.sendCq = none) :
    ¬ MetadataSurvives noAck ep call := by
  rintro ⟨r, hr, _⟩
  have herror : call.issue noAck ep = .error .nullDereference := by
    cases call <;>
      simp only [Call.issue, sstmacEpSend, sstmacEpSendv, sstmacEpSenddata, sstmacEpTsend,
        sstmacEpTsendv, sstmacEpTsenddata, sstmacEpRead, sstmacEpReadv, sstmacEpWrite,
        sstmacEpWritev, sstmacEpWritedata, singleIovec, sstmaciEpSend, sstmaciEpRead,
        sstmaciEpWrite, h]
  rw [herror] at hr
  cases hr

/-- **Metadata survival, exactly.** What the caller of one of the eleven calls says reaches the
completion entry if and only if the endpoint has a send completion queue and the call is a tagged
send or a write with data whose data equals the flags of the operation. -/
theorem metadata_survives_iff (noAck : BitVec 32) (ep : Ep) (call : Call) :
    MetadataSurvives noAck ep call ↔ ep.sendCq ≠ none ∧ DataIsFlags ep call := by
  obtain ⟨opFlags, sendCq, qos⟩ := ep
  cases sendCq with
  | none => exact iff_of_false (not_survives_of_unbound noAck _ rfl) (fun h => h.1 rfl)
  | some id =>
      cases call with
      | send buf len destAddr context =>
          exact iff_of_false (not_survives_of_noImmData noAck _ rfl rfl (Or.inl rfl)) And.right
      | sendv iov destAddr context =>
          exact iff_of_false (not_survives_of_noImmData noAck _ rfl rfl (Or.inl rfl)) And.right
      | senddata buf len data destAddr context =>
          exact iff_of_false (not_survives_of_noImmData noAck _ rfl rfl (Or.inl rfl)) And.right
      | tsend buf len destAddr tag context =>
          exact iff_of_false (not_survives_of_noImmData noAck _ rfl rfl (Or.inr rfl)) And.right
      | tsendv iov destAddr tag context =>
          exact iff_of_false (not_survives_of_noImmData noAck _ rfl rfl (Or.inr rfl)) And.right
      | tsenddata buf len data destAddr tag context =>
          rw [metadataSurvives_of_issue noAck _ rfl rfl rfl]
          constructor
          · rintro ⟨hdata, -⟩
            exact ⟨by simp, hdata.symm⟩
          · rintro ⟨-, hdata⟩
            exact ⟨hdata.symm, hasFlag_noImmData_tagged, hasFlag_noImmData_remoteCqData,
              hasFlag_noImmData_send⟩
      | read buf len srcAddr addr context =>
          exact iff_of_false (not_survives_of_noImmData noAck _ rfl rfl (Or.inl rfl)) And.right
      | readv iov srcAddr addr context =>
          exact iff_of_false (not_survives_of_noImmData noAck _ rfl rfl (Or.inl rfl)) And.right
      | write buf len destAddr addr context =>
          exact iff_of_false (not_survives_of_noImmData noAck _ rfl rfl (Or.inl rfl)) And.right
      | writev iov destAddr addr context =>
          exact iff_of_false (not_survives_of_noImmData noAck _ rfl rfl (Or.inl rfl)) And.right
      | writedata buf len data destAddr addr context =>
          rw [metadataSurvives_of_issue noAck _ rfl rfl rfl]
          constructor
          · rintro ⟨hdata, -⟩
            exact ⟨by simp, hdata.symm⟩
          · rintro ⟨-, hdata⟩
            obtain ⟨htagged, hremote, hop⟩ := hasFlag_writeFlags ⟨opFlags, some id, qos⟩
            have hflags : data = Ep.writeFlags ⟨opFlags, some id, qos⟩ fiRemoteCqData := hdata
            refine ⟨hdata.symm, ?_, ?_, ?_⟩
            · rw [← hflags] at htagged
              exact htagged
            · rw [← hflags] at hremote
              exact hremote
            · rw [← hflags] at hop
              exact hop

/-- A plain send of eight bytes. -/
def sampleCall : Call := .send 0x100 8 (packAddr 1 0 0) 0x200

/-- Its message is taken for a tagged one, and reports `FI_SEND` as immediate data. -/
theorem sampleCall_not_survives :
    (∃ r, sampleCall.issue 0xFFFFFFFF sampleEp = .ok (0, [r]) ∧
      (r.message ⟨0, .postedSend, 8, 8, 0x100, 1⟩).isTagged = true ∧
      (r.message ⟨0, .postedSend, 8, 8, 0x100, 1⟩).immData = fiSend) ∧
      ¬ MetadataSurvives 0xFFFFFFFF sampleEp sampleCall := by
  refine ⟨⟨_, rfl, by decide, by decide⟩, ?_⟩
  exact not_survives_of_noImmData 0xFFFFFFFF sampleEp rfl rfl (Or.inl rfl)

end SstTransports.Fabric
