/-
# SstTransports.Fabric.Vector — the vector calls and the scalar calls.

Six calls of an endpoint have a form that takes an array of buffers.  Since the provider advertises an
`iov_limit` of one, `recvv`, `sendv`, `readv`, `writev`, `trecvv` and `tsendv` are to do for an array of
one buffer what `recv`, `send`, `read`, `write`, `trecv` and `tsend` do for the buffer, and to refuse any
other array.

Each of the twelve calls names the constants it passes on for itself.  `vector_is_scalar_iff` finds one
pair in which they differ: `write` asks for `FI_REMOTE_CQ_DATA` and `writev` does not.
-/
import SstTransports.Fabric.Objects

namespace SstTransports.Fabric

open SstTransports.Lib

/-! ## §1 — the receiving calls -/

/-- `if (count == 1) … else return -FI_ENOSYS`, where nothing has happened to `unchanged`. -/
def oneElement {α : Type} (iov : List Iovec) (unchanged : α)
    (call : Ptr → BitVec 64 → Except Fault (Int × α)) : Except Fault (Int × α) :=
  match iov with
  | [v] => call v.base v.len
  | _ => .ok (-fiEnosys, unchanged)

section Queue

variable (sumi : Sumi) (rq : State) (iov : List Iovec) (srcAddr : FiAddr)

/-- `sstmac_ep_recvv` -/
def sstmacEpRecvv (context : Ptr) : Except Fault (Int × State) :=
  oneElement iov rq fun buf len => sstmaciEpRecv sumi rq buf len srcAddr context 0 (~~~0) 0

/-- `sstmac_ep_trecvv` -/
def sstmacEpTrecvv (tag ignore : BitVec 64) (context : Ptr) : Except Fault (Int × State) :=
  oneElement iov rq fun buf len => sstmaciEpRecv sumi rq buf len srcAddr context tag ignore fiTagged

end Queue

section Provider

variable (sumi : Sumi) (p : Provider) (ep : Nat) (buf : Ptr) (len : BitVec 64) (iov : List Iovec)
  (srcAddr : FiAddr)

/-- `sstmac_ep_recv`, from the endpoint on. -/
def Provider.recv (context : Ptr) : Except Fault (Int × Provider) :=
  p.epRecv sumi ep buf len srcAddr context 0 (~~~0) 0

/-- `sstmac_ep_recvv`, from the endpoint on. -/
def Provider.recvv (context : Ptr) : Except Fault (Int × Provider) :=
  oneElement iov p fun buf len => p.epRecv sumi ep buf len srcAddr context 0 (~~~0) 0

/-- `sstmac_ep_trecv`, from the endpoint on. -/
def Provider.trecv (tag ignore : BitVec 64) (context : Ptr) : Except Fault (Int × Provider) :=
  p.epRecv sumi ep buf len srcAddr context tag ignore fiTagged

/-- `sstmac_ep_trecvv`, from the endpoint on. -/
def Provider.trecvv (tag ignore : BitVec 64) (context : Ptr) : Except Fault (Int × Provider) :=
  oneElement iov p fun buf len => p.epRecv sumi ep buf len srcAddr context tag ignore fiTagged

end Provider

/-! ## §2 — six pairs -/

/-- A call without its buffers.  The descriptors and the key are not read by any of them. -/
inductive Transfer
  | recv (srcAddr : FiAddr) (context : Ptr)
  | send (destAddr : FiAddr) (context : Ptr)
  | read (srcAddr : FiAddr) (addr : BitVec 64) (context : Ptr)
  | write (destAddr : FiAddr) (addr : BitVec 64) (context : Ptr)
  | trecv (srcAddr : FiAddr) (tag ignore : BitVec 64) (context : Ptr)
  | tsend (destAddr : FiAddr) (tag : BitVec 64) (context : Ptr)
  deriving DecidableEq, Repr

/-- What a call returns, the requests it made of the transport, and the objects after it. -/
abbrev Transferred := Except Fault (Int × List Request × Provider)

/-- A call that makes requests and changes no object. -/
def issued (p : Provider) (call : Issued) : Transferred := call.map fun r => (r.1, r.2, p)

/-- A call that makes no request. -/
def received (call : Except Fault (Int × Provider)) : Transferred := call.map fun r => (r.1, [], r.2)

section Calls

variable (noAck : BitVec 32) (sumi : Sumi) (p : Provider) (i : Nat) (ep : Ep)

/-- The scalar call, on the endpoint `i` of the provider; `ep` is what the sending calls read of it. -/
def Transfer.scalar (v : Iovec) : Transfer → Transferred
  | .recv srcAddr context => received (p.recv sumi i v.base v.len srcAddr context)
  | .send destAddr context => issued p (sstmacEpSend ep v.base v.len destAddr context)
  | .read srcAddr addr context =>
    issued p (sstmacEpRead noAck ep v.base v.len srcAddr addr context)
  | .write destAddr addr context =>
    issued p (sstmacEpWrite noAck ep v.base v.len destAddr addr context)
  | .trecv srcAddr tag ignore context =>
    received (p.trecv sumi i v.base v.len srcAddr tag ignore context)
  | .tsend destAddr tag context => issued p (sstmacEpTsend ep v.base v.len tag destAddr context)

/-- The vector call. -/
def Transfer.vector (iov : List Iovec) : Transfer → Transferred
  | .recv srcAddr context => received (p.recvv sumi i iov srcAddr context)
  | .send destAddr context => issued p (sstmacEpSendv ep iov destAddr context)
  | .read srcAddr addr context => issued p (sstmacEpReadv noAck ep iov srcAddr addr context)
  | .write destAddr addr context => issued p (sstmacEpWritev noAck ep iov destAddr addr context)
  | .trecv srcAddr tag ignore context =>
    received (p.trecvv sumi i iov srcAddr tag ignore context)
  | .tsend destAddr tag context => issued p (sstmacEpTsendv ep iov tag destAddr context)

/-- For one buffer the vector call is the scalar call; any other array is refused and nothing
happens. -/
def VectorIsScalar (c : Transfer) (iov : List Iovec) : Prop :=
  match iov with
  | [v] => c.vector noAck sumi p i ep [v] = c.scalar noAck sumi p i ep v
  | iov => c.vector noAck sumi p i ep iov = .ok (-fiEnosys, [], p)

end Calls

/-- A write that gets as far as the transport. -/
def Transfer.writes (ep : Ep) : Transfer → Bool
  | .write _ _ _ => ep.sendCq.isSome
  | _ => false

variable {noAck : BitVec 32} {sumi : Sumi} {p : Provider} {i : Nat} {ep : Ep}

/-- The flags of the request a call makes, if it makes one. -/
def requestFlags : Transferred → Option (BitVec 64)
  | .ok (_, r :: _, _) => some r.args.2.2.1
  | _ => none

/-- The flags of `write` and of `writev` differ in one bit, whatever else the endpoint adds. -/
theorem writeFlags_ne (ep : Ep) : ep.writeFlags 0 ≠ ep.writeFlags fiRemoteCqData := by
  unfold Ep.writeFlags
  cases hasFlag ep.opFlags fiRemoteWrite <;> decide

theorem writev_eq_write_iff (v : Iovec) (destAddr : FiAddr) (addr : BitVec 64) (context : Ptr) :
    issued p (sstmacEpWritev noAck ep [v] destAddr addr context) =
        issued p (sstmacEpWrite noAck ep v.base v.len destAddr addr context) ↔
      ep.sendCq.isSome = false := by
  unfold sstmacEpWritev sstmacEpWrite singleIovec sstmaciEpWrite
  cases ep.sendCq with
  | none => simp
  | some sendCq =>
      refine iff_of_false ?_ (by simp)
      intro h
      exact writeFlags_ne ep (Option.some.inj (congrArg requestFlags h))

/-- An array of more or fewer buffers than one. -/
theorem vector_of_length_ne_one (c : Transfer) {iov : List Iovec} (h : iov.length ≠ 1) :
    c.vector noAck sumi p i ep iov = .ok (-fiEnosys, [], p) := by
  match iov, h with
  | [], _ => cases c <;> rfl
  | _ :: _ :: _, _ => cases c <;> rfl

/-- One buffer. -/
theorem vector_one_iff (c : Transfer) (v : Iovec) :
    c.vector noAck sumi p i ep [v] = c.scalar noAck sumi p i ep v ↔ c.writes ep = false := by
  cases c with
  | recv srcAddr context => exact iff_of_true rfl rfl
  | send destAddr context => exact iff_of_true rfl rfl
  | read srcAddr addr context => exact iff_of_true rfl rfl
  | write destAddr addr context => exact writev_eq_write_iff v destAddr addr context
  | trecv srcAddr tag ignore context => exact iff_of_true rfl rfl
  | tsend destAddr tag context => exact iff_of_true rfl rfl

/-- **When a vector call is the scalar call.** For every endpoint, call and array: exactly if the call
is not a `writev` of one buffer on an endpoint with a send completion queue.  Such a call makes a request
without the flag `FI_REMOTE_CQ_DATA` that `write` sets. -/
theorem vector_is_scalar_iff (noAck : BitVec 32) (sumi : Sumi) (p : Provider) (i : Nat) (ep : Ep)
    (c : Transfer) (iov : List Iovec) :
    VectorIsScalar noAck sumi p i ep c iov ↔ ¬ (iov.length = 1 ∧ c.writes ep = true) := by
  match iov with
  | [] => exact iff_of_true (vector_of_length_ne_one c (by simp)) (by simp)
  | [v] =>
      have hone : c.vector noAck sumi p i ep [v] = c.scalar noAck sumi p i ep v ↔
          c.writes ep = false := vector_one_iff c v
      simpa [VectorIsScalar] using hone
  | _ :: _ :: _ => exact iff_of_true (vector_of_length_ne_one c (by simp)) (by simp)

/-- Eight bytes written to one address: the flags are `FI_WRITE` from `writev`, and `FI_WRITE` with
`FI_REMOTE_CQ_DATA` from `write`. -/
theorem writev_not_write :
    ¬ VectorIsScalar 0 copyingSumi {} 0 sampleEp (.write 0 0x500 0x200) [⟨0x100, 8⟩] ∧
      requestFlags (Transfer.vector 0 copyingSumi {} 0 sampleEp [⟨0x100, 8⟩] (.write 0 0x500 0x200)) =
        some fiWrite ∧
      requestFlags (Transfer.scalar 0 copyingSumi {} 0 sampleEp ⟨0x100, 8⟩ (.write 0 0x500 0x200)) =
        some (fiRemoteCqData ||| fiWrite) := by
  refine ⟨?_, by decide, by decide⟩
  intro h
  have hwrites := (vector_one_iff _ _).mp h
  cases hwrites

end SstTransports.Fabric
