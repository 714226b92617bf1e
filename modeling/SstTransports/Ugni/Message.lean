/-
# SstTransports.Ugni.Message — the message objects and descriptors of the uGNI library.

A message of the library is a `sumi::Message` with what `GNIMessage` adds to it, and is either an
RDMA message, which remembers the descriptor it was posted with, or a short message, which carries a
tag.  Messages are held by pointer: `addr` tells two objects with equal contents apart, so equality
of values is identity of objects.
-/
import SstTransports.Fabric.Message

namespace SstTransports.Ugni

open SstTransports.Fabric (Ptr nullptr)

/-! ## §1 — messages -/

/-- `sstmac::hw::NetworkMessage::type()`: the values the switch in `GNIMessage::data` lists. -/
inductive NetworkMessageType
  | smsgSend
  | postedSend
  | rdmaGetPayload
  | rdmaPutPayload
  | nullNetmsgType
  | nvramGetRequest
  | nvramGetPayload
  | failureNotification
  | rdmaGetRequest
  | rdmaGetSentAck
  | rdmaGetNack
  | rdmaPutSentAck
  | rdmaPutNack
  | payloadSentAck
  deriving DecidableEq, Repr

/-- `gni_post_type_t` -/
inductive PostType
  | rdmaPut
  | rdmaGet
  | fmaPut
  | fmaPutWSyncflag
  | fmaGet
  | amo
  | cqwrite
  | ce
  | fmaGetWFlag
  | amoWFlag
  deriving DecidableEq, Repr

/-- The part of a message that sumi makes: `sumi::Message(args...)`. -/
structure SumiMessage where
  addr : Nat
  networkType : NetworkMessageType
  byteLength : BitVec 64
  localBuffer : Ptr
  remoteBuffer : Ptr
  deriving DecidableEq, Repr

structure GniMessage extends SumiMessage where
  instId : BitVec 64
  type : PostType
  msgId : BitVec 64
  deriving DecidableEq, Repr

/-- `GNIRdmaMessage`; `pd` is the address of the descriptor it was posted with. -/
structure GniRdmaMessage extends GniMessage where
  pd : Ptr
  firstOp : BitVec 64
  secondOp : BitVec 64
  syncFlagValue : BitVec 64
  syncFlagAddr : BitVec 64
  cqwriteVal : BitVec 64
  deriving DecidableEq, Repr

/-- `GNISmsgMessage`; the tag is an `int`. -/
structure GniSmsgMessage extends GniMessage where
  tag : BitVec 32
  deriving DecidableEq, Repr

/-- What a completion queue holds: a `sumi::Message*` that points to one of the two classes. -/
inductive Event
  | rdma (msg : GniRdmaMessage)
  | smsg (msg : GniSmsgMessage)
  deriving DecidableEq, Repr

namespace Event

def networkType : Event → NetworkMessageType
  | rdma msg => msg.networkType
  | smsg msg => msg.networkType

/-- `dynamic_cast<GNISmsgMessage*>(msg)` -/
def asSmsg : Event → Option GniSmsgMessage
  | rdma _ => none
  | smsg msg => some msg

end Event

/-! ## §2 — descriptors and endpoints -/

/-- `gni_post_descriptor_t`, with the fields the library reads or writes; `remoteMemHndl` is the
handle's only field, `cq_handle`. -/
structure PostDescriptor where
  type : PostType
  cqMode : BitVec 16
  localAddr : BitVec 64
  remoteAddr : BitVec 64
  remoteMemHndl : BitVec 32
  length : BitVec 64
  srcCqHndl : BitVec 32
  syncFlagValue : BitVec 64
  syncFlagAddr : BitVec 64
  firstOperand : BitVec 64
  secondOperand : BitVec 64
  cqwriteValue : BitVec 64
  deriving DecidableEq, Repr

/-- `gni_ep_t`; endpoints are held by pointer, and `handle` is that pointer. -/
structure Ep where
  handle : Nat
  epId : BitVec 32
  cqId : BitVec 32
  deriving DecidableEq, Repr

/-- The values of `gni_return_t` the modelled functions return. -/
inductive GniReturn
  | success
  | notDone
  | invalidParam
  | invalidState
  | noMatch
  deriving DecidableEq, Repr

/-- How a call can fail to return: the undefined behaviour of the source. -/
inductive Fault
  | nullDereference
  | outOfBounds
  | signedOverflow
  | badCast
  deriving DecidableEq, Repr

end SstTransports.Ugni
