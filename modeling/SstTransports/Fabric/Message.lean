/-
# SstTransports.Fabric.Message — the message objects of the libfabric provider.

A `FabricMessage` is a `sumi::Message` with the four values the provider adds to it.  Of the sumi
part only what the provider reads is here.  The receive path holds messages by pointer, so two
messages with the same contents are still two objects: `addr` tells them apart, and equality of
`FabricMessage` values is identity of objects.  No field below is written after construction by
code of this repository; what does change during a message's life — its local buffer, and whether
it has been deleted — belongs to the state of the queue that holds it
(`SstTransports.Fabric.RecvQueue`).
-/
import Mathlib.Data.BitVec

namespace SstTransports.Fabric

/-! ## §1 — machine values -/

/-- A pointer of the simulated application. -/
abbrev Ptr := BitVec 64

def nullptr : Ptr := 0

-- `rdma/fabric.h`: the capability and operation flags the modelled functions use.
def fiTagged : BitVec 64 := 1 <<< 3
def fiRead : BitVec 64 := 1 <<< 8
def fiWrite : BitVec 64 := 1 <<< 9
def fiSend : BitVec 64 := 1 <<< 11
def fiRemoteRead : BitVec 64 := 1 <<< 12
def fiRemoteWrite : BitVec 64 := 1 <<< 13
def fiRemoteCqData : BitVec 64 := 1 <<< 17

/-- The C test `flags & bit`. -/
def hasFlag (flags bit : BitVec 64) : Bool := flags &&& bit != 0

/-! ## §2 — messages -/

/-- `sstmac::hw::NetworkMessage::type()`, as far as this repository names its values. -/
inductive NetworkMessageType
  | postedSend
  | rdmaGetPayload
  | rdmaPutPayload
  | payloadSentAck
  | rdmaGetSentAck
  | rdmaPutSentAck
  | other (code : Nat)
  deriving DecidableEq, Repr

/-- The part of a message that sumi makes: `sumi::Message(args...)`. -/
structure SumiMessage where
  addr : Nat
  type : NetworkMessageType
  payloadBytes : BitVec 64
  byteLength : BitVec 64
  localBuffer : Ptr
  sender : BitVec 32
  deriving DecidableEq, Repr

structure FabricMessage extends SumiMessage where
  flags : BitVec 64
  immData : BitVec 64
  tag : BitVec 64
  context : Ptr
  deriving DecidableEq, Repr

namespace FabricMessage

def noTag : BitVec 64 := BitVec.allOnes 64

def noImmData : BitVec 64 := BitVec.allOnes 64

/-- The constructor, with its parameters in the order of the source: tag, flags, immediate data,
context, and then whatever `sumi::Message` is built from. -/
def construct (tag flags immData : BitVec 64) (ctx : Ptr) (base : SumiMessage) : FabricMessage :=
  { base with tag := tag, flags := flags, immData := immData, context := ctx }

/-- `flags() & FI_TAGGED` -/
def isTagged (msg : FabricMessage) : Bool := hasFlag msg.flags fiTagged

/-- `NetworkMessage::type() == posted_send` -/
def isPostedSend (msg : FabricMessage) : Bool := msg.type == .postedSend

/-- The messages the tagged lists are for: tagged posted sends. -/
def isTaggedSend (msg : FabricMessage) : Bool := msg.isPostedSend && msg.isTagged

/-- The messages the untagged lists are for: untagged posted sends. -/
def isUntaggedSend (msg : FabricMessage) : Bool := msg.isPostedSend && !msg.isTagged

end FabricMessage

end SstTransports.Fabric
