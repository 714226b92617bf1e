/-
# SstTransports.Fabric.RecvQueue — the receive queue of a completion queue.

`RecvQueue` pairs posted receives with arriving messages.  It keeps four lists — receives that wait
for a message and messages that wait for a receive, tagged and untagged — and the progress queue
from which completions are read.  `postRecv` and `incoming` are its two operations.

The model follows `sstmac_cq.cc` statement by statement, with three things made explicit:

* the two tagged scans advance their iterator in the loop body and again in the loop header; the
  loop is `Lib.strideScan`, and running past `end()` is a fault;
* message objects are deleted while pointers to them may remain; reading a deleted message is a
  fault;
* `matchRecv` belongs to sumi, which is not part of this repository: what it makes of a message's
  local buffer is the parameter `Sumi`.

Besides the lists the state records, for the proofs only, the arguments of every `postRecv` call and
the effects of the calls in order; a pending node carries the number of the call that made it.  No
operation reads these.
-/
import SstTransports.Lib.Run
import SstTransports.Lib.Stride
import SstTransports.Fabric.Message
import Mathlib.Tactic.Simps.Basic

namespace SstTransports.Fabric

open SstTransports.Lib

/-! ## §1 — the state -/

/-- What ends a run without a next state. -/
inductive Fault
  | iteratorPastEnd
  | useAfterDelete
  | nullDereference
  | outOfBounds
  | badCast
  deriving DecidableEq, Repr

/-- What the receive path uses of sumi: `localBuffer()` after `matchRecv(buf)`, from the local
buffer before it. -/
structure Sumi where
  matchRecv : (localBuffer buf : Ptr) → Ptr

/-- `RecvQueue::Recv` -/
structure Recv where
  size : BitVec 32
  buf : Ptr
  deriving DecidableEq, Repr

/-- `RecvQueue::TaggedRecv` -/
structure TaggedRecv where
  size : BitVec 32
  buf : Ptr
  tag : BitVec 64
  tagIgnore : BitVec 64
  deriving DecidableEq, Repr

/-- The arguments of a `postRecv` call. -/
structure PostRecv where
  size : BitVec 32
  buf : Ptr
  tag : BitVec 64
  tagIgnore : BitVec 64
  tagged : Bool
  deriving DecidableEq, Repr

/-- A node of a pending list, stamped with the number of the `postRecv` call that made it. -/
structure Pending (α : Type) where
  node : α
  call : Nat
  deriving DecidableEq, Repr

/-- The node `recvs.emplace_back(size, buf)` makes in call number `call`. -/
def PostRecv.recv (p : PostRecv) (call : Nat) : Pending Recv :=
  ⟨⟨p.size, p.buf⟩, call⟩

/-- The node `tagged_recvs.emplace_back(size, buf, tag, tag_ignore)` makes in call number `call`. -/
def PostRecv.taggedRecv (p : PostRecv) (call : Nat) : Pending TaggedRecv :=
  ⟨⟨p.size, p.buf, p.tag, p.tagIgnore⟩, call⟩

structure RecvQueue where
  recvs : List (Pending Recv) := []
  taggedRecvs : List (Pending TaggedRecv) := []
  unexpRecvs : List FabricMessage := []
  unexpTaggedRecvs : List FabricMessage := []
  progress : List FabricMessage := []
  deriving DecidableEq, Repr

/-- What the operations do to the world outside the lists, and the entries into `finishMatch`. -/
inductive Effect
  | finishMatch (tagged : Bool) (call : Nat) (msg : FabricMessage)
  | matchRecv (msg : FabricMessage) (buf : Ptr)
  | progressIncoming (msg : FabricMessage) (call : Option Nat)
  | delete (msg : FabricMessage)
  deriving DecidableEq, Repr

/-- The queue, the message objects it refers to, and the record of the run. -/
structure State extends RecvQueue where
  /-- The message objects deleted so far. -/
  deleted : List FabricMessage := []
  /-- Local buffers that differ from the one a message arrived with, newest first. -/
  localBuffers : List (FabricMessage × Ptr) := []
  /-- Record: the arguments of the `postRecv` calls, in order. -/
  posts : List PostRecv := []
  /-- Record: the effects, in order. -/
  effects : List Effect := []
  deriving DecidableEq, Repr

namespace State

/-- `msg->localBuffer()` -/
def localBuffer (s : State) (msg : FabricMessage) : Ptr :=
  (s.localBuffers.lookup msg).getD msg.localBuffer

/-- `progress.incoming(msg)`: the progress queue appends. -/
@[simps] def progressIncoming (s : State) (msg : FabricMessage) (call : Option Nat) : State :=
  { s with
    progress := s.progress ++ [msg]
    effects := s.effects ++ [.progressIncoming msg call] }

/-- `msg->matchRecv(buf)` -/
def matchRecv (sumi : Sumi) (s : State) (msg : FabricMessage) (buf : Ptr) : State :=
  { s with
    localBuffers := (msg, sumi.matchRecv (s.localBuffer msg) buf) :: s.localBuffers
    effects := s.effects ++ [.matchRecv msg buf] }

/-- `delete msg` -/
def delete (s : State) (msg : FabricMessage) : State :=
  { s with
    deleted := s.deleted ++ [msg]
    effects := s.effects ++ [.delete msg] }

def enterFinishMatch (s : State) (tagged : Bool) (call : Nat) (msg : FabricMessage) : State :=
  { s with effects := s.effects ++ [.finishMatch tagged call msg] }

end State

/-! ## §2 — the operations -/

variable (sumi : Sumi)

/-- `size >= msg->payloadBytes()`, the 32-bit size widened to 64 bits. -/
def fits (size : BitVec 32) (msg : FabricMessage) : Bool :=
  msg.payloadBytes ≤ size.setWidth 64

/-- `buf && msg->localBuffer()` -/
def State.copies (s : State) (buf : Ptr) (msg : FabricMessage) : Bool :=
  buf != nullptr && s.localBuffer msg != nullptr

/-- The body of `finishMatch`, on a message that has not been deleted. -/
def State.finish (s : State) (tagged : Bool) (call : Nat) (buf : Ptr) (size : BitVec 32)
    (msg : FabricMessage) : State :=
  let s := s.enterFinishMatch tagged call msg
  if fits size msg then
    let s := if s.copies buf msg then s.matchRecv sumi msg buf else s
    s.progressIncoming msg (some call)
  else
    s.delete msg

/-- `RecvQueue::finishMatch`.  The kind and number of the receive are only recorded. -/
def finishMatch (s : State) (tagged : Bool) (call : Nat) (buf : Ptr) (size : BitVec 32)
    (msg : FabricMessage) : Except Fault State :=
  if msg ∈ s.deleted then .error .useAfterDelete
  else .ok (s.finish sumi tagged call buf size msg)

/-- `RecvQueue::matches` -/
def matchesTag (msg : FabricMessage) (tag ignore : BitVec 64) : Bool :=
  (msg.tag &&& ~~~ignore) == (tag &&& ~~~ignore)

/-- `matches` called on a message pointer. -/
def State.testTag (s : State) (msg : FabricMessage) (tag ignore : BitVec 64) :
    Except Fault Bool :=
  if msg ∈ s.deleted then .error .useAfterDelete
  else .ok (matchesTag msg tag ignore)

/-- The loop of `matchTaggedRecv`: `tmp` and `*tmp` at the match. -/
def State.scanTaggedRecvs (s : State) (msg : FabricMessage) :
    Except Fault (Option (Nat × Pending TaggedRecv)) :=
  strideScan .iteratorPastEnd (fun r => s.testTag msg r.node.tag r.node.tagIgnore) s.taggedRecvs

/-- The loop of `postRecv`: `tmp` and `*tmp` at the match. -/
def State.scanUnexpTaggedRecvs (s : State) (tag ignore : BitVec 64) :
    Except Fault (Option (Nat × FabricMessage)) :=
  strideScan .iteratorPastEnd (fun msg => s.testTag msg tag ignore) s.unexpTaggedRecvs

/-- `RecvQueue::matchTaggedRecv` -/
def matchTaggedRecv (s : State) (msg : FabricMessage) : Except Fault State := do
  match ← s.scanTaggedRecvs msg with
  | some (tmp, r) =>
    let s ← finishMatch sumi s true r.call r.node.buf r.node.size msg
    return { s with taggedRecvs := s.taggedRecvs.eraseIdx tmp }
  | none => return { s with unexpTaggedRecvs := s.unexpTaggedRecvs ++ [msg] }

/-- The tagged branch of `postRecv`.  A match does not take the message off `unexp_tagged_recvs`,
and an empty `unexp_tagged_recvs` does not return before the final `emplace_back`. -/
def postTaggedRecv (s : State) (p : PostRecv) (call : Nat) : Except Fault State := do
  if s.unexpTaggedRecvs.isEmpty then
    let s := { s with taggedRecvs := s.taggedRecvs ++ [p.taggedRecv call] }
    -- nothing matched
    return { s with taggedRecvs := s.taggedRecvs ++ [p.taggedRecv call] }
  else
    match ← s.scanUnexpTaggedRecvs p.tag p.tagIgnore with
    | some (_, msg) => finishMatch sumi s true call p.buf p.size msg
    | none =>
      -- nothing matched
      return { s with taggedRecvs := s.taggedRecvs ++ [p.taggedRecv call] }

/-- The untagged branch of `postRecv`. -/
def postUntaggedRecv (s : State) (p : PostRecv) (call : Nat) : Except Fault State :=
  match s.unexpRecvs with
  | [] => .ok { s with recvs := s.recvs ++ [p.recv call] }
  | msg :: rest => finishMatch sumi { s with unexpRecvs := rest } false call p.buf p.size msg

/-- Record a `postRecv` call; its number is the number of calls before it. -/
def State.recordPost (s : State) (p : PostRecv) : State :=
  { s with posts := s.posts ++ [p] }

/-- `RecvQueue::postRecv` -/
def postRecv (s : State) (p : PostRecv) : Except Fault State :=
  if p.tagged then postTaggedRecv sumi (s.recordPost p) p s.posts.length
  else postUntaggedRecv sumi (s.recordPost p) p s.posts.length

/-- `RecvQueue::incoming` -/
def incoming (s : State) (msg : FabricMessage) : Except Fault State :=
  if msg ∈ s.deleted then .error .useAfterDelete
  else if msg.isPostedSend then
    if msg.isTagged then
      matchTaggedRecv sumi s msg
    else
      match s.recvs with
      | [] => .ok { s with unexpRecvs := s.unexpRecvs ++ [msg] }
      | r :: _ => do
        let s ← finishMatch sumi s false r.call r.node.buf r.node.size msg
        return { s with recvs := s.recvs.tail }
  else
    -- all other messages go right through
    .ok (s.progressIncoming msg none)

/-! ## §3 — runs -/

inductive Action
  | postRecv (p : PostRecv)
  | incoming (msg : FabricMessage)
  deriving DecidableEq, Repr

def step (s : State) : Action → Except Fault State
  | .postRecv p => postRecv sumi s p
  | .incoming msg => incoming sumi s msg

/-- The receives posted by the actions of a run, in posting order. -/
def posted (as : List Action) : List PostRecv :=
  as.filterMap fun
    | .postRecv p => some p
    | .incoming _ => none

/-- The messages arriving in a run, in arrival order. -/
def arrivals (as : List Action) : List FabricMessage :=
  as.filterMap fun
    | .postRecv _ => none
    | .incoming msg => some msg

@[simp] theorem posted_nil : posted [] = [] := rfl

@[simp] theorem posted_snoc_postRecv (as : List Action) (p : PostRecv) :
    posted (as ++ [.postRecv p]) = posted as ++ [p] := by
  simp [posted]

@[simp] theorem posted_snoc_incoming (as : List Action) (msg : FabricMessage) :
    posted (as ++ [.incoming msg]) = posted as := by
  simp [posted]

@[simp] theorem arrivals_nil : arrivals [] = [] := rfl

theorem arrivals_append (as bs : List Action) : arrivals (as ++ bs) = arrivals as ++ arrivals bs :=
  List.filterMap_append

@[simp] theorem arrivals_snoc_postRecv (as : List Action) (p : PostRecv) :
    arrivals (as ++ [.postRecv p]) = arrivals as := by
  simp [arrivals]

@[simp] theorem arrivals_snoc_incoming (as : List Action) (msg : FabricMessage) :
    arrivals (as ++ [.incoming msg]) = arrivals as ++ [msg] := by
  simp [arrivals]

/-! ## §4 — sample traffic -/

/-- A `matchRecv` that makes the receive's buffer the message's local buffer. -/
def copyingSumi : Sumi := ⟨fun _ buf => buf⟩

/-- A tagged eight-byte message. -/
def sampleTaggedSend (addr : Nat) (tag : BitVec 64) : FabricMessage :=
  { addr := addr, type := .postedSend, payloadBytes := 8, byteLength := 8, localBuffer := 0x100,
    sender := 1, flags := fiTagged ||| fiSend, immData := FabricMessage.noImmData, tag := tag,
    context := 0x200 }

/-- An untagged eight-byte message. -/
def sampleSend (addr : Nat) : FabricMessage :=
  { sampleTaggedSend addr FabricMessage.noTag with flags := fiSend }

/-- A tagged receive of `size` bytes that ignores no tag bit. -/
def sampleTaggedPost (size : BitVec 32) (tag : BitVec 64) : PostRecv :=
  ⟨size, 0x1000, tag, 0, true⟩

/-- An untagged receive of `size` bytes. -/
def samplePost (size : BitVec 32) : PostRecv :=
  ⟨size, 0x1000, 0, BitVec.allOnes 64, false⟩

end SstTransports.Fabric
