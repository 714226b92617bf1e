/-
# SstTransports.Fabric.CompletionQueue — completion entries and how they are read.

`sstmaciCqRead` takes messages off the progress queue and writes one entry for each, in the format
of the completion queue.  Of the progress queue's `front(blocking, timeout)`, which belongs to
sstmac, it uses that it removes and returns the oldest message, that on an empty queue it returns
null if it may not block, and that otherwise the caller waits.
-/
import SstTransports.Fabric.RecvQueue

namespace SstTransports.Fabric

open SstTransports.Lib

-- `rdma/fi_errno.h`: the error codes the modelled functions return.
def fiEagain : Int := 11
def fiEinval : Int := 22
def fiEnosys : Int := 38

/-! ## §1 — entries -/

/-- `enum fi_cq_format`; an attribute may hold a value outside the enumeration. -/
inductive CqFormat
  | unspec
  | context
  | msg
  | data
  | tagged
  | other (code : Nat)
  deriving DecidableEq, Repr

/-- `fi_cq_entry`, `fi_cq_msg_entry`, `fi_cq_data_entry` and `fi_cq_tagged_entry`. -/
inductive CqEntry
  | context (opContext : Ptr)
  | msg (opContext : Ptr) (flags len : BitVec 64)
  | data (opContext : Ptr) (flags len : BitVec 64) (buf : Ptr) (data : BitVec 64)
  | tagged (opContext : Ptr) (flags len : BitVec 64) (buf : Ptr) (data tag : BitVec 64)
  deriving DecidableEq, Repr

namespace CqEntry

def opContext : CqEntry → Ptr
  | context c => c
  | msg c _ _ => c
  | data c _ _ _ _ => c
  | tagged c _ _ _ _ _ => c

/-- The buffer and the length, in the formats that have both. -/
def bufLen : CqEntry → Option (Ptr × BitVec 64)
  | context _ => none
  | msg _ _ _ => none
  | data _ _ len buf _ => some (buf, len)
  | tagged _ _ len buf _ _ => some (buf, len)

end CqEntry

/-- `sstmaci_fill_cq_entry`: the entry it writes, with `localBuffer` for `msg->localBuffer()`.
Outside the enumeration nothing is written. -/
def sstmaciFillCqEntry (format : CqFormat) (localBuffer : Ptr) (msg : FabricMessage) :
    Option CqEntry :=
  match format with
  | .unspec => some (.context msg.context)
  | .context => some (.context msg.context)
  | .msg => some (.msg msg.context msg.flags msg.byteLength)
  | .data => some (.data msg.context msg.flags msg.byteLength localBuffer msg.immData)
  | .tagged => some (.tagged msg.context msg.flags msg.byteLength localBuffer msg.immData msg.tag)
  | .other _ => none

/-- Every entry reports the message's own context, and a buffer only together with its length. -/
theorem fill_opContext {format : CqFormat} {localBuffer : Ptr} {msg : FabricMessage}
    {entry : CqEntry} (h : sstmaciFillCqEntry format localBuffer msg = some entry) :
    entry.opContext = msg.context := by
  cases format <;> simp only [sstmaciFillCqEntry, Option.some.injEq, reduceCtorEq] at h <;>
    rw [← h, CqEntry.opContext]

theorem fill_bufLen {format : CqFormat} {localBuffer : Ptr} {msg : FabricMessage}
    {entry : CqEntry} {x : Ptr × BitVec 64}
    (h : sstmaciFillCqEntry format localBuffer msg = some entry) (hx : entry.bufLen = some x) :
    (format = .data ∨ format = .tagged) ∧ x = (localBuffer, msg.byteLength) := by
  cases format with
  | unspec =>
      cases h
      cases hx
  | context =>
      cases h
      cases hx
  | msg =>
      cases h
      cases hx
  | data =>
      cases h
      cases hx
      exact ⟨Or.inl rfl, rfl⟩
  | tagged =>
      cases h
      cases hx
      exact ⟨Or.inr rfl, rfl⟩
  | other code => cases h

/-! ## §2 — reading -/

/-- What a read has done by the time it returns, or waits. -/
structure CqRead where
  queue : State
  /-- One element a round: the entry, if one was written. -/
  entries : List (Option CqEntry) := []
  srcAddrs : List (BitVec 64) := []
  /-- The caller waits in `front`, for at most the given milliseconds if there are any. -/
  waiting : Option (Option Int) := none
  deriving DecidableEq, Repr

/-- `return done ? done : -FI_EAGAIN` -/
def CqRead.ret (r : CqRead) : Int :=
  if r.entries.isEmpty then -fiEagain else r.entries.length

/-- The loop of `sstmaci_cq_read`, with `count` rounds to go. -/
def cqReadLoop (format : CqFormat) (blocking : Bool) (srcAddr : Bool) (timeout : Int) :
    (count : Nat) → State → Except Fault CqRead
  | 0, s => .ok { queue := s }
  | count + 1, s =>
    match s.progress with
    | [] =>
      if blocking then
        .ok { queue := s, waiting := some (if 0 < timeout then some timeout else none) }
      else .ok { queue := s }
    | msg :: rest =>
      if msg ∈ s.deleted then .error .useAfterDelete
      else do
        let r ← cqReadLoop format blocking srcAddr timeout count { s with progress := rest }
        return { r with
          entries := sstmaciFillCqEntry format (s.localBuffer msg) msg :: r.entries
          srcAddrs := if srcAddr then msg.sender.signExtend 64 :: r.srcAddrs else r.srcAddrs }

/-- `sstmaci_cq_read`; `srcAddr` tells whether the caller passed an array for the addresses. -/
def sstmaciCqRead (blocking : Bool) (format : CqFormat) (s : State) (count : Nat) (srcAddr : Bool)
    (timeout : Int) : Except Fault CqRead :=
  cqReadLoop format blocking srcAddr timeout count s

/-- `sstmac_cq_read` -/
def sstmacCqRead (format : CqFormat) (s : State) (count : Nat) : Except Fault CqRead :=
  sstmaciCqRead false format s count false (-1)

/-- `sstmac_cq_readfrom` -/
def sstmacCqReadfrom (format : CqFormat) (s : State) (count : Nat) (srcAddr : Bool) :
    Except Fault CqRead :=
  sstmaciCqRead false format s count srcAddr (-1)

/-- `sstmac_cq_sread` -/
def sstmacCqSread (format : CqFormat) (s : State) (count : Nat) (timeout : Int) :
    Except Fault CqRead :=
  sstmaciCqRead true format s count false timeout

/-- `sstmac_cq_sreadfrom` -/
def sstmacCqSreadfrom (format : CqFormat) (s : State) (count : Nat) (srcAddr : Bool)
    (timeout : Int) : Except Fault CqRead :=
  sstmaciCqRead true format s count srcAddr timeout

/-- **What a read returns.** The messages it takes are the first ones of the progress queue, in
order, with an entry and, if asked for, a source address for each; nothing else of the queue
changes. -/
theorem cqReadLoop_ok {format : CqFormat} {blocking srcAddr : Bool} {timeout : Int} {count : Nat}
    {s : State} {r : CqRead} (h : cqReadLoop format blocking srcAddr timeout count s = .ok r) :
    ∃ taken, s.progress = taken ++ r.queue.progress ∧
      r.queue = { s with progress := r.queue.progress } ∧
      (r.entries = taken.map fun m => sstmaciFillCqEntry format (s.localBuffer m) m) ∧
      r.srcAddrs = if srcAddr then taken.map (·.sender.signExtend 64) else [] := by
  induction count generalizing s r with
  | zero =>
      cases h
      exact ⟨[], rfl, rfl, rfl, by simp⟩
  | succ count ih =>
      unfold cqReadLoop at h
      split at h
      · by_cases hblocking : blocking = true
        · rw [if_pos hblocking] at h
          cases h
          exact ⟨[], rfl, rfl, rfl, by simp⟩
        · rw [if_neg hblocking] at h
          cases h
          exact ⟨[], rfl, rfl, rfl, by simp⟩
      · rename_i msg rest hprogress
        by_cases hdeleted : msg ∈ s.deleted
        · rw [if_pos hdeleted] at h
          cases h
        rw [if_neg hdeleted] at h
        obtain ⟨r', hrest, hret⟩ := bind_eq_ok.mp h
        obtain ⟨taken, hsplit, hqueue, hentries, haddrs⟩ := ih hrest
        cases hret
        refine ⟨msg :: taken, ?_, ?_, ?_, ?_⟩
        · rw [hprogress, List.cons_append]
          exact congrArg (msg :: ·) hsplit
        · exact hqueue
        · rw [List.map_cons, hentries]
          rfl
        · cases srcAddr with
          | true => simp [haddrs]
          | false => simp [haddrs]

end SstTransports.Fabric
