/-
# SstTransports.Fabric.Reply — replying to the source address of a completion.

`sstmac_cq_readfrom` and `sstmac_cq_sreadfrom` write the source of every message they return into an
array, and the application may pass an element of it as the destination of a send.

What is written is the sender's rank as it is, not shifted into the rank field of an `fi_addr_t`, and
what is sent goes to the one rank the field macros report.  `reply_reaches_iff` has both: only rank
`0xFFFFFFFF` gets its replies, and besides it only rank 0 has its address in the right format.
-/
import SstTransports.Fabric.Endpoint

namespace SstTransports.Fabric

open SstTransports.Lib

/-! ## §1 — reading with source addresses -/

/-- A batch: the messages `front` returned, and the addresses written for them. -/
structure Batch where
  taken : List FabricMessage
  srcAddrs : List FiAddr
  deriving DecidableEq, Repr

/-- What a read of the queue `s` got without waiting. -/
def CqRead.batch (s : State) (r : CqRead) : Batch :=
  ⟨s.progress.take r.entries.length, r.srcAddrs⟩

/-- A read, with an array for the addresses.  A blocking one may wait several times before its batch
is full; `waits` is what happens to the queue each time, until it returns. -/
inductive ReadFrom
  | readfrom
  | sreadfrom (timeout : Int) (waits : List (List Action))
  deriving DecidableEq, Repr

/-- The loop of `sstmac_cq_sreadfrom`, with `count` messages to go, across its waits. -/
def sreadfromAcross (sumi : Sumi) (format : CqFormat) (timeout : Int) :
    (count : Nat) → State → (waits : List (List Action)) → Except Fault Batch
  | count, s, [] => do
    let r ← sstmacCqSreadfrom format s count true timeout
    return r.batch s
  | count, s, as :: waits => do
    let r ← sstmacCqSreadfrom format s count true timeout
    let woken ← run (step sumi) r.queue as
    let rest ← sreadfromAcross sumi format timeout (count - r.entries.length) woken waits
    return ⟨(r.batch s).taken ++ rest.taken, (r.batch s).srcAddrs ++ rest.srcAddrs⟩

def ReadFrom.read (sumi : Sumi) (format : CqFormat) (s : State) (count : Nat) :
    ReadFrom → Except Fault Batch
  | .readfrom => do
    let r ← sstmacCqReadfrom format s count true
    return r.batch s
  | .sreadfrom timeout waits => sreadfromAcross sumi format timeout count s waits

/-! ## §2 — what is written -/

variable {sumi : Sumi} {format : CqFormat} {s : State} {count : Nat}

theorem batch_srcAddrs {blocking : Bool} {timeout : Int} {r : CqRead}
    (h : sstmaciCqRead blocking format s count true timeout = .ok r) :
    (r.batch s).srcAddrs = (r.batch s).taken.map (·.sender.signExtend 64) := by
  obtain ⟨taken, hsplit, -, hentries, haddrs⟩ := cqReadLoop_ok h
  have htaken : s.progress.take r.entries.length = taken := by
    rw [hsplit, hentries, List.length_map, List.take_left]
  simpa [CqRead.batch, htaken] using haddrs

theorem sreadfromAcross_srcAddrs {timeout : Int} {waits : List (List Action)} {b : Batch}
    (h : sreadfromAcross sumi format timeout count s waits = .ok b) :
    b.srcAddrs = b.taken.map (·.sender.signExtend 64) := by
  induction waits generalizing count s b with
  | nil =>
      obtain ⟨r, hr, h⟩ := bind_eq_ok.mp h
      cases h
      exact batch_srcAddrs hr
  | cons as waits ih =>
      obtain ⟨r, hr, h⟩ := bind_eq_ok.mp h
      obtain ⟨woken, -, h⟩ := bind_eq_ok.mp h
      obtain ⟨rest, hrest, h⟩ := bind_eq_ok.mp h
      cases h
      rw [List.map_append, batch_srcAddrs hr, ih hrest]

/-- The address of a message is its sender, widened to 64 bits with its sign. -/
theorem read_srcAddrs {call : ReadFrom} {b : Batch} (h : call.read sumi format s count = .ok b) :
    b.srcAddrs = b.taken.map (·.sender.signExtend 64) := by
  cases call with
  | readfrom =>
      obtain ⟨r, hr, h⟩ := bind_eq_ok.mp h
      cases h
      exact batch_srcAddrs hr
  | sreadfrom timeout waits => exact sreadfromAcross_srcAddrs h

/-! ## §3 — what a reply does with it -/

/-- The address has the provider's format, with this rank. -/
def InFormat (addr : FiAddr) (rank : BitVec 32) : Prop := ∃ cq queue, addr = packAddr rank cq queue

/-- Whatever is sent to the address goes to this rank. -/
def Reaches (ep : Ep) (addr : FiAddr) (rank : BitVec 32) : Prop :=
  ∀ buf len context tag data flags,
    requestRank (sstmaciEpSend ep buf len addr context tag data flags) = some rank

theorem reaches_iff (ep : Ep) (addr : FiAddr) (rank : BitVec 32) :
    Reaches ep addr rank ↔ ep.sendCq ≠ none ∧ rank = BitVec.allOnes 32 := by
  unfold Reaches sstmaciEpSend
  rw [setWidth_addrRank]
  cases ep.sendCq with
  | none => simp [requestRank]
  | some sendCq => simp [requestRank, eq_comm]

/-- A raw rank is an address of that rank only if all its bits are its sign. -/
theorem inFormat_signExtend_iff (rank : BitVec 32) :
    InFormat (rank.signExtend 64) rank ↔ rank = 0 ∨ rank = BitVec.allOnes 32 := by
  constructor
  · rintro ⟨cq, queue, h⟩
    have hbits : ∀ i < 32, rank.getLsbD i = rank.msb := by
      intro i hi
      -- bit `32 + i` is in the rank field of the one and in the extension of the other
      have hbit := congrArg (BitVec.getLsbD · (32 + i)) h
      simp only [packAddr, addrRankBits, addrCqBits, addrQueueBits, BitVec.getLsbD_signExtend,
        BitVec.getLsbD_or, BitVec.getLsbD_shiftLeft, BitVec.getLsbD_setWidth] at hbit
      have hcq : cq.getLsbD (32 + i - 16) = false := BitVec.getLsbD_of_ge _ _ (by omega)
      have hqueue : queue.getLsbD (32 + i) = false := BitVec.getLsbD_of_ge _ _ (by omega)
      have hlow : ¬ 32 + i < 32 := by omega
      have hfield : 32 + i < 64 ∧ i < 64 := by omega
      simpa [hcq, hqueue, hlow, hfield.1, hfield.2] using hbit.symm
    cases hsign : rank.msb with
    | false =>
        left
        apply BitVec.eq_of_getLsbD_eq
        intro i hi
        rw [hbits i hi, hsign]
        simp
    | true =>
        right
        apply BitVec.eq_of_getLsbD_eq
        intro i hi
        rw [hbits i hi, hsign, BitVec.getLsbD_allOnes]
        simp [hi]
  · rintro (rfl | rfl)
    · exact ⟨0, 0, by decide⟩
    · exact ⟨BitVec.allOnes 16, BitVec.allOnes 16, by decide⟩

/-- **Who gets a reply.** For every message of a batch, at its index: a reply to its source address
reaches its sender exactly if that is rank `0xFFFFFFFF` and the endpoint can send at all, and the
address has the provider's format exactly if the sender is rank 0 or that rank. -/
theorem reply_reaches_iff (sumi : Sumi) (format : CqFormat) (rq : State) (count : Nat)
    (call : ReadFrom) (ep : Ep) (b : Batch) (hread : call.read sumi format rq count = .ok b)
    (k : Nat) (m : FabricMessage) (hm : b.taken[k]? = some m) :
    ((∃ addr, b.srcAddrs[k]? = some addr ∧ InFormat addr m.sender ∧ Reaches ep addr m.sender) ↔
        ep.sendCq ≠ none ∧ m.sender = BitVec.allOnes 32) ∧
      ((∃ addr, b.srcAddrs[k]? = some addr ∧ InFormat addr m.sender) ↔
        m.sender = 0 ∨ m.sender = BitVec.allOnes 32) := by
  have haddr : b.srcAddrs[k]? = some (m.sender.signExtend 64) := by
    rw [read_srcAddrs hread, List.getElem?_map, hm]
    rfl
  simp only [haddr, Option.some.injEq, exists_eq_left', reaches_iff, inFormat_signExtend_iff,
    and_true]
  constructor
  · rintro ⟨-, hreaches⟩
    exact hreaches
  · intro hreaches
    exact ⟨Or.inr hreaches.2, hreaches⟩

/-- A message from the given rank, and a queue with its completion. -/
def sampleFrom (rank : BitVec 32) : FabricMessage := { sampleSend 0 with sender := rank }

def sampleUnread (rank : BitVec 32) : State := { progress := [sampleFrom rank] }

theorem reply_reaches_iff_last :
    ∃ addr, [BitVec.allOnes 64][0]? = some addr ∧ InFormat addr (BitVec.allOnes 32) ∧
      Reaches sampleEp addr (BitVec.allOnes 32) :=
  (reply_reaches_iff copyingSumi .context (sampleUnread (BitVec.allOnes 32)) 4 .readfrom sampleEp
    ⟨[sampleFrom (BitVec.allOnes 32)], [BitVec.allOnes 64]⟩ (by decide) 0
    (sampleFrom (BitVec.allOnes 32)) rfl).1.mpr ⟨by decide, rfl⟩

/-- The reply to a message from rank 3 goes elsewhere, and not even the address is one of rank 3. -/
theorem reply_misses_rank3 :
    ReadFrom.readfrom.read copyingSumi .context (sampleUnread 3) 4 = .ok ⟨[sampleFrom 3], [3]⟩ ∧
      ¬ InFormat 3 3 ∧ ¬ Reaches sampleEp 3 3 := by
  refine ⟨by decide, ?_, ?_⟩
  · rw [show (3 : FiAddr) = (3 : BitVec 32).signExtend 64 by decide, inFormat_signExtend_iff]
    decide
  · rw [reaches_iff]
    decide

end SstTransports.Fabric
