/-
# SstTransports.Fabric.Drain — reading a completion queue empty.

`SstTransports.Fabric.CompletionQueue` says which entries a read makes.  Here they go where they are
to go: `sstmaci_fill_cq_entry` writes its entry through a pointer and returns the pointer past it, with
which the next round of `sstmaci_cq_read` goes on, while `src_addr` is indexed by the number of rounds.
`cqReadInto_eq` connects the two levels.

* `reads_drain_fifo`: non-blocking reads hand out the completions in order, each once, however they are
  split into calls, and write nothing but their entries.  What an entry is to say is read off the entry
  structs of the interface: `CqFormat.members` and `CompletionField.value`.
* `sread_agrees_iff`: a blocking read does what a non-blocking one does only if it asks for no more
  than there is, since it goes on to wait for the rest.
-/
import SstTransports.Lib.Memory
import SstTransports.Fabric.CompletionQueue

namespace SstTransports.Fabric

open SstTransports.Lib

/-! ## §1 — entries in memory -/

/-- The 64-bit words of an entry, in the order of its struct. -/
def CqEntry.words : CqEntry → List (BitVec 64)
  | context opContext => [opContext]
  | msg opContext flags len => [opContext, flags, len]
  | data opContext flags len buf imm => [opContext, flags, len, buf, imm]
  | tagged opContext flags len buf imm tag => [opContext, flags, len, buf, imm, tag]

/-- The size of the format's entry type, in words. -/
def CqFormat.entryWords : CqFormat → Nat
  | .unspec => 1
  | .context => 1
  | .msg => 3
  | .data => 5
  | .tagged => 6
  | .other _ => 0

/-- What a caller of a read has the entries and the addresses written to. -/
structure CallerMemory where
  words : Memory (BitVec 64)
  srcAddrs : Memory (BitVec 64)

/-- `sstmaci_fill_cq_entry`, with the entry at `buf`: the memory, and the pointer past the entry.
Outside the enumeration the pointer is null. -/
def sstmaciFillCqEntryAt (format : CqFormat) (localBuffer : Ptr) (words : Memory (BitVec 64))
    (buf : Option Nat) (msg : FabricMessage) : Except Fault (Memory (BitVec 64) × Option Nat) :=
  match sstmaciFillCqEntry format localBuffer msg with
  | none => .ok (words, none)
  | some entry =>
    match buf with
    | none => .error .nullDereference
    | some buf => .ok (store words buf entry.words, some (buf + entry.words.length))

/-- What a read has done by the time it returns, or waits. -/
structure ReadInto where
  queue : State
  memory : CallerMemory
  done : Nat
  waiting : Option (Option Int)

/-- `return done ? done : -FI_EAGAIN` -/
def ReadInto.ret (r : ReadInto) : Int := if r.done = 0 then -fiEagain else r.done

/-- `if (src_addr) src_addr[done] = msg->sender()` -/
def CallerMemory.setSrcAddr (memory : CallerMemory) (srcAddr : Option Nat) (done : Nat)
    (sender : BitVec 32) : CallerMemory :=
  match srcAddr with
  | none => memory
  | some base => { memory with srcAddrs := store memory.srcAddrs (base + done) [sender.signExtend 64] }

/-- The loop of `sstmaci_cq_read`, with `todo` rounds to go after `done` rounds. -/
def cqReadInto (format : CqFormat) (blocking : Bool) (srcAddr : Option Nat) (timeout : Int) :
    (todo done : Nat) → (buf : Option Nat) → CallerMemory → State → Except Fault ReadInto
  | 0, done, _, memory, s => .ok ⟨s, memory, done, none⟩
  | todo + 1, done, buf, memory, s =>
    match s.progress with
    | [] =>
      if blocking then .ok ⟨s, memory, done, some (if 0 < timeout then some timeout else none)⟩
      else .ok ⟨s, memory, done, none⟩
    | msg :: rest =>
      if msg ∈ s.deleted then .error .useAfterDelete
      else do
        let memory := memory.setSrcAddr srcAddr done msg.sender
        let (words, buf) ←
          sstmaciFillCqEntryAt format (s.localBuffer msg) memory.words buf msg
        cqReadInto format blocking srcAddr timeout todo (done + 1) buf
          { memory with words := words } { s with progress := rest }

/-- `sstmaci_cq_read` into `buf` and `src_addr`. -/
def sstmaciCqReadInto (blocking : Bool) (format : CqFormat) (s : State) (buf : Nat) (count : Nat)
    (srcAddr : Option Nat) (timeout : Int) (memory : CallerMemory) : Except Fault ReadInto :=
  cqReadInto format blocking srcAddr timeout count 0 (some buf) memory s

/-- `sstmac_cq_read` -/
def sstmacCqReadInto (format : CqFormat) (s : State) (buf count : Nat) (memory : CallerMemory) :
    Except Fault ReadInto :=
  sstmaciCqReadInto false format s buf count none (-1) memory

/-- `sstmac_cq_readfrom` -/
def sstmacCqReadfromInto (format : CqFormat) (s : State) (buf count : Nat) (srcAddr : Option Nat)
    (memory : CallerMemory) : Except Fault ReadInto :=
  sstmaciCqReadInto false format s buf count srcAddr (-1) memory

/-! ## §2 — the two levels -/

/-- The words a round writes. -/
def entryWords (entry : Option CqEntry) : List (BitVec 64) := (entry.map CqEntry.words).getD []

theorem length_entryWords (format : CqFormat) (localBuffer : Ptr) (msg : FabricMessage) :
    (entryWords (sstmaciFillCqEntry format localBuffer msg)).length = format.entryWords := by
  cases format <;> rfl

/-- What a read leaves in the caller's memory. -/
def CallerMemory.written (memory : CallerMemory) (buf : Nat) (srcAddr : Option Nat) (done : Nat)
    (entries : List (Option CqEntry)) (senders : List (BitVec 64)) : CallerMemory where
  words := store memory.words buf (entries.flatMap entryWords)
  srcAddrs :=
    match srcAddr with
    | none => memory.srcAddrs
    | some base => store memory.srcAddrs (base + done) senders

@[simp] theorem written_nil (memory : CallerMemory) (buf : Nat) (srcAddr : Option Nat) (done : Nat) :
    memory.written buf srcAddr done [] [] = memory := by
  cases srcAddr <;> rfl

/-- One round of writing. -/
theorem written_cons (memory : CallerMemory) (buf : Nat) (srcAddr : Option Nat) (done : Nat)
    (entry : Option CqEntry) (entries : List (Option CqEntry)) (sender : BitVec 32)
    (senders : List (BitVec 64)) :
    memory.written buf srcAddr done (entry :: entries)
        (if srcAddr.isSome then sender.signExtend 64 :: senders else senders) =
      CallerMemory.written
        { memory.setSrcAddr srcAddr done sender with
          words := store memory.words buf (entryWords entry) }
        (buf + (entryWords entry).length) srcAddr (done + 1) entries senders := by
  unfold CallerMemory.written
  rw [List.flatMap_cons, store_append]
  cases srcAddr with
  | none => rfl
  | some base => rfl

@[simp] theorem setSrcAddr_words (memory : CallerMemory) (srcAddr : Option Nat) (done : Nat)
    (sender : BitVec 32) : (memory.setSrcAddr srcAddr done sender).words = memory.words := by
  cases srcAddr <;> rfl

/-- Where no entry has a word it does not matter where they are written. -/
theorem written_of_no_words {entries : List (Option CqEntry)}
    (h : ∀ e ∈ entries, entryWords e = []) (memory : CallerMemory) (buf buf' : Nat)
    (srcAddr : Option Nat) (done : Nat) (senders : List (BitVec 64)) :
    memory.written buf srcAddr done entries senders =
      memory.written buf' srcAddr done entries senders := by
  have hnone : entries.flatMap entryWords = [] := List.flatMap_eq_nil_iff.mpr h
  unfold CallerMemory.written
  rw [hnone]
  rfl

theorem fill_eq_none_iff {format : CqFormat} {localBuffer : Ptr} {msg : FabricMessage} :
    sstmaciFillCqEntry format localBuffer msg = none ↔ format.entryWords = 0 := by
  cases format <;> simp [sstmaciFillCqEntry, CqFormat.entryWords]

/-- Outside the enumeration a read writes no word. -/
theorem entryWords_of_cqReadLoop {format : CqFormat} {blocking srcAddr : Bool} {timeout : Int}
    {count : Nat} {s : State} {r : CqRead} (hformat : format.entryWords = 0)
    (h : cqReadLoop format blocking srcAddr timeout count s = .ok r) :
    ∀ e ∈ r.entries, entryWords e = [] := by
  obtain ⟨taken, -, -, hentries, -⟩ := cqReadLoop_ok h
  rw [hentries]
  intro e he
  obtain ⟨m, -, rfl⟩ := List.mem_map.mp he
  rw [fill_eq_none_iff.mpr hformat]
  rfl

/-- One round: the entry is written, and the pointer is past it, if there is an entry at all. -/
theorem fillCqEntryAt_ok {format : CqFormat} {buf : Option Nat}
    (hbuf : buf = none → format.entryWords = 0) (localBuffer : Ptr) (words : Memory (BitVec 64))
    (msg : FabricMessage) :
    ∃ next, sstmaciFillCqEntryAt format localBuffer words buf msg =
        .ok (store words (buf.getD 0) (entryWords (sstmaciFillCqEntry format localBuffer msg)), next) ∧
      (next = none → format.entryWords = 0) ∧
      (format.entryWords ≠ 0 → next.getD 0 =
        buf.getD 0 + (entryWords (sstmaciFillCqEntry format localBuffer msg)).length) := by
  unfold sstmaciFillCqEntryAt
  cases hfill : sstmaciFillCqEntry format localBuffer msg with
  | none =>
      have hformat : format.entryWords = 0 := fill_eq_none_iff.mp hfill
      exact ⟨none, rfl, fun _ => hformat, fun hne => absurd hformat hne⟩
  | some entry =>
      have hformat : format.entryWords ≠ 0 := by
        intro hzero
        rw [fill_eq_none_iff.mpr hzero] at hfill
        cases hfill
      cases buf with
      | none => exact absurd (hbuf rfl) hformat
      | some b => exact ⟨some (b + entry.words.length), rfl, by simp, fun _ => rfl⟩

/-- **The two levels.** The loop writes the entries of `cqReadLoop` one after the other from `buf` on,
and the addresses from the slot of this round on. -/
theorem cqReadInto_eq (format : CqFormat) (blocking : Bool) (srcAddr : Option Nat) (timeout : Int)
    (todo done : Nat) (buf : Option Nat) (memory : CallerMemory) (s : State)
    (hbuf : buf = none → format.entryWords = 0) :
    cqReadInto format blocking srcAddr timeout todo done buf memory s =
      (cqReadLoop format blocking srcAddr.isSome timeout todo s).map fun r =>
        ⟨r.queue, memory.written (buf.getD 0) srcAddr done r.entries r.srcAddrs,
          done + r.entries.length, r.waiting⟩ := by
  induction todo generalizing done buf memory s with
  | zero => simp [cqReadInto, cqReadLoop, Except.map]
  | succ todo ih =>
      unfold cqReadInto cqReadLoop
      cases hprogress : s.progress with
      | nil => cases blocking <;> simp [Except.map]
      | cons msg rest =>
          by_cases hdeleted : msg ∈ s.deleted
          · simp [hdeleted, Except.map]
          · simp only [hdeleted, if_false]
            obtain ⟨next, hround, hnext, haddr⟩ := fillCqEntryAt_ok hbuf (s.localBuffer msg)
              (memory.setSrcAddr srcAddr done msg.sender).words msg
            rw [hround]
            show cqReadInto _ _ _ _ _ _ _ _ _ = _
            rw [ih (done + 1) next _ _ hnext]
            cases hrest : cqReadLoop format blocking srcAddr.isSome timeout todo
                { s with progress := rest } with
            | error e => rfl
            | ok r =>
                refine congrArg Except.ok ?_
                rw [ReadInto.mk.injEq]
                refine ⟨rfl, ?_, ?_, rfl⟩
                · rw [setSrcAddr_words, written_cons]
                  by_cases hformat : format.entryWords = 0
                  · exact written_of_no_words (entryWords_of_cqReadLoop hformat hrest) _ _ _ _ _ _
                  · rw [haddr hformat]
                · rw [List.length_cons]
                  omega

/-! ## §3 — what a read takes -/

/-- None of the first `count` messages on the progress queue has been deleted. -/
def State.Live (s : State) (count : Nat) : Prop := ∀ m ∈ s.progress.take count, m ∉ s.deleted

instance (s : State) (count : Nat) : Decidable (s.Live count) :=
  inferInstanceAs (Decidable (∀ m ∈ _, _))

/-- The wait a blocking read ends up in when it asks for more than there is. -/
def State.waits (s : State) (blocking : Bool) (timeout : Int) (count : Nat) : Option (Option Int) :=
  if blocking && s.progress.length < count then
    some (if 0 < timeout then some timeout else none)
  else none

/-- A read of live messages takes the first `count` of them, or all there are. -/
theorem cqReadLoop_of_live (format : CqFormat) (blocking srcAddr : Bool) (timeout : Int)
    {count : Nat} {s : State} (live : s.Live count) :
    cqReadLoop format blocking srcAddr timeout count s =
      .ok { queue := { s with progress := s.progress.drop count }
            entries := (s.progress.take count).map fun m =>
              sstmaciFillCqEntry format (s.localBuffer m) m
            srcAddrs :=
              if srcAddr then (s.progress.take count).map (·.sender.signExtend 64) else []
            waiting := s.waits blocking timeout count } := by
  induction count generalizing s with
  | zero => simp [cqReadLoop, State.waits]
  | succ count ih =>
      unfold cqReadLoop
      cases hprogress : s.progress with
      | nil =>
          have hsame : { s with progress := [] } = s := by rw [← hprogress]
          cases blocking <;> simp [State.waits, hprogress, hsame]
      | cons msg rest =>
          have hmsg : msg ∉ s.deleted := live msg (by simp [hprogress])
          have hrest : State.Live { s with progress := rest } count := by
            intro m hm
            exact live m (by simp only [hprogress, List.take_succ_cons]; exact List.mem_cons_of_mem _ hm)
          simp only [hmsg, if_false]
          rw [ih hrest]
          refine congrArg Except.ok ?_
          cases srcAddr <;> simp [State.waits, hprogress, State.localBuffer]

/-- A read that returns has taken live messages only. -/
theorem live_of_cqReadLoop {format : CqFormat} {blocking srcAddr : Bool} {timeout : Int}
    {count : Nat} {s : State} {r : CqRead}
    (h : cqReadLoop format blocking srcAddr timeout count s = .ok r) : s.Live count := by
  induction count generalizing s r with
  | zero => simp [State.Live]
  | succ count ih =>
      unfold cqReadLoop at h
      cases hprogress : s.progress with
      | nil => simp [State.Live, hprogress]
      | cons msg rest =>
          rw [hprogress] at h
          by_cases hdeleted : msg ∈ s.deleted
          · simp [hdeleted] at h
          · simp only [hdeleted, if_false] at h
            obtain ⟨r', hrest, -⟩ := bind_eq_ok.mp h
            intro m hm
            rw [hprogress, List.take_succ_cons] at hm
            rcases List.mem_cons.mp hm with rfl | hm
            · exact hdeleted
            · exact ih hrest m hm

/-! ## §4 — non-blocking reads -/

/-- The members of the entry structs of `rdma/fi_eq.h`. -/
inductive CompletionField
  | opContext
  | flags
  | len
  | buf
  | data
  | tag
  deriving DecidableEq, Repr

/-- The members of the format's entry struct, in the order they are declared in. -/
def CqFormat.members : CqFormat → List CompletionField
  | .unspec | .context => [.opContext]
  | .msg => [.opContext, .flags, .len]
  | .data => [.opContext, .flags, .len, .buf, .data]
  | .tagged => [.opContext, .flags, .len, .buf, .data, .tag]
  | .other _ => []

/-- What a member is to say of a completion, whose data is in `localBuffer`. -/
def CompletionField.value (localBuffer : Ptr) (m : FabricMessage) : CompletionField → BitVec 64
  | .opContext => m.context
  | .flags => m.flags
  | .len => m.byteLength
  | .buf => localBuffer
  | .data => m.immData
  | .tag => m.tag

/-- What the entry of a completion is to say, in the format. -/
def State.entryOf (s : State) (format : CqFormat) (m : FabricMessage) : List (BitVec 64) :=
  format.members.map (CompletionField.value (s.localBuffer m) m)

/-- `sstmaci_fill_cq_entry` fills in each member of the format's struct with what it is to say. -/
theorem entryWords_fill (s : State) (format : CqFormat) (m : FabricMessage) :
    entryWords (sstmaciFillCqEntry format (s.localBuffer m) m) = s.entryOf format m := by
  cases format <;> rfl

theorem length_entryOf (s : State) (format : CqFormat) (m : FabricMessage) :
    (s.entryOf format m).length = format.entryWords := by
  rw [← entryWords_fill, length_entryWords]

/-- The array of addresses with the senders of some messages written to it. -/
def CallerMemory.withSenders (memory : CallerMemory) (srcAddr : Option Nat)
    (taken : List FabricMessage) : Memory (BitVec 64) :=
  match srcAddr with
  | none => memory.srcAddrs
  | some base => store memory.srcAddrs base (taken.map (·.sender.signExtend 64))

/-- What a non-blocking read of `count` comes to. -/
def State.readOut (s : State) (format : CqFormat) (buf count : Nat) (srcAddr : Option Nat)
    (memory : CallerMemory) : ReadInto where
  queue := { s with progress := s.progress.drop count }
  memory :=
    { words := store memory.words buf ((s.progress.take count).flatMap (s.entryOf format))
      srcAddrs := memory.withSenders srcAddr (s.progress.take count) }
  done := min count s.progress.length
  waiting := none

theorem cqReadfromInto_of_live (format : CqFormat) {s : State} {count : Nat} (live : s.Live count)
    (buf : Nat) (srcAddr : Option Nat) (memory : CallerMemory) :
    sstmacCqReadfromInto format s buf count srcAddr memory =
      .ok (s.readOut format buf count srcAddr memory) := by
  unfold sstmacCqReadfromInto sstmaciCqReadInto
  rw [cqReadInto_eq _ _ _ _ _ _ _ _ _ (by simp), cqReadLoop_of_live _ _ _ _ live]
  refine congrArg Except.ok ?_
  unfold State.readOut
  rw [ReadInto.mk.injEq]
  refine ⟨rfl, ?_, ?_, rfl⟩
  · unfold CallerMemory.written CallerMemory.withSenders
    rw [List.flatMap_map, funext (entryWords_fill s format)]
    cases srcAddr <;> rfl
  · rw [List.length_map, List.length_take, Nat.zero_add]

theorem length_flatMap_entryOf (s : State) (format : CqFormat) (ms : List FabricMessage) :
    (ms.flatMap (s.entryOf format)).length = ms.length * format.entryWords := by
  induction ms with
  | nil => simp
  | cons m ms ih =>
      rw [List.flatMap_cons, List.length_append, ih, List.length_cons, length_entryOf]
      ring

/-- Reading on where a read has stopped, into the memory right after its entries, is reading more at
once. -/
theorem readOut_add (s : State) (format : CqFormat) (buf n m : Nat) (srcAddr : Option Nat)
    (memory : CallerMemory) (first : ReadInto)
    (hfirst : first = s.readOut format buf n srcAddr memory) :
    first.queue.readOut format (buf + first.done * format.entryWords) m
        (srcAddr.map (· + first.done)) first.memory =
      { s.readOut format buf (n + m) srcAddr memory with
        done := (s.readOut format buf (n + m) srcAddr memory).done - first.done } := by
  subst hfirst
  have hlen : min n s.progress.length = (s.progress.take n).length := by rw [List.length_take]
  unfold State.readOut
  rw [ReadInto.mk.injEq]
  refine ⟨?_, ?_, ?_, rfl⟩
  · simp [List.drop_drop]
  · rw [CallerMemory.mk.injEq]
    refine ⟨?_, ?_⟩
    · rw [List.take_add, List.flatMap_append, store_append, length_flatMap_entryOf, ← hlen]
      rfl
    · cases srcAddr with
      | none => rfl
      | some base =>
          show _ = store memory.srcAddrs base ((s.progress.take (n + m)).map _)
          rw [List.take_add, List.map_append, store_append, List.length_map, ← hlen]
          rfl
  · simp only [List.length_drop]
    omega

/-- The queue's completions are handed out one after the other: a read returns the number of the
entries, writes them and the addresses of their senders and nothing else, and what one read has left the
next one reads. -/
structure ReadsFaithfully (format : CqFormat) (s : State) (buf count : Nat) (srcAddr : Option Nat)
    (memory : CallerMemory) (r : ReadInto) : Prop where
  readfrom : sstmacCqReadfromInto format s buf count srcAddr memory = .ok r
  read : srcAddr = none → sstmacCqReadInto format s buf count memory = .ok r
  returns : r.waiting = none
  ret : r.ret = if min count s.progress.length = 0 then -fiEagain
    else (min count s.progress.length : Nat)
  words : r.memory.words = store memory.words buf ((s.progress.take count).flatMap (s.entryOf format))
  entries : records r.memory.words buf format.entryWords (min count s.progress.length) =
    (s.progress.take count).map (s.entryOf format)
  srcAddrs : r.memory.srcAddrs = memory.withSenders srcAddr (s.progress.take count)
  queue : r.queue = { s with progress := s.progress.drop count }
  /-- Reading `more` in the same state is going on from `r`. -/
  split : ∀ more, ∃ r', sstmacCqReadfromInto format r.queue (buf + r.done * format.entryWords) more
      (srcAddr.map (· + r.done)) r.memory = .ok r' ∧
    sstmacCqReadfromInto format s buf (count + more) srcAddr memory =
      .ok { r' with done := r.done + r'.done }

theorem records_entryOf (s : State) (format : CqFormat) (memory : Memory (BitVec 64)) (buf : Nat)
    (ms : List FabricMessage) :
    records (store memory buf (ms.flatMap (s.entryOf format))) buf format.entryWords ms.length =
      ms.map (s.entryOf format) := by
  have hlen : ∀ r ∈ ms.map (s.entryOf format), r.length = format.entryWords := by
    intro r hr
    obtain ⟨m, -, rfl⟩ := List.mem_map.mp hr
    exact length_entryOf s format m
  have hback := records_store memory buf format.entryWords (ms.map (s.entryOf format)) hlen
  rwa [List.length_map] at hback

theorem readsFaithfully_of_live (format : CqFormat) {s : State} (live : s.deleted = []) (buf count : Nat)
    (srcAddr : Option Nat) (memory : CallerMemory) :
    ReadsFaithfully format s buf count srcAddr memory
      (s.readOut format buf count srcAddr memory) := by
  have hlive : ∀ (q : State) (n : Nat), q.deleted = [] → q.Live n := by
    intro q n hq m _
    simp [hq]
  have hread := fun n => cqReadfromInto_of_live format (hlive s n live) buf srcAddr memory
  refine ⟨hread count, ?_, rfl, rfl, rfl, ?_, rfl, rfl, ?_⟩
  · rintro rfl
    exact hread count
  · have hback := records_entryOf s format memory.words buf (s.progress.take count)
    rwa [List.length_take] at hback
  · intro more
    have hmore := hlive (s.readOut format buf count srcAddr memory).queue more live
    refine ⟨_, cqReadfromInto_of_live format hmore _ _ _, ?_⟩
    rw [hread, readOut_add s format buf count more srcAddr memory _ rfl]
    refine congrArg Except.ok ?_
    unfold State.readOut
    rw [ReadInto.mk.injEq]
    refine ⟨rfl, rfl, ?_, rfl⟩
    show min (count + more) _ = min count _ + (min (count + more) _ - min count _)
    omega

/-! ## §5 — whole runs -/

/-- The queue, and the record of a run: the completions, and the entries the callers have found in
their memory. -/
structure Drain where
  queue : State
  completed : List FabricMessage
  returned : List (List (BitVec 64))

inductive DrainAction
  | completion (msg : FabricMessage)
  | cqRead (buf count : Nat) (memory : CallerMemory)
  | cqReadfrom (buf count : Nat) (srcAddr : Option Nat) (memory : CallerMemory)

/-- A read has returned. -/
def Drain.record (d : Drain) (format : CqFormat) (buf : Nat) (r : ReadInto) : Drain :=
  { d with
    queue := r.queue
    returned := d.returned ++ records r.memory.words buf format.entryWords r.done }

def drainStep (format : CqFormat) (d : Drain) : DrainAction → Except Fault Drain
  | .completion msg => .ok { d with
      queue := d.queue.progressIncoming msg none
      completed := d.completed ++ [msg] }
  | .cqRead buf count memory =>
    (sstmacCqReadInto format d.queue buf count memory).map (d.record format buf)
  | .cqReadfrom buf count srcAddr memory =>
    (sstmacCqReadfromInto format d.queue buf count srcAddr memory).map (d.record format buf)

/-- A progress queue that holds some completions already. -/
def Drain.start (completed : List FabricMessage) (localBuffers : List (FabricMessage × Ptr)) :
    Drain where
  queue := { progress := completed, localBuffers := localBuffers }
  completed := completed
  returned := []

/-- The completions of a run. -/
def completionsOf (as : List DrainAction) : List FabricMessage :=
  as.filterMap fun
    | .completion msg => some msg
    | _ => none

/-- What has been returned and what waits are the completions so far, in order. -/
structure Drained (format : CqFormat) (ms : List FabricMessage)
    (localBuffers : List (FabricMessage × Ptr)) (as : List DrainAction) (d : Drain) : Prop where
  live : d.queue.deleted = []
  localBuffers : d.queue.localBuffers = localBuffers
  completed : d.completed = ms ++ completionsOf as
  inOrder : d.returned ++ d.queue.progress.map (d.queue.entryOf format) =
    d.completed.map (d.queue.entryOf format)

variable {format : CqFormat} {ms : List FabricMessage} {localBuffers : List (FabricMessage × Ptr)}
  {as : List DrainAction} {d : Drain}

/-- A read takes what it returns off the queue. -/
theorem Drained.read (h : Drained format ms localBuffers as d) (buf count : Nat)
    (srcAddr : Option Nat) (memory : CallerMemory) {a : DrainAction}
    (ha : completionsOf [a] = []) :
    Drained format ms localBuffers (as ++ [a])
      (d.record format buf (d.queue.readOut format buf count srcAddr memory)) := by
  have hfaithful := readsFaithfully_of_live format h.live buf count srcAddr memory
  refine ⟨h.live, h.localBuffers, ?_, ?_⟩
  · rw [completionsOf, List.filterMap_append, ← completionsOf, ← completionsOf, ha,
      List.append_nil]
    exact h.completed
  · have hreturned : (d.record format buf (d.queue.readOut format buf count srcAddr memory)).returned =
        d.returned ++ (d.queue.progress.take count).map (d.queue.entryOf format) :=
      congrArg (d.returned ++ ·) hfaithful.entries
    rw [hreturned]
    show _ ++ (d.queue.progress.drop count).map (d.queue.entryOf format) = _
    rw [List.append_assoc, ← List.map_append, List.take_append_drop]
    exact h.inOrder

/-- Every step returns, and keeps the order. -/
theorem Drained.step (h : Drained format ms localBuffers as d) (a : DrainAction) :
    ∃ d', drainStep format d a = .ok d' ∧ Drained format ms localBuffers (as ++ [a]) d' := by
  have hread := fun buf count srcAddr memory =>
    (readsFaithfully_of_live format h.live buf count srcAddr memory).readfrom
  cases a with
  | completion msg =>
      refine ⟨_, rfl, h.live, h.localBuffers, ?_, ?_⟩
      · rw [completionsOf, List.filterMap_append, ← completionsOf, ← List.append_assoc,
          ← h.completed]
        rfl
      · show d.returned ++ (d.queue.progress ++ [msg]).map (d.queue.entryOf format) =
          (d.completed ++ [msg]).map (d.queue.entryOf format)
        rw [List.map_append, List.map_append, ← List.append_assoc, h.inOrder]
  | cqRead buf count memory =>
      refine ⟨_, congrArg (Except.map _) (hread buf count none memory), ?_⟩
      exact h.read buf count none memory rfl
  | cqReadfrom buf count srcAddr memory =>
      refine ⟨_, congrArg (Except.map _) (hread buf count srcAddr memory), ?_⟩
      exact h.read buf count srcAddr memory rfl

theorem drained_run (format : CqFormat) (ms : List FabricMessage)
    (localBuffers : List (FabricMessage × Ptr)) (as : List DrainAction) :
    ∃ d, run (drainStep format) (Drain.start ms localBuffers) as = .ok d ∧
      Drained format ms localBuffers as d := by
  induction as using List.reverseRecOn with
  | nil => exact ⟨_, rfl, rfl, rfl, (List.append_nil ms).symm, rfl⟩
  | append_singleton as a ih =>
      obtain ⟨d, hrun, hd⟩ := ih
      obtain ⟨d', hstep, hd'⟩ := hd.step a
      exact ⟨d', run_snoc_ok.mpr ⟨d, hrun, hstep⟩, hd'⟩

/-- **A faithful drain.** Whatever completions are there at first, every run of completions and
non-blocking reads returns.  The entries handed out, followed by those of the completions still
waiting, are the entries of all completions in order, each member of an entry being what it is to be
for its completion.  And in every state reached, every read returns
as many entries as are asked for and there, or `-FI_EAGAIN` for none, writes these and the addresses of
their senders and nothing else, and can be split in two. -/
theorem reads_drain_fifo (format : CqFormat) (ms : List FabricMessage)
    (localBuffers : List (FabricMessage × Ptr)) (as : List DrainAction) :
    ∃ d, run (drainStep format) (Drain.start ms localBuffers) as = .ok d ∧
      d.completed = ms ++ completionsOf as ∧
      d.returned ++ d.queue.progress.map (d.queue.entryOf format) =
        d.completed.map (d.queue.entryOf format) ∧
      ∀ buf count srcAddr memory, ∃ r,
        ReadsFaithfully format d.queue buf count srcAddr memory r := by
  obtain ⟨d, hrun, hd⟩ := drained_run format ms localBuffers as
  refine ⟨d, hrun, hd.completed, hd.inOrder, ?_⟩
  intro buf count srcAddr memory
  exact ⟨_, readsFaithfully_of_live format hd.live buf count srcAddr memory⟩

/-! ## §6 — blocking reads -/

/-- A blocking read is to return what a non-blocking one does where completions wait, and on an empty
queue with a timeout of zero to return at once. -/
structure SreadAgrees (format : CqFormat) (s : State) (count : Nat) (srcAddr : Bool) (timeout : Int) :
    Prop where
  readfrom : s.progress ≠ [] → ∃ r, sstmacCqSreadfrom format s count srcAddr timeout = .ok r ∧
    sstmacCqReadfrom format s count srcAddr = .ok r ∧
    r.entries.length = min count s.progress.length ∧ r.waiting = none
  read : s.progress ≠ [] → ∃ r, sstmacCqSread format s count timeout = .ok r ∧
    sstmacCqRead format s count = .ok r ∧
    r.entries.length = min count s.progress.length ∧ r.waiting = none
  emptyFrom : s.progress = [] → timeout = 0 →
    ∃ r, sstmacCqSreadfrom format s count srcAddr timeout = .ok r ∧ r.ret = -fiEagain ∧
      r.waiting = none
  empty : s.progress = [] → timeout = 0 →
    ∃ r, sstmacCqSread format s count timeout = .ok r ∧ r.ret = -fiEagain ∧ r.waiting = none

/-- There is as much to read as is asked for. -/
def State.enough (s : State) (count : Nat) (timeout : Int) : Prop :=
  if s.progress = [] then timeout = 0 → count = 0 else count ≤ s.progress.length ∧ s.Live count

theorem waits_eq_none {s : State} {timeout : Int} {count : Nat} :
    s.waits true timeout count = none ↔ count ≤ s.progress.length := by
  unfold State.waits
  by_cases h : s.progress.length < count
  · simp [h]
  · simp [h]
    omega

/-- Where completions wait, the two kinds of read agree exactly if there are enough of them. -/
theorem sread_eq_read_iff (format : CqFormat) (s : State) (count : Nat) (srcAddr : Bool)
    (timeout : Int) :
    (∃ r, cqReadLoop format true srcAddr timeout count s = .ok r ∧
        cqReadLoop format false srcAddr (-1) count s = .ok r ∧
        r.entries.length = min count s.progress.length ∧ r.waiting = none) ↔
      count ≤ s.progress.length ∧ s.Live count := by
  constructor
  · rintro ⟨r, hsread, -, -, hwaiting⟩
    have live := live_of_cqReadLoop hsread
    rw [cqReadLoop_of_live _ _ _ _ live] at hsread
    cases hsread
    exact ⟨waits_eq_none.mp hwaiting, live⟩
  · rintro ⟨hcount, live⟩
    refine ⟨_, cqReadLoop_of_live _ _ _ _ live, ?_, ?_, waits_eq_none.mpr hcount⟩
    · rw [cqReadLoop_of_live _ _ _ _ live, waits_eq_none.mpr hcount]
      rfl
    · rw [List.length_map, List.length_take]

/-- On an empty queue a blocking read returns only if nothing is asked for. -/
theorem sread_empty_iff (format : CqFormat) {s : State} (hempty : s.progress = []) (count : Nat)
    (srcAddr : Bool) (timeout : Int) :
    (∃ r, cqReadLoop format true srcAddr timeout count s = .ok r ∧ r.ret = -fiEagain ∧
        r.waiting = none) ↔ count = 0 := by
  have live : s.Live count := by simp [State.Live, hempty]
  rw [cqReadLoop_of_live _ _ _ _ live]
  constructor
  · rintro ⟨r, hr, -, hwaiting⟩
    cases hr
    have hcount := waits_eq_none.mp hwaiting
    rw [hempty] at hcount
    exact Nat.le_zero.mp hcount
  · rintro rfl
    refine ⟨_, rfl, by simp [CqRead.ret], ?_⟩
    show s.waits true timeout 0 = none
    exact waits_eq_none.mpr (Nat.zero_le _)

/-- **When blocking and non-blocking reads agree.** For every state, count and timeout: where
completions wait, exactly if no more are asked for than there are, none of them deleted; with a
timeout of zero on an empty queue, only for a count of zero. -/
theorem sread_agrees_iff (format : CqFormat) (s : State) (count : Nat) (srcAddr : Bool)
    (timeout : Int) : SreadAgrees format s count srcAddr timeout ↔ s.enough count timeout := by
  unfold State.enough
  by_cases hempty : s.progress = []
  · rw [if_pos hempty]
    constructor
    · intro h htimeout
      exact (sread_empty_iff format hempty count srcAddr timeout).mp (h.emptyFrom hempty htimeout)
    · intro h
      refine ⟨fun hne => absurd hempty hne, fun hne => absurd hempty hne, ?_, ?_⟩
      · intro _ htimeout
        exact (sread_empty_iff format hempty count srcAddr timeout).mpr (h htimeout)
      · intro _ htimeout
        exact (sread_empty_iff format hempty count false timeout).mpr (h htimeout)
  · rw [if_neg hempty]
    constructor
    · intro h
      exact (sread_eq_read_iff format s count srcAddr timeout).mp (h.readfrom hempty)
    · intro h
      refine ⟨?_, ?_, fun he => absurd he hempty, fun he => absurd he hempty⟩
      · intro _
        exact (sread_eq_read_iff format s count srcAddr timeout).mpr h
      · intro _
        exact (sread_eq_read_iff format s count false timeout).mpr h

/-- One completion waits. -/
def oneCompletion : State := { progress := [sampleSend 0] }

/-- Asked for two entries with one there, a blocking read waits for the second, without a limit or for
the whole timeout; asked on an empty queue with a timeout of zero, it waits for ever. -/
theorem sread_waits :
    (¬ SreadAgrees .context oneCompletion 2 false 0 ∧
      sstmacCqSread .context oneCompletion 2 0 =
        .ok { queue := {}, entries := [some (.context 0x200)], waiting := some none } ∧
      sstmacCqRead .context oneCompletion 2 =
        .ok { queue := {}, entries := [some (.context 0x200)] }) ∧
    ¬ SreadAgrees .context oneCompletion 2 false 10 ∧
    (¬ SreadAgrees .context {} 1 false 0 ∧
      sstmacCqSread .context {} 1 0 = .ok { queue := {}, waiting := some none }) := by
  have hshort : ∀ timeout, ¬ SreadAgrees .context oneCompletion 2 false timeout := by
    intro timeout h
    have henough := (sread_eq_read_iff _ _ _ _ timeout).mp (h.readfrom (by decide))
    exact absurd henough.1 (by decide)
  refine ⟨⟨hshort 0, by decide, by decide⟩, hshort 10, ?_, by decide⟩
  intro h
  have hcount := (sread_empty_iff _ rfl _ _ _).mp (h.empty rfl rfl)
  cases hcount

end SstTransports.Fabric
