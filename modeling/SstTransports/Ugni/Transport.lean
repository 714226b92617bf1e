/-
# SstTransports.Ugni.Transport — completion queues and short messages of the uGNI library.

`UGNITransport` adds one table to sumi's transport: for each completion queue, the short message that
was got from it and not yet released.  The calls below get events from the queues and move short
messages into that table and out of it.

Of sumi, which is not part of this repository, the calls use `poll`: it removes and returns the
oldest event of a queue, or returns null when the timeout passes and the queue is still empty.  An
event that arrives while a call waits is one that arrived before the call.
-/
import SstTransports.Ugni.Message
import Mathlib.Data.List.GetD

namespace SstTransports.Ugni

open SstTransports.Fabric (Ptr nullptr)

/-! ## §1 — the transport -/

/-- The queues of sumi, by id, the table `pending_smsg_`, and what has been deleted. -/
structure Transport where
  cqs : BitVec 32 → List Event := fun _ => []
  pendingSmsg : List (Option GniSmsgMessage) := List.replicate 4 none
  deletedSmsg : List GniSmsgMessage := []
  deletedBuffers : List Ptr := []

/-- An `int` as the index of a `std::vector`: a negative one becomes a huge one. -/
def cqIndex (cqId : BitVec 32) : Nat := (cqId.signExtend 64).toNat

/-- `std::vector::resize`: cut off, or filled up with null. -/
def resize (table : List (Option GniSmsgMessage)) (size : Nat) : List (Option GniSmsgMessage) :=
  table.take size ++ List.replicate (size - table.length) none

/-- `allocateCq`, with the id that sumi's `allocateCqId` returned. -/
def allocateCq (t : Transport) (newCq : BitVec 32) : Except Fault Transport :=
  if t.pendingSmsg.length ≤ cqIndex newCq then
    if newCq = BitVec.intMax 32 then .error .signedOverflow
    else .ok { t with pendingSmsg := resize t.pendingSmsg (cqIndex (newCq + 1)) }
  else .ok t

def setPendingSmsg (t : Transport) (cqId : BitVec 32) (smsg : GniSmsgMessage) :
    Except Fault Transport :=
  if cqIndex cqId < t.pendingSmsg.length then
    .ok { t with pendingSmsg := t.pendingSmsg.set (cqIndex cqId) (some smsg) }
  else .error .outOfBounds

def takePendingSmsg (t : Transport) (cqId : BitVec 32) :
    Except Fault (Option GniSmsgMessage × Transport) :=
  if h : cqIndex cqId < t.pendingSmsg.length then
    .ok (t.pendingSmsg.get ⟨cqIndex cqId, h⟩,
      { t with pendingSmsg := t.pendingSmsg.set (cqIndex cqId) none })
  else .error .outOfBounds

/-- `poll(true, cq_id, timeout)` -/
def poll (t : Transport) (cqId : BitVec 32) : Option Event × Transport :=
  match t.cqs cqId with
  | [] => (none, t)
  | e :: rest => (some e, { t with cqs := Function.update t.cqs cqId rest })

/-- An event arrives at a queue. -/
def arrive (t : Transport) (cqId : BitVec 32) (e : Event) : Transport :=
  { t with cqs := Function.update t.cqs cqId (t.cqs cqId ++ [e]) }

/-! ## §2 — the calls -/

/-- `GNI_CqGetEvent`: the code, and the event whose address is stored. -/
def gniCqGetEvent (t : Transport) (cqHndl : BitVec 32) : GniReturn × Option Event × Transport :=
  match poll t cqHndl with
  | (some msg, t) => (.success, some msg, t)
  | (none, t) => (.notDone, none, t)

/-- The test of `poll_for_next_smsg`: by the type and then by the class. -/
def Event.nextSmsg (msg : Event) : Option GniSmsgMessage :=
  if msg.networkType = .smsgSend then msg.asSmsg else none

/-- `poll_for_next_smsg`.  The type is read from whatever `poll` returned, null included. -/
def pollForNextSmsg (t : Transport) (cqId : BitVec 32) :
    Except Fault (Option GniSmsgMessage × Transport) :=
  match poll t cqId with
  | (none, _) => .error .nullDereference
  | (some msg, t) => .ok (msg.nextSmsg, t)

/-- What a call that gets a short message returns, and stores through its pointers. -/
structure SmsgGet where
  ret : GniReturn
  header : Option Ptr := none
  tag : Option (BitVec 8) := none
  deriving DecidableEq, Repr

/-- `GNI_SmsgGetNext` -/
def gniSmsgGetNext (t : Transport) (ep : Ep) : Except Fault (SmsgGet × Transport) := do
  let (smsg, t) ← pollForNextSmsg t ep.cqId
  match smsg with
  | some smsg => return ({ ret := .success, header := some smsg.localBuffer }, t)
  | none => return ({ ret := .notDone }, t)

/-- `GNI_SMSG_ANY_TAG` -/
def gniSmsgAnyTag : BitVec 8 := 0xFF

/-- The tag test of `GNI_SmsgGetNextWTag`: the argument is promoted to `int`. -/
def tagMatches (tag : BitVec 8) (smsg : GniSmsgMessage) : Bool :=
  tag = gniSmsgAnyTag || tag.setWidth 32 = smsg.tag

/-- `GNI_SmsgGetNextWTag`; `header` is not stored through. -/
def gniSmsgGetNextWTag (t : Transport) (ep : Ep) (tag : BitVec 8) :
    Except Fault (SmsgGet × Transport) := do
  let (smsg, t) ← pollForNextSmsg t ep.cqId
  match smsg with
  | some smsg =>
    if tagMatches tag smsg then
      let t ← setPendingSmsg t ep.cqId smsg
      return ({ ret := .success, tag := some (smsg.tag.setWidth 8) }, t)
    else return ({ ret := .noMatch }, t)
  | none => return ({ ret := .notDone }, t)

/-- `GNI_SmsgRelease` -/
def gniSmsgRelease (t : Transport) (ep : Ep) : Except Fault (GniReturn × Transport) := do
  let (smsg, t) ← takePendingSmsg t ep.cqId
  match smsg with
  | none => return (.invalidState, t)
  | some smsg =>
    return (.success, { t with
      deletedSmsg := smsg :: t.deletedSmsg
      deletedBuffers :=
        if smsg.localBuffer = nullptr then t.deletedBuffers
        else smsg.localBuffer :: t.deletedBuffers })

/-! ## §3 — the pending table -/

/-- The short message that is pending for a queue; a slot outside the table holds none. -/
def Transport.slot (t : Transport) (cqId : BitVec 32) : Option GniSmsgMessage :=
  t.pendingSmsg.getD (cqIndex cqId) none

/-- The ids `allocateCqId` gives: non-negative, with room for the table to grow past them. -/
def ValidCqId (cqId : BitVec 32) : Prop := cqId.toNat + 1 < 2 ^ 31

instance (cqId : BitVec 32) : Decidable (ValidCqId cqId) := inferInstanceAs (Decidable (_ < _))

theorem cqIndex_eq_toNat {cqId : BitVec 32} (h : cqId.toNat < 2 ^ 31) :
    cqIndex cqId = cqId.toNat := by
  have hmsb : cqId.msb = false := BitVec.msb_eq_false_iff_two_mul_lt.mpr (by omega)
  rw [cqIndex, BitVec.signExtend_eq_setWidth_of_msb_false hmsb, BitVec.toNat_setWidth]
  exact Nat.mod_eq_of_lt (by omega)

/-- At the start every slot is empty. -/
theorem slot_start (cqId : BitVec 32) : ({} : Transport).slot cqId = none := by
  show (List.replicate 4 none).getD (cqIndex cqId) none = none
  rw [List.getD_eq_getElem?_getD, List.getElem?_replicate]
  split <;> rfl

/-- No two queues share a slot. -/
theorem cqIndex_injective : Function.Injective cqIndex := by
  intro c d h
  have hext : c.signExtend 64 = d.signExtend 64 := BitVec.toNat_inj.mp h
  apply BitVec.toInt_inj.mp
  rw [← BitVec.toInt_signExtend_of_le (by omega : 32 ≤ 64), hext,
    BitVec.toInt_signExtend_of_le (by omega)]

theorem getD_resize {table : List (Option GniSmsgMessage)} {size i : Nat}
    (h : table.length ≤ size) : (resize table size).getD i none = table.getD i none := by
  simp only [resize, List.take_of_length_le h, List.getD_eq_getElem?_getD]
  by_cases hi : i < table.length
  · rw [List.getElem?_append_left hi]
  · rw [List.getElem?_append_right (by omega), List.getElem?_replicate,
      List.getElem?_eq_none (by omega : table.length ≤ i)]
    split <;> rfl

theorem length_resize (table : List (Option GniSmsgMessage)) (size : Nat) :
    (resize table size).length = size := by
  simp only [resize, List.length_append, List.length_take, List.length_replicate]
  omega

/-- What `allocateCq` does for an id of sumi's: it returns, the new queue has a slot, and nothing
that was in the table is lost. -/
theorem allocateCq_valid {t : Transport} {newCq : BitVec 32} (h : ValidCqId newCq) :
    ∃ t', allocateCq t newCq = .ok t' ∧ t'.cqs = t.cqs ∧ (∀ cq, t'.slot cq = t.slot cq) ∧
      t.pendingSmsg.length ≤ t'.pendingSmsg.length ∧ cqIndex newCq < t'.pendingSmsg.length := by
  unfold ValidCqId at h
  have hindex : cqIndex newCq = newCq.toNat := cqIndex_eq_toNat (by omega)
  unfold allocateCq
  by_cases hgrow : t.pendingSmsg.length ≤ cqIndex newCq
  · have hmax : newCq ≠ BitVec.intMax 32 := by
      rintro rfl
      revert h
      decide
    have hnext : cqIndex (newCq + 1) = newCq.toNat + 1 := by
      have htoNat : (newCq + 1).toNat = newCq.toNat + 1 := by
        rw [BitVec.toNat_add]
        exact Nat.mod_eq_of_lt (by simp; omega)
      rw [cqIndex_eq_toNat (by omega), htoNat]
    rw [if_pos hgrow, if_neg hmax]
    refine ⟨_, rfl, rfl, ?_, ?_, ?_⟩
    · intro cq
      exact getD_resize (by omega)
    · show t.pendingSmsg.length ≤ (resize t.pendingSmsg _).length
      rw [length_resize]
      omega
    · show cqIndex newCq < (resize t.pendingSmsg _).length
      rw [length_resize]
      omega
  · rw [if_neg hgrow]
    exact ⟨t, rfl, rfl, fun _ => rfl, Nat.le_refl _, by omega⟩

/-- Storing into a slot of the table changes that slot and no other. -/
theorem slot_set {t t' : Transport} {c : BitVec 32} {x : Option GniSmsgMessage}
    (h : cqIndex c < t.pendingSmsg.length)
    (ht' : t'.pendingSmsg = t.pendingSmsg.set (cqIndex c) x) (d : BitVec 32) :
    t'.slot d = if d = c then x else t.slot d := by
  unfold Transport.slot
  rw [ht', List.getD_eq_getElem?_getD, List.getElem?_set]
  by_cases hd : d = c
  · rw [if_pos hd, hd, if_pos rfl, if_pos h]
    rfl
  · have hne : cqIndex c ≠ cqIndex d := fun heq => hd (cqIndex_injective heq).symm
    rw [if_neg hne, if_neg hd, List.getD_eq_getElem?_getD]

theorem slot_eq_get {t : Transport} {c : BitVec 32} (h : cqIndex c < t.pendingSmsg.length) :
    t.pendingSmsg.get ⟨cqIndex c, h⟩ = t.slot c := by
  rw [Transport.slot, List.getD_eq_getElem _ _ h]
  rfl

/-! ## §4 — what the calls do -/

/-- The transport after the oldest event of a queue has been taken. -/
def Transport.pop (t : Transport) (cqId : BitVec 32) (rest : List Event) : Transport :=
  { t with cqs := Function.update t.cqs cqId rest }

/-- The transport after a release of `smsg`. -/
def Transport.deleted (t : Transport) (smsg : GniSmsgMessage) : Transport :=
  { t with
    deletedSmsg := smsg :: t.deletedSmsg
    deletedBuffers :=
      if smsg.localBuffer = nullptr then t.deletedBuffers
      else smsg.localBuffer :: t.deletedBuffers }

/-- The transport with `x` stored in the slot of a queue. -/
def Transport.setSlot (t : Transport) (cqId : BitVec 32) (x : Option GniSmsgMessage) : Transport :=
  { t with pendingSmsg := t.pendingSmsg.set (cqIndex cqId) x }

/-- The queue has a slot in the table. -/
def Transport.InTable (t : Transport) (cqId : BitVec 32) : Prop :=
  cqIndex cqId < t.pendingSmsg.length

@[simp] theorem pop_slot (t : Transport) (c : BitVec 32) (rest : List Event) (d : BitVec 32) :
    (t.pop c rest).slot d = t.slot d := rfl

@[simp] theorem pop_cqs_self (t : Transport) (c : BitVec 32) (rest : List Event) :
    (t.pop c rest).cqs c = rest := by
  simp [Transport.pop]

theorem pop_cqs_of_ne {c d : BitVec 32} (h : d ≠ c) (t : Transport) (rest : List Event) :
    (t.pop c rest).cqs d = t.cqs d := by
  simp [Transport.pop, h]

theorem nextSmsg_eq_some {e : Event} {m : GniSmsgMessage} :
    e.nextSmsg = some m ↔ e = .smsg m ∧ m.networkType = .smsgSend := by
  unfold Event.nextSmsg
  cases e with
  | rdma r => simp [Event.asSmsg]
  | smsg m' =>
      by_cases htype : (Event.smsg m').networkType = .smsgSend
      · rw [if_pos htype]
        constructor
        · intro h
          cases h
          exact ⟨rfl, htype⟩
        · rintro ⟨heq, _⟩
          cases heq
          rfl
      · rw [if_neg htype]
        constructor
        · intro h
          cases h
        · rintro ⟨heq, hm⟩
          cases heq
          exact absurd hm htype

theorem pollForNextSmsg_nil {t : Transport} {c : BitVec 32} (h : t.cqs c = []) :
    pollForNextSmsg t c = .error .nullDereference := by
  simp only [pollForNextSmsg, poll, h]

theorem pollForNextSmsg_cons {t : Transport} {c : BitVec 32} {e : Event} {rest : List Event}
    (h : t.cqs c = e :: rest) : pollForNextSmsg t c = .ok (e.nextSmsg, t.pop c rest) := by
  simp only [pollForNextSmsg, poll, h]
  rfl

theorem takePendingSmsg_of_lt {t : Transport} {c : BitVec 32}
    (h : cqIndex c < t.pendingSmsg.length) :
    takePendingSmsg t c =
      .ok (t.slot c, { t with pendingSmsg := t.pendingSmsg.set (cqIndex c) none }) := by
  rw [takePendingSmsg, dif_pos h, slot_eq_get h]

/-! One equation for each way through the three calls on short messages. -/

section Calls

variable {t : Transport} {ep : Ep} {tag : BitVec 8} {e : Event} {rest : List Event}
  {smsg : GniSmsgMessage}

theorem gniSmsgGetNext_nil (h : t.cqs ep.cqId = []) :
    gniSmsgGetNext t ep = .error .nullDereference := by
  rw [gniSmsgGetNext, pollForNextSmsg_nil h]
  rfl

theorem gniSmsgGetNext_some (h : t.cqs ep.cqId = e :: rest) (hsmsg : e.nextSmsg = some smsg) :
    gniSmsgGetNext t ep =
      .ok ({ ret := .success, header := some smsg.localBuffer }, t.pop ep.cqId rest) := by
  rw [gniSmsgGetNext, pollForNextSmsg_cons h, hsmsg]
  rfl

theorem gniSmsgGetNext_none (h : t.cqs ep.cqId = e :: rest) (hnone : e.nextSmsg = none) :
    gniSmsgGetNext t ep = .ok ({ ret := .notDone }, t.pop ep.cqId rest) := by
  rw [gniSmsgGetNext, pollForNextSmsg_cons h, hnone]
  rfl

theorem gniSmsgGetNextWTag_nil (h : t.cqs ep.cqId = []) :
    gniSmsgGetNextWTag t ep tag = .error .nullDereference := by
  rw [gniSmsgGetNextWTag, pollForNextSmsg_nil h]
  rfl

theorem gniSmsgGetNextWTag_none (h : t.cqs ep.cqId = e :: rest) (hnone : e.nextSmsg = none) :
    gniSmsgGetNextWTag t ep tag = .ok ({ ret := .notDone }, t.pop ep.cqId rest) := by
  rw [gniSmsgGetNextWTag, pollForNextSmsg_cons h, hnone]
  rfl

theorem gniSmsgGetNextWTag_match (h : t.cqs ep.cqId = e :: rest) (hsmsg : e.nextSmsg = some smsg)
    (htag : tagMatches tag smsg = true) (htable : t.InTable ep.cqId) :
    gniSmsgGetNextWTag t ep tag =
      .ok ({ ret := .success, tag := some (smsg.tag.setWidth 8) },
        (t.pop ep.cqId rest).setSlot ep.cqId (some smsg)) := by
  have hset : setPendingSmsg (t.pop ep.cqId rest) ep.cqId smsg =
      .ok ((t.pop ep.cqId rest).setSlot ep.cqId (some smsg)) := if_pos htable
  rw [gniSmsgGetNextWTag, pollForNextSmsg_cons h, hsmsg]
  simp only [Bind.bind, Except.bind, htag, if_true, hset]
  rfl

theorem gniSmsgGetNextWTag_outside (h : t.cqs ep.cqId = e :: rest)
    (hsmsg : e.nextSmsg = some smsg) (htag : tagMatches tag smsg = true)
    (htable : ¬ t.InTable ep.cqId) : gniSmsgGetNextWTag t ep tag = .error .outOfBounds := by
  have hset : setPendingSmsg (t.pop ep.cqId rest) ep.cqId smsg = .error .outOfBounds :=
    if_neg htable
  rw [gniSmsgGetNextWTag, pollForNextSmsg_cons h, hsmsg]
  simp only [Bind.bind, Except.bind, htag, if_true, hset]

theorem gniSmsgGetNextWTag_mismatch (h : t.cqs ep.cqId = e :: rest)
    (hdrop : ∀ smsg, e.nextSmsg = some smsg → tagMatches tag smsg = false) :
    ∃ get : SmsgGet, get.ret ≠ .success ∧
      gniSmsgGetNextWTag t ep tag = .ok (get, t.pop ep.cqId rest) := by
  cases hsmsg : e.nextSmsg with
  | none => exact ⟨{ ret := .notDone }, by decide, gniSmsgGetNextWTag_none h hsmsg⟩
  | some smsg =>
      refine ⟨{ ret := .noMatch }, by decide, ?_⟩
      rw [gniSmsgGetNextWTag, pollForNextSmsg_cons h, hsmsg]
      simp only [Bind.bind, Except.bind, hdrop smsg hsmsg]
      rfl

theorem gniSmsgRelease_none (htable : t.InTable ep.cqId) (hslot : t.slot ep.cqId = none) :
    gniSmsgRelease t ep = .ok (.invalidState, t.setSlot ep.cqId none) := by
  rw [gniSmsgRelease, takePendingSmsg_of_lt htable, hslot]
  rfl

theorem gniSmsgRelease_some (htable : t.InTable ep.cqId) (hslot : t.slot ep.cqId = some smsg) :
    gniSmsgRelease t ep = .ok (.success, (t.setSlot ep.cqId none).deleted smsg) := by
  rw [gniSmsgRelease, takePendingSmsg_of_lt htable, hslot]
  rfl

theorem gniSmsgRelease_outside (htable : ¬ t.InTable ep.cqId) :
    gniSmsgRelease t ep = .error .outOfBounds := by
  have htake : takePendingSmsg t ep.cqId = .error .outOfBounds := dif_neg htable
  rw [gniSmsgRelease, htake]
  rfl

end Calls

end SstTransports.Ugni
