/-
# SstTransports.Ugni.Steps — one process taking uGNI calls, and what each call can do.

A `Node` is a process's transport with a record beside it: the queues it has created, the events its
calls have returned, the short messages that were got and not released since, by endpoint, and the
releases.  The record is written from what the calls return and is read by no call.

`step` takes one call or one arrival; `Step` lists its outcomes, and the later modules argue from
that list.
-/
import SstTransports.Ugni.Transport
import SstTransports.Lib.Run

namespace SstTransports.Ugni

open SstTransports.Lib
open SstTransports.Fabric (Ptr nullptr)

/-! ## §1 — nodes -/

/-- A release: the message that was current on the endpoint, the code returned, and the transport on
both sides of the call. -/
structure Release where
  current : Option GniSmsgMessage
  ret : GniReturn
  before : Transport
  after : Transport

structure Node where
  transport : Transport := {}
  created : List (BitVec 32) := []
  returned : List (BitVec 32 × Event) := []
  /-- Newest first. -/
  held : List (Ep × GniSmsgMessage) := []
  releases : List Release := []

/-- The current message of an endpoint: the one got last of those not released. -/
def Node.current (n : Node) (ep : Ep) : Option GniSmsgMessage :=
  (n.held.find? (·.1 = ep)).map (·.2)

inductive Action
  | cqCreate (newCq : BitVec 32)
  | arrive (cqId : BitVec 32) (e : Event)
  | cqGetEvent (cqHndl : BitVec 32)
  | smsgGetNext (ep : Ep)
  | smsgGetNextWTag (ep : Ep) (tag : BitVec 8)
  | smsgRelease (ep : Ep)
  deriving DecidableEq, Repr

/-- The short message at the head of a queue, if the head is one. -/
def Transport.nextSmsg (t : Transport) (cqId : BitVec 32) : Option GniSmsgMessage :=
  (t.cqs cqId).head?.bind Event.nextSmsg

/-- The record of a call that gets a short message. -/
def Node.got (n : Node) (ep : Ep) (get : SmsgGet) (t : Transport) : Node :=
  match get.ret, n.transport.nextSmsg ep.cqId with
  | .success, some smsg =>
    { n with
      transport := t
      returned := n.returned ++ [(ep.cqId, .smsg smsg)]
      held := (ep, smsg) :: n.held }
  | _, _ => { n with transport := t }

def step (n : Node) : Action → Except Fault Node
  | .cqCreate newCq => do
    let t ← allocateCq n.transport newCq
    return { n with transport := t, created := newCq :: n.created }
  | .arrive cqId e => return { n with transport := arrive n.transport cqId e }
  | .cqGetEvent cqHndl =>
    match gniCqGetEvent n.transport cqHndl with
    | (.success, some e, t) =>
      return { n with transport := t, returned := n.returned ++ [(cqHndl, e)] }
    | (_, _, t) => return { n with transport := t }
  | .smsgGetNext ep => do
    let (get, t) ← gniSmsgGetNext n.transport ep
    return n.got ep get t
  | .smsgGetNextWTag ep tag => do
    let (get, t) ← gniSmsgGetNextWTag n.transport ep tag
    return n.got ep get t
  | .smsgRelease ep => do
    let (ret, t) ← gniSmsgRelease n.transport ep
    return { n with
      transport := t
      held := n.held.eraseP (·.1 = ep)
      releases := n.releases ++ [⟨n.current ep, ret, n.transport, t⟩] }

/-- What a caller owes the library: endpoints are created with handles that `GNI_CqCreate` returned,
and these come from sumi. -/
def Valid (n : Node) : Action → Prop
  | .cqCreate newCq => ValidCqId newCq
  | .arrive _ _ => True
  | .cqGetEvent _ => True
  | .smsgGetNext ep => ep.cqId ∈ n.created
  | .smsgGetNextWTag ep _ => ep.cqId ∈ n.created
  | .smsgRelease ep => ep.cqId ∈ n.created

instance (n : Node) (a : Action) : Decidable (Valid n a) :=
  match a with
  | .cqCreate newCq => inferInstanceAs (Decidable (ValidCqId newCq))
  | .arrive _ _ => .isTrue trivial
  | .cqGetEvent _ => .isTrue trivial
  | .smsgGetNext ep => inferInstanceAs (Decidable (ep.cqId ∈ n.created))
  | .smsgGetNextWTag ep _ => inferInstanceAs (Decidable (ep.cqId ∈ n.created))
  | .smsgRelease ep => inferInstanceAs (Decidable (ep.cqId ∈ n.created))

/-! ## §2 — what a step can do -/

inductive Step (n : Node) : Action → Node → Prop
  | cqCreate {newCq : BitVec 32} {t : Transport} (h : allocateCq n.transport newCq = .ok t) :
    Step n (.cqCreate newCq) { n with transport := t, created := newCq :: n.created }
  | arrive (cqId : BitVec 32) (e : Event) :
    Step n (.arrive cqId e) { n with transport := Ugni.arrive n.transport cqId e }
  | noEvent {cqId : BitVec 32} (h : n.transport.cqs cqId = []) : Step n (.cqGetEvent cqId) n
  | event {cqId : BitVec 32} {e : Event} {rest : List Event}
    (h : n.transport.cqs cqId = e :: rest) :
    Step n (.cqGetEvent cqId)
      { n with
        transport := n.transport.pop cqId rest
        returned := n.returned ++ [(cqId, e)] }
  | next {ep : Ep} {e : Event} {rest : List Event} {smsg : GniSmsgMessage}
    (h : n.transport.cqs ep.cqId = e :: rest) (hsmsg : e.nextSmsg = some smsg) :
    Step n (.smsgGetNext ep)
      { n with
        transport := n.transport.pop ep.cqId rest
        returned := n.returned ++ [(ep.cqId, e)]
        held := (ep, smsg) :: n.held }
  | nextDropped {ep : Ep} {e : Event} {rest : List Event}
    (h : n.transport.cqs ep.cqId = e :: rest) (hdrop : e.nextSmsg = none) :
    Step n (.smsgGetNext ep) { n with transport := n.transport.pop ep.cqId rest }
  | nextWTag {ep : Ep} {tag : BitVec 8} {e : Event} {rest : List Event} {smsg : GniSmsgMessage}
    (h : n.transport.cqs ep.cqId = e :: rest) (hsmsg : e.nextSmsg = some smsg)
    (htag : tagMatches tag smsg = true) (htable : n.transport.InTable ep.cqId) :
    Step n (.smsgGetNextWTag ep tag)
      { n with
        transport := (n.transport.pop ep.cqId rest).setSlot ep.cqId (some smsg)
        returned := n.returned ++ [(ep.cqId, e)]
        held := (ep, smsg) :: n.held }
  | nextWTagDropped {ep : Ep} {tag : BitVec 8} {e : Event} {rest : List Event}
    (h : n.transport.cqs ep.cqId = e :: rest)
    (hdrop : ∀ smsg, e.nextSmsg = some smsg → tagMatches tag smsg = false) :
    Step n (.smsgGetNextWTag ep tag) { n with transport := n.transport.pop ep.cqId rest }
  | release {ep : Ep} {smsg : GniSmsgMessage} (htable : n.transport.InTable ep.cqId)
    (hslot : n.transport.slot ep.cqId = some smsg) :
    Step n (.smsgRelease ep)
      { n with
        transport := (n.transport.setSlot ep.cqId none).deleted smsg
        held := n.held.eraseP (·.1 = ep)
        releases := n.releases ++ [⟨n.current ep, .success, n.transport,
          (n.transport.setSlot ep.cqId none).deleted smsg⟩] }
  | releaseNone {ep : Ep} (htable : n.transport.InTable ep.cqId)
    (hslot : n.transport.slot ep.cqId = none) :
    Step n (.smsgRelease ep)
      { n with
        transport := n.transport.setSlot ep.cqId none
        held := n.held.eraseP (·.1 = ep)
        releases := n.releases ++ [⟨n.current ep, .invalidState, n.transport,
          n.transport.setSlot ep.cqId none⟩] }

variable {n n' : Node}

theorem nextSmsg_of_cons {t : Transport} {cqId : BitVec 32} {e : Event} {rest : List Event}
    (h : t.cqs cqId = e :: rest) : t.nextSmsg cqId = e.nextSmsg := by
  rw [Transport.nextSmsg, h]
  rfl

theorem got_success {ep : Ep} {get : SmsgGet} {t : Transport} {smsg : GniSmsgMessage}
    (hret : get.ret = .success) (hnext : n.transport.nextSmsg ep.cqId = some smsg) :
    n.got ep get t =
      { n with
        transport := t
        returned := n.returned ++ [(ep.cqId, .smsg smsg)]
        held := (ep, smsg) :: n.held } := by
  simp only [Node.got, hret, hnext]

theorem got_failure {ep : Ep} {get : SmsgGet} {t : Transport} (hret : get.ret ≠ .success) :
    n.got ep get t = { n with transport := t } := by
  unfold Node.got
  split
  · rename_i h _
    exact absurd h hret
  · rfl

theorem step_of_Step {a : Action} (h : Step n a n') : step n a = .ok n' := by
  cases h with
  | cqCreate h =>
      simp only [step, h]
      rfl
  | arrive cqId e => rfl
  | noEvent h =>
      simp only [step, gniCqGetEvent, poll, h]
      rfl
  | event h =>
      simp only [step, gniCqGetEvent, poll, h]
      rfl
  | next h hsmsg =>
      obtain ⟨rfl, -⟩ := nextSmsg_eq_some.mp hsmsg
      rw [step, gniSmsgGetNext_some h hsmsg]
      exact congrArg Except.ok (got_success rfl ((nextSmsg_of_cons h).trans hsmsg))
  | nextDropped h hdrop =>
      rw [step, gniSmsgGetNext_none h hdrop]
      exact congrArg Except.ok (got_failure (by decide))
  | nextWTag h hsmsg htag htable =>
      obtain ⟨rfl, -⟩ := nextSmsg_eq_some.mp hsmsg
      rw [step, gniSmsgGetNextWTag_match h hsmsg htag htable]
      exact congrArg Except.ok (got_success rfl ((nextSmsg_of_cons h).trans hsmsg))
  | nextWTagDropped h hdrop =>
      obtain ⟨get, hret, hget⟩ := gniSmsgGetNextWTag_mismatch h hdrop
      rw [step, hget]
      exact congrArg Except.ok (got_failure hret)
  | release htable hslot =>
      rw [step, gniSmsgRelease_some htable hslot]
      rfl
  | releaseNone htable hslot =>
      rw [step, gniSmsgRelease_none htable hslot]
      rfl

/-- **The outcomes of a step.** `Step` lists them all. -/
theorem Step_of_step {a : Action} (h : step n a = .ok n') : Step n a n' := by
  cases a with
  | cqCreate newCq =>
      obtain ⟨t, ht, hret⟩ := bind_eq_ok.mp h
      cases hret
      exact .cqCreate ht
  | arrive cqId e =>
      cases h
      exact .arrive cqId e
  | cqGetEvent cqId =>
      cases hq : n.transport.cqs cqId with
      | nil =>
          rw [step_of_Step (.noEvent hq)] at h
          cases h
          exact .noEvent hq
      | cons e rest =>
          rw [step_of_Step (.event hq)] at h
          cases h
          exact .event hq
  | smsgGetNext ep =>
      cases hq : n.transport.cqs ep.cqId with
      | nil =>
          rw [step, gniSmsgGetNext_nil hq] at h
          cases h
      | cons e rest =>
          cases hsmsg : e.nextSmsg with
          | none =>
              rw [step_of_Step (.nextDropped hq hsmsg)] at h
              cases h
              exact .nextDropped hq hsmsg
          | some smsg =>
              rw [step_of_Step (.next hq hsmsg)] at h
              cases h
              exact .next hq hsmsg
  | smsgGetNextWTag ep tag =>
      cases hq : n.transport.cqs ep.cqId with
      | nil =>
          rw [step, gniSmsgGetNextWTag_nil hq] at h
          cases h
      | cons e rest =>
          by_cases hdrop : ∀ smsg, e.nextSmsg = some smsg → tagMatches tag smsg = false
          · rw [step_of_Step (.nextWTagDropped hq hdrop)] at h
            cases h
            exact .nextWTagDropped hq hdrop
          · obtain ⟨smsg, hsmsg, htag⟩ : ∃ smsg, e.nextSmsg = some smsg ∧
                tagMatches tag smsg = true := by
              simpa using hdrop
            by_cases htable : n.transport.InTable ep.cqId
            · rw [step_of_Step (.nextWTag hq hsmsg htag htable)] at h
              cases h
              exact .nextWTag hq hsmsg htag htable
            · rw [step, gniSmsgGetNextWTag_outside hq hsmsg htag htable] at h
              cases h
  | smsgRelease ep =>
      by_cases htable : n.transport.InTable ep.cqId
      · cases hslot : n.transport.slot ep.cqId with
        | none =>
            rw [step_of_Step (.releaseNone htable hslot)] at h
            cases h
            exact .releaseNone htable hslot
        | some smsg =>
            rw [step_of_Step (.release htable hslot)] at h
            cases h
            exact .release htable hslot
      · rw [step, gniSmsgRelease_outside htable] at h
        cases h

/-! ## §3 — the queues created have slots -/

def CreatedInTable (n : Node) : Prop := ∀ c ∈ n.created, n.transport.InTable c

theorem createdInTable_start : CreatedInTable {} := by
  intro c hc
  cases hc

/-- Only a creation adds a queue or changes the size of the table. -/
theorem Step.table_cases {a : Action} (h : Step n a n') :
    (∃ newCq t, a = .cqCreate newCq ∧ allocateCq n.transport newCq = .ok t ∧
      n' = { n with transport := t, created := newCq :: n.created }) ∨
    (n'.created = n.created ∧
      n'.transport.pendingSmsg.length = n.transport.pendingSmsg.length) := by
  cases h with
  | cqCreate h => exact Or.inl ⟨_, _, rfl, h, rfl⟩
  | arrive cqId e => exact Or.inr ⟨rfl, rfl⟩
  | noEvent h => exact Or.inr ⟨rfl, rfl⟩
  | event h => exact Or.inr ⟨rfl, rfl⟩
  | next h hsmsg => exact Or.inr ⟨rfl, rfl⟩
  | nextDropped h hdrop => exact Or.inr ⟨rfl, rfl⟩
  | nextWTag h hsmsg htag hin => exact Or.inr ⟨rfl, List.length_set⟩
  | nextWTagDropped h hdrop => exact Or.inr ⟨rfl, rfl⟩
  | release hin hslot => exact Or.inr ⟨rfl, List.length_set⟩
  | releaseNone hin hslot => exact Or.inr ⟨rfl, List.length_set⟩

theorem createdInTable_step {a : Action} (htable : CreatedInTable n) (hvalid : Valid n a)
    (h : Step n a n') : CreatedInTable n' := by
  rcases h.table_cases with ⟨newCq, t, rfl, halloc, rfl⟩ | ⟨hcreated, hlength⟩
  · obtain ⟨t', ht', -, -, hlonger, hnew⟩ := allocateCq_valid (t := n.transport) hvalid
    rw [halloc] at ht'
    cases ht'
    intro c hc
    rcases List.mem_cons.mp hc with rfl | hc
    · exact hnew
    · exact Nat.lt_of_lt_of_le (htable c hc) hlonger
  · intro c hc
    rw [hcreated] at hc
    rw [Transport.InTable, hlength]
    exact htable c hc

end SstTransports.Ugni
