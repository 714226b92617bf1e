/-
# SstTransports.Ugni.Events — what becomes of the events of a completion queue.

An event is to leave its queue only by being returned from a call that succeeds.  The two calls that
get a short message take the head of the queue before they look at it, so they keep this promise
only for a head they then return.  `events_kept_iff` is exact: a run loses nothing, and none of its
calls fails on an empty queue, if and only if every such call finds at the head a short message that
it accepts.
-/
import SstTransports.Ugni.Steps

namespace SstTransports.Ugni

open SstTransports.Lib
open SstTransports.Fabric (nullptr)

/-! ## §1 — the account of a queue -/

/-- The events that arrived at a queue, in order. -/
def arrivedAt (cqId : BitVec 32) (as : List Action) : List Event :=
  as.filterMap fun
    | .arrive c e => if c = cqId then some e else none
    | _ => none

/-- The events of a queue that were returned to a caller, in order. -/
def Node.returnedAt (n : Node) (cqId : BitVec 32) : List Event :=
  n.returned.filterMap fun x => if x.1 = cqId then some x.2 else none

/-- Every event that arrived has been returned or is still in its queue. -/
def Accounted (as : List Action) (n : Node) : Prop :=
  ∀ cqId, n.returnedAt cqId ++ n.transport.cqs cqId = arrivedAt cqId as

/-- No call of the run faults, and no event leaves its queue without being returned. -/
def EventsKept (as : List Action) : Prop :=
  (∃ n, run step {} as = .ok n) ∧ EveryState step Accounted {} as

/-- A call that gets a short message finds at the head of the queue one that it accepts. -/
def HeadAccepted (n : Node) : Action → Prop
  | .smsgGetNext ep => (n.transport.nextSmsg ep.cqId).isSome = true
  | .smsgGetNextWTag ep tag => (n.transport.nextSmsg ep.cqId).any (tagMatches tag) = true
  | _ => True

instance (n : Node) (a : Action) : Decidable (HeadAccepted n a) :=
  match a with
  | .cqCreate _ => .isTrue trivial
  | .arrive _ _ => .isTrue trivial
  | .cqGetEvent _ => .isTrue trivial
  | .smsgGetNext ep => inferInstanceAs (Decidable ((n.transport.nextSmsg ep.cqId).isSome = true))
  | .smsgGetNextWTag ep tag =>
    inferInstanceAs (Decidable ((n.transport.nextSmsg ep.cqId).any (tagMatches tag) = true))
  | .smsgRelease _ => .isTrue trivial

/-! ## §2 — one step -/

variable {n n' : Node} {as : List Action}

theorem arrivedAt_snoc (cqId : BitVec 32) (as : List Action) (a : Action) :
    arrivedAt cqId (as ++ [a]) = arrivedAt cqId as ++ arrivedAt cqId [a] :=
  List.filterMap_append

theorem arrivedAt_other {a : Action} (h : ∀ c e, a ≠ .arrive c e) (cqId : BitVec 32) :
    arrivedAt cqId (as ++ [a]) = arrivedAt cqId as := by
  rw [arrivedAt_snoc]
  cases a with
  | arrive c e => exact absurd rfl (h c e)
  | cqCreate newCq => exact List.append_nil _
  | cqGetEvent c => exact List.append_nil _
  | smsgGetNext ep => exact List.append_nil _
  | smsgGetNextWTag ep tag => exact List.append_nil _
  | smsgRelease ep => exact List.append_nil _

/-- Taking the head and returning it keeps the account. -/
theorem accounted_returned {a : Action} {c : BitVec 32} {e : Event} {rest : List Event}
    (hacc : Accounted as n) (hq : n.transport.cqs c = e :: rest) (ha : ∀ c e, a ≠ .arrive c e)
    (hcqs : n'.transport.cqs = (n.transport.pop c rest).cqs)
    (hreturned : n'.returned = n.returned ++ [(c, e)]) : Accounted (as ++ [a]) n' := by
  intro d
  rw [arrivedAt_other ha, ← hacc d, Node.returnedAt, hreturned, List.filterMap_append, hcqs,
    List.append_assoc]
  congr 1
  by_cases hd : c = d
  · subst hd
    rw [pop_cqs_self, hq]
    simp
  · rw [pop_cqs_of_ne (Ne.symm hd)]
    simp [hd]

/-- Taking the head and dropping it does not. -/
theorem not_accounted_dropped {a : Action} {c : BitVec 32} {e : Event} {rest : List Event}
    (hacc : Accounted as n) (hq : n.transport.cqs c = e :: rest) (ha : ∀ c e, a ≠ .arrive c e)
    (hcqs : n'.transport.cqs = (n.transport.pop c rest).cqs)
    (hreturned : n'.returned = n.returned) : ¬ Accounted (as ++ [a]) n' := by
  intro hacc'
  have hafter := hacc' c
  rw [arrivedAt_other ha, ← hacc c, Node.returnedAt, hreturned, hcqs, pop_cqs_self, hq] at hafter
  have hlen := congrArg List.length (List.append_cancel_left hafter)
  simp at hlen

theorem accounted_unchanged {a : Action} (hacc : Accounted as n) (ha : ∀ c e, a ≠ .arrive c e)
    (hcqs : n'.transport.cqs = n.transport.cqs) (hreturned : n'.returned = n.returned) :
    Accounted (as ++ [a]) n' := by
  intro d
  rw [arrivedAt_other ha, ← hacc d, Node.returnedAt, hreturned, hcqs]
  rfl

theorem accounted_arrive (hacc : Accounted as n) (c : BitVec 32) (e : Event) :
    Accounted (as ++ [.arrive c e]) { n with transport := arrive n.transport c e } := by
  intro d
  rw [arrivedAt_snoc, ← hacc d, List.append_assoc]
  show n.returnedAt d ++ Function.update n.transport.cqs c _ d = _
  congr 1
  by_cases hd : c = d
  · subst hd
    rw [Function.update_self]
    simp [arrivedAt]
  · rw [Function.update_of_ne (Ne.symm hd)]
    simp [arrivedAt, hd]

/-- **One step.** From a state whose account is balanced, the account stays balanced exactly if the
head is accepted. -/
theorem accounted_step {a : Action} (hacc : Accounted as n) (hvalid : Valid n a)
    (h : Step n a n') : Accounted (as ++ [a]) n' ↔ HeadAccepted n a := by
  cases h with
  | cqCreate h =>
      obtain ⟨t', ht', hcqs, -⟩ := allocateCq_valid (t := n.transport) hvalid
      rw [h] at ht'
      cases ht'
      exact iff_of_true (accounted_unchanged hacc (by simp) hcqs rfl) trivial
  | arrive c e => exact iff_of_true (accounted_arrive hacc c e) trivial
  | noEvent h => exact iff_of_true (accounted_unchanged hacc (by simp) rfl rfl) trivial
  | event h => exact iff_of_true (accounted_returned hacc h (by simp) rfl rfl) trivial
  | next h hsmsg =>
      refine iff_of_true (accounted_returned hacc h (by simp) rfl rfl) ?_
      simp [HeadAccepted, nextSmsg_of_cons h, hsmsg]
  | nextDropped h hdrop =>
      refine iff_of_false (not_accounted_dropped hacc h (by simp) rfl rfl) ?_
      simp [HeadAccepted, nextSmsg_of_cons h, hdrop]
  | nextWTag h hsmsg htag hin =>
      refine iff_of_true (accounted_returned hacc h (by simp) rfl rfl) ?_
      simp [HeadAccepted, nextSmsg_of_cons h, hsmsg, htag]
  | nextWTagDropped h hdrop =>
      refine iff_of_false (not_accounted_dropped hacc h (by simp) rfl rfl) ?_
      intro hhead
      rw [HeadAccepted, nextSmsg_of_cons h, Option.any_eq_true] at hhead
      obtain ⟨smsg, hsmsg, htag⟩ := hhead
      rw [hdrop smsg hsmsg] at htag
      cases htag
  | release hin hslot => exact iff_of_true (accounted_unchanged hacc (by simp) rfl rfl) trivial
  | releaseNone hin hslot => exact iff_of_true (accounted_unchanged hacc (by simp) rfl rfl) trivial

/-- A step that finds an accepted head returns. -/
theorem step_returns {a : Action} (htable : CreatedInTable n) (hvalid : Valid n a)
    (hhead : HeadAccepted n a) : ∃ n', step n a = .ok n' := by
  cases a with
  | cqCreate newCq =>
      obtain ⟨t', ht', -⟩ := allocateCq_valid (t := n.transport) hvalid
      exact ⟨_, step_of_Step (.cqCreate ht')⟩
  | arrive c e => exact ⟨_, rfl⟩
  | cqGetEvent c =>
      cases hq : n.transport.cqs c with
      | nil => exact ⟨_, step_of_Step (.noEvent hq)⟩
      | cons e rest => exact ⟨_, step_of_Step (.event hq)⟩
  | smsgGetNext ep =>
      cases hq : n.transport.cqs ep.cqId with
      | nil => simp [HeadAccepted, Transport.nextSmsg, hq] at hhead
      | cons e rest =>
          rw [HeadAccepted, nextSmsg_of_cons hq, Option.isSome_iff_exists] at hhead
          obtain ⟨smsg, hsmsg⟩ := hhead
          exact ⟨_, step_of_Step (.next hq hsmsg)⟩
  | smsgGetNextWTag ep tag =>
      cases hq : n.transport.cqs ep.cqId with
      | nil => simp [HeadAccepted, Transport.nextSmsg, hq] at hhead
      | cons e rest =>
          rw [HeadAccepted, nextSmsg_of_cons hq, Option.any_eq_true] at hhead
          obtain ⟨smsg, hsmsg, htag⟩ := hhead
          exact ⟨_, step_of_Step (.nextWTag hq hsmsg htag (htable _ hvalid))⟩
  | smsgRelease ep =>
      have hin := htable _ hvalid
      cases hslot : n.transport.slot ep.cqId with
      | none => exact ⟨_, step_of_Step (.releaseNone hin hslot)⟩
      | some smsg => exact ⟨_, step_of_Step (.release hin hslot)⟩

/-! ## §3 — whole runs -/

/-- **When no event is lost.** For any run on any number of queues, of gets with any tags, releases
and arrivals: no call faults and every event is returned or still queued, in every state, if and
only if each call that gets a short message finds at the head of its queue a short message, and one
whose tag it accepts. -/
theorem events_kept_iff (as : List Action) (hvalid : StepsMeet step Valid {} as) :
    EventsKept as ↔ StepsMeet step HeadAccepted {} as := by
  refine run_ok_and_everyState_iff_stepsMeet
    (J := fun as n => Accounted as n ∧ CreatedInTable n) ?_ ?_ ?_ ?_ ?_ hvalid
  · exact ⟨fun _ => rfl, createdInTable_start⟩
  · exact fun as n hJ => hJ.1
  · exact fun as n a hJ hV hC => step_returns hJ.2 hV hC
  · intro as n a n' hJ hV hC h
    exact ⟨(accounted_step hJ.1 hV (Step_of_step h)).mpr hC,
      createdInTable_step hJ.2 hV (Step_of_step h)⟩
  · intro as n a n' hJ hV h hP
    exact (accounted_step hJ.1 hV (Step_of_step h)).mp hP

/-- A short message as `GNI_SmsgSendWTag` makes it. -/
def sampleSmsg (addr : Nat) (tag : BitVec 8) : GniSmsgMessage where
  addr := addr
  networkType := .smsgSend
  byteLength := 16
  localBuffer := 4096
  remoteBuffer := nullptr
  instId := 1
  type := .fmaPut
  msgId := 0
  tag := tag.setWidth 32

def sampleGniEp : Ep := ⟨0, 1, 2⟩

theorem events_kept_iff_sample :
    EventsKept [.cqCreate 2, .arrive 2 (.smsg (sampleSmsg 0 5)), .smsgGetNextWTag sampleGniEp 5] :=
  (events_kept_iff _ (by decide)).mpr (by decide)

/-- A GET completion, as it arrives at the initiator. -/
def sampleRdma (addr : Nat) (pd : BitVec 64) : GniRdmaMessage where
  addr := addr
  networkType := .rdmaGetPayload
  byteLength := 16
  localBuffer := 4096
  remoteBuffer := 8192
  instId := 1
  type := .rdmaGet
  msgId := BitVec.allOnes 64
  pd := pd
  firstOp := 0
  secondOp := 0
  syncFlagValue := 0
  syncFlagAddr := 0
  cqwriteVal := 0

/-- A tag that does not match loses the message, a get with a completion at the head loses the
completion, and a get on an empty queue does not return. -/
theorem events_lost :
    (¬ ∀ as, StepsMeet step Valid {} as → EventsKept as) ∧
      ¬ EventsKept [.cqCreate 2, .arrive 2 (.smsg (sampleSmsg 0 5)),
        .smsgGetNextWTag sampleGniEp 7] ∧
      ¬ EventsKept [.cqCreate 2, .arrive 2 (.rdma (sampleRdma 0 64)), .smsgGetNext sampleGniEp] ∧
      ¬ EventsKept [.cqCreate 2, .smsgGetNext sampleGniEp] := by
  have hmismatch : ¬ EventsKept [.cqCreate 2, .arrive 2 (.smsg (sampleSmsg 0 5)),
      .smsgGetNextWTag sampleGniEp 7] := by
    rintro ⟨-, hkept⟩
    have hlast := hkept _ (List.prefix_refl _) _ rfl 2
    revert hlast
    decide
  refine ⟨?_, hmismatch, ?_, ?_⟩
  · intro h
    exact hmismatch (h _ (by decide))
  · rintro ⟨-, hkept⟩
    have hlast := hkept _ (List.prefix_refl _) _ rfl 2
    revert hlast
    decide
  · rintro ⟨⟨n, hn⟩, -⟩
    cases hn

end SstTransports.Ugni
