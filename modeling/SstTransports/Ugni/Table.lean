/-
# SstTransports.Ugni.Table — the pending table, over whole runs.

`pending_smsg_` has a slot for each completion queue, at the index of its id, and the short-message
calls index it without a check.  What makes that safe is that `allocateCq` has grown the table past
every id that was handed out: it grows it to `new_cq+1`, computed as an `int`.

`pending_table_kept_iff`: for runs on endpoints of created queues, whatever non-negative ids sumi
gives them, no index leaves the table, nothing pending is lost, an unset slot is empty and no queue
touches another's slot, exactly if no queue is given the largest `int`.
-/
import SstTransports.Ugni.Current

namespace SstTransports.Ugni

open SstTransports.Lib

/-! ## §1 — the promise -/

/-- `GNI_EpCreate`; the endpoint is allocated at `handle`. -/
def gniEpCreate (handle : Nat) (nicEpId srcCqHndl : BitVec 32) : Ep :=
  { handle := handle, epId := nicEpId, cqId := srcCqHndl }

/-- The endpoint was created with a handle that `GNI_CqCreate` has returned. -/
def CreatedEp (n : Node) (ep : Ep) : Prop :=
  ∃ handle nicEpId, ∃ cqHndl ∈ n.created, ep = gniEpCreate handle nicEpId cqHndl

/-- Sumi gives ids that are not negative, in any order and more than once, and callers use endpoints
they have created. -/
def Promised (n : Node) : Action → Prop
  | .cqCreate newCq => 0 ≤ newCq.toInt
  | .arrive _ _ => True
  | .cqGetEvent _ => True
  | .smsgGetNext ep => CreatedEp n ep
  | .smsgGetNextWTag ep _ => CreatedEp n ep
  | .smsgRelease ep => CreatedEp n ep

/-- The action calls `setPendingSmsg` for the queue. -/
def SetsPending (n : Node) (a : Action) (cqId : BitVec 32) : Prop :=
  ∃ ep tag, a = .smsgGetNextWTag ep tag ∧ ep.cqId = cqId ∧
    (n.transport.nextSmsg cqId).any (tagMatches tag) = true

/-- The action calls `setPendingSmsg` or `takePendingSmsg` for the queue. -/
def Accesses (n : Node) (a : Action) (cqId : BitVec 32) : Prop :=
  SetsPending n a cqId ∨ ∃ ep, a = .smsgRelease ep ∧ ep.cqId = cqId

/-- What each step is to do with the table: the indices it uses are below its size, a creation returns
and leaves what is in the table where it is, and the slots of other queues stay as they are. -/
structure TableSafe (n : Node) (a : Action) : Prop where
  in_bounds : ∀ c, Accesses n a c → cqIndex c < n.transport.pendingSmsg.length
  grows : ∀ newCq, a = .cqCreate newCq → ∃ t', allocateCq n.transport newCq = .ok t' ∧
    n.transport.pendingSmsg <+: t'.pendingSmsg
  isolated : ∀ n', step n a = .ok n' → ∀ c, ¬ Accesses n a c →
    n'.transport.slot c = n.transport.slot c

/-- No step of the run calls `setPendingSmsg` for the queue. -/
def NeverSet (as : List Action) (cqId : BitVec 32) : Prop :=
  StepsMeet step (fun n a => ¬ SetsPending n a cqId) {} as

/-- All steps are safe, and wherever the run is stopped a slot that was never set reads as null. -/
structure TableKept (as : List Action) : Prop where
  safe : StepsMeet step TableSafe {} as
  fresh : EveryState step (fun pre n => ∀ c, NeverSet pre c → n.transport.slot c = none) {} as

/-- No queue is given the id `INT_MAX`. -/
def NotIntMax (_ : Node) (a : Action) : Prop := a ≠ .cqCreate (BitVec.intMax 32)

instance (n : Node) (a : Action) : Decidable (NotIntMax n a) :=
  inferInstanceAs (Decidable (a ≠ _))

/-! ## §2 — promised calls are valid -/

variable {n n' : Node} {a : Action} {as : List Action}

theorem createdEp_iff {ep : Ep} : CreatedEp n ep ↔ ep.cqId ∈ n.created := by
  constructor
  · rintro ⟨handle, nicEpId, cqHndl, hmem, rfl⟩
    exact hmem
  · intro hmem
    exact ⟨ep.handle, ep.epId, ep.cqId, hmem, rfl⟩

instance (n : Node) (ep : Ep) : Decidable (CreatedEp n ep) := decidable_of_iff _ createdEp_iff.symm

instance (n : Node) (a : Action) : Decidable (Promised n a) :=
  match a with
  | .cqCreate newCq => inferInstanceAs (Decidable (0 ≤ newCq.toInt))
  | .arrive _ _ => .isTrue trivial
  | .cqGetEvent _ => .isTrue trivial
  | .smsgGetNext ep => inferInstanceAs (Decidable (CreatedEp n ep))
  | .smsgGetNextWTag ep _ => inferInstanceAs (Decidable (CreatedEp n ep))
  | .smsgRelease ep => inferInstanceAs (Decidable (CreatedEp n ep))

theorem toNat_lt_of_toInt_nonneg {cqId : BitVec 32} (h : 0 ≤ cqId.toInt) : cqId.toNat < 2 ^ 31 := by
  have hcond := BitVec.toInt_eq_toNat_cond cqId
  have hlt := cqId.isLt
  split at hcond <;> omega

/-- Short of `INT_MAX` the table can grow past the id. -/
theorem validCqId_of_ne_intMax {cqId : BitVec 32} (h : 0 ≤ cqId.toInt)
    (hne : cqId ≠ BitVec.intMax 32) : ValidCqId cqId := by
  have hlt := toNat_lt_of_toInt_nonneg h
  have hmax : (BitVec.intMax 32).toNat = 2 ^ 31 - 1 := by decide
  have htoNat : cqId.toNat ≠ 2 ^ 31 - 1 := by
    intro heq
    exact hne (BitVec.eq_of_toNat_eq (heq.trans hmax.symm))
  unfold ValidCqId
  omega

theorem valid_of_promised (hpromised : Promised n a) (hmax : NotIntMax n a) : Valid n a := by
  cases a with
  | cqCreate newCq =>
      refine validCqId_of_ne_intMax hpromised ?_
      rintro rfl
      exact hmax rfl
  | arrive cqId e => trivial
  | cqGetEvent cqHndl => trivial
  | smsgGetNext ep => exact createdEp_iff.mp hpromised
  | smsgGetNextWTag ep tag => exact createdEp_iff.mp hpromised
  | smsgRelease ep => exact createdEp_iff.mp hpromised

/-! ## §3 — the size of the table -/

/-- The table reaches past every created queue, and its last index is below `INT_MAX`. -/
structure Sized (n : Node) : Prop where
  covers : CreatedInTable n
  bounded : n.transport.pendingSmsg.length ≤ 2 ^ 31 - 1

theorem sized_start : Sized {} := ⟨createdInTable_start, by decide⟩

/-- What a creation does to the table: it stays a part of the new one, which is no larger than need
be. -/
theorem allocateCq_grows {t t' : Transport} {newCq : BitVec 32} (hvalid : ValidCqId newCq)
    (h : allocateCq t newCq = .ok t') :
    t.pendingSmsg <+: t'.pendingSmsg ∧
      t'.pendingSmsg.length ≤ max t.pendingSmsg.length (newCq.toNat + 1) := by
  unfold ValidCqId at hvalid
  have hnext : (newCq + 1).toNat = newCq.toNat + 1 := by
    rw [BitVec.toNat_add]
    exact Nat.mod_eq_of_lt (by simp; omega)
  have hindex : cqIndex (newCq + 1) = newCq.toNat + 1 := by
    rw [cqIndex_eq_toNat (by omega), hnext]
  have hold : cqIndex newCq = newCq.toNat := cqIndex_eq_toNat (by omega)
  unfold allocateCq at h
  split at h
  · rename_i hgrow
    split at h
    · cases h
    · cases h
      refine ⟨?_, ?_⟩
      · show t.pendingSmsg <+: resize t.pendingSmsg (cqIndex (newCq + 1))
        rw [resize, List.take_of_length_le (by omega)]
        exact List.prefix_append _ _
      · show (resize t.pendingSmsg (cqIndex (newCq + 1))).length ≤ _
        rw [length_resize, hindex]
        exact Nat.le_max_right _ _
  · cases h
    exact ⟨List.prefix_refl _, Nat.le_max_left _ _⟩

theorem sized_step (hsized : Sized n) (hvalid : Valid n a) (h : Step n a n') : Sized n' := by
  refine ⟨createdInTable_step hsized.covers hvalid h, ?_⟩
  have hbounded := hsized.bounded
  rcases h.table_cases with ⟨newCq, t, rfl, halloc, rfl⟩ | ⟨-, hlength⟩
  · have hlength := (allocateCq_grows hvalid halloc).2
    have hid : newCq.toNat + 1 < 2 ^ 31 := hvalid
    show t.pendingSmsg.length ≤ 2 ^ 31 - 1
    omega
  · rw [hlength]
    exact hbounded

/-! ## §4 — what a step does to the slots -/

/-- Only a get that takes a message, or a release, changes the slot of a queue. -/
theorem slot_frame (hvalid : Valid n a) (h : Step n a n') {c : BitVec 32} (hc : ¬ Accesses n a c) :
    n'.transport.slot c = n.transport.slot c := by
  cases h with
  | cqCreate h =>
      obtain ⟨t', ht', -, hslot, -⟩ := allocateCq_valid (t := n.transport) hvalid
      rw [h] at ht'
      cases ht'
      exact hslot c
  | arrive cqId e => rfl
  | noEvent h => rfl
  | event h => rfl
  | next h hsmsg => rfl
  | nextDropped h hdrop => rfl
  | @nextWTag ep tag e rest smsg h hsmsg htag hin =>
      have hne : c ≠ ep.cqId := by
        rintro rfl
        refine hc (Or.inl ⟨ep, tag, rfl, rfl, ?_⟩)
        rw [nextSmsg_of_cons h, hsmsg]
        exact htag
      show ((n.transport.pop ep.cqId rest).setSlot ep.cqId (some smsg)).slot c = _
      rw [setSlot_slot (t := n.transport.pop ep.cqId rest) hin, if_neg hne]
      rfl
  | nextWTagDropped h hdrop => rfl
  | @release ep smsg hin hslot =>
      have hne : c ≠ ep.cqId := by
        rintro rfl
        exact hc (Or.inr ⟨ep, rfl, rfl⟩)
      exact (setSlot_slot hin none c).trans (if_neg hne)
  | @releaseNone ep hin hslot =>
      have hne : c ≠ ep.cqId := by
        rintro rfl
        exact hc (Or.inr ⟨ep, rfl, rfl⟩)
      exact (setSlot_slot hin none c).trans (if_neg hne)

/-- A release leaves the slot of its queue empty. -/
theorem slot_released {ep : Ep} (h : Step n (.smsgRelease ep) n') :
    n'.transport.slot ep.cqId = none := by
  cases h with
  | release hin hslot => exact (setSlot_slot hin none ep.cqId).trans (if_pos rfl)
  | releaseNone hin hslot => exact (setSlot_slot hin none ep.cqId).trans (if_pos rfl)

/-- A slot that is empty and not set stays empty. -/
theorem slot_none_step {c : BitVec 32} (hvalid : Valid n a) (h : Step n a n')
    (hnone : n.transport.slot c = none) (hset : ¬ SetsPending n a c) :
    n'.transport.slot c = none := by
  by_cases hc : Accesses n a c
  · rcases hc with hc | ⟨ep, rfl, rfl⟩
    · exact absurd hc hset
    · exact slot_released h
  · rw [slot_frame hvalid h hc]
    exact hnone

/-- The slots that are accessed belong to created queues. -/
theorem mem_created_of_accesses {c : BitVec 32} (hpromised : Promised n a) (hc : Accesses n a c) :
    c ∈ n.created := by
  rcases hc with ⟨ep, tag, rfl, rfl, -⟩ | ⟨ep, rfl, rfl⟩
  · exact createdEp_iff.mp hpromised
  · exact createdEp_iff.mp hpromised

/-! ## §5 — whole runs -/

/-- A step of a sized table is safe exactly if it does not create the queue `INT_MAX`. -/
theorem tableSafe_iff (hsized : Sized n) (hpromised : Promised n a) :
    TableSafe n a ↔ NotIntMax n a := by
  constructor
  · rintro hsafe rfl
    obtain ⟨t', ht', -⟩ := hsafe.grows _ rfl
    have hgrow : n.transport.pendingSmsg.length ≤ cqIndex (BitVec.intMax 32) := hsized.bounded
    rw [allocateCq, if_pos hgrow, if_pos rfl] at ht'
    cases ht'
  · intro hmax
    have hvalid := valid_of_promised hpromised hmax
    refine ⟨?_, ?_, ?_⟩
    · intro c hc
      exact hsized.covers c (mem_created_of_accesses hpromised hc)
    · rintro newCq rfl
      obtain ⟨t', ht', -⟩ := allocateCq_valid (t := n.transport) hvalid
      exact ⟨t', ht', (allocateCq_grows hvalid ht').1⟩
    · intro n' h c hc
      exact slot_frame hvalid (Step_of_step h) hc

/-- In a run of valid calls a slot that was never set is empty. -/
theorem slot_of_neverSet (hvalid : StepsMeet step Valid {} as) (hrun : run step {} as = .ok n)
    {c : BitVec 32} (hset : NeverSet as c) : n.transport.slot c = none := by
  refine run_induction_of_stepsMeet (P := fun _ n => n.transport.slot c = none)
    (C := fun n a => Valid n a ∧ ¬ SetsPending n a c) (H := fun _ => True) (fun _ _ h => h)
    (slot_start c) ?_ trivial hrun (stepsMeet_and.mpr ⟨hvalid, hset⟩)
  intro as n a n' _ hnone hC h
  exact slot_none_step hC.1 (Step_of_step h) hnone hC.2

/-- **When the pending table is kept.** For any run on endpoints created with handles that
`GNI_CqCreate` returned, whatever non-negative ids `allocateCqId` gives: every index used is in the
table, growing it loses nothing, a slot that was never set reads as null and the slots of other queues
stay as they are, exactly if no queue is given the id `INT_MAX`. -/
theorem pending_table_kept_iff (as : List Action) (hpromised : StepsMeet step Promised {} as) :
    TableKept as ↔ StepsMeet step NotIntMax {} as := by
  have hexact : StepsMeet step TableSafe {} as ↔ StepsMeet step NotIntMax {} as := by
    refine stepsMeet_iff_of_invariant (J := Sized) ?_ ?_ sized_start hpromised
    · intro n a n' hsized hV hD h
      exact sized_step hsized (valid_of_promised hV hD) (Step_of_step h)
    · intro n a hsized hV
      exact tableSafe_iff hsized hV
  constructor
  · intro h
    exact hexact.mp h.safe
  · intro hmax
    refine ⟨hexact.mpr hmax, ?_⟩
    intro pre hpre n hrun c hset
    have hvalid : StepsMeet step Valid {} as := by
      refine (stepsMeet_and.mpr ⟨hpromised, hmax⟩).mono ?_
      intro n a h
      exact valid_of_promised h.1 h.2
    exact slot_of_neverSet (hvalid.of_prefix hpre) hrun hset

/-- Queues beyond the first four, one id given twice, a message got and released. -/
theorem pending_table_kept_iff_sample :
    TableKept [.cqCreate 9, .cqCreate 2, .arrive 9 (.smsg (sampleSmsg 0 5)),
      .smsgGetNextWTag (gniEpCreate 0 1 9) 5, .cqCreate 9, .smsgRelease (gniEpCreate 0 1 9)] :=
  (pending_table_kept_iff _ (by decide)).mpr (by decide)

/-- `GNI_CqCreate` when `allocateCqId` returns 2147483647: the size of the table is not an `int`. -/
theorem pending_table_overflows :
    StepsMeet step Promised {} [.cqCreate (BitVec.intMax 32)] ∧
      ¬ TableKept [.cqCreate (BitVec.intMax 32)] ∧
      allocateCq {} (BitVec.intMax 32) = .error .signedOverflow := by
  refine ⟨by decide, ?_, rfl⟩
  intro h
  obtain ⟨t', ht', -⟩ := h.safe.1.grows _ rfl
  cases ht'

end SstTransports.Ugni
