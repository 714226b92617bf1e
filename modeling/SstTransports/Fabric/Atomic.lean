/-
# SstTransports.Fabric.Atomic — what a refused bind leaves behind.

A call of `sstmac_ep_bind` that returns an error is to change nothing, so that it can be repeated with
other flags.  The case `FI_CLASS_CQ` fills a slot of the endpoint first and looks at the rest of the
flags afterwards: refused there, the endpoint holds a completion queue that was given no `RecvQueue`,
and a later, correct bind finds the slot taken.

`binds_atomic_iff` says which calls do no harm: all but those that are refused halfway.
-/
import SstTransports.Fabric.Bind

namespace SstTransports.Fabric

open SstTransports.Lib

/-! ## §1 — runs -/

/-- The arguments of `sstmac_ep_bind`. -/
structure EpBind where
  ep : Nat
  bfid : Fid
  flags : BitVec 64
  deriving DecidableEq, Repr

/-- A call that has returned. -/
structure Attempt where
  call : EpBind
  ret : Int
  before : Provider
  after : Provider

structure Attempts where
  provider : Provider := {}
  made : List Attempt := []

def bindStep (s : Attempts) (c : EpBind) : Except Fault Attempts := do
  let (ret, p) ← sstmacEpBind s.provider c.ep c.bfid c.flags
  return ⟨p, s.made ++ [⟨c, ret, s.provider, p⟩]⟩

/-! ## §2 — the promise, and the condition -/

/-- What binding changes: the slots of the endpoints, the queues of the completion queues, and what
is registered with the transport. -/
structure Bindings where
  slots : List (Option Nat × Option Nat × Option Nat)
  queues : List (Option Nat)
  handlers : BitVec 32 → Option Nat

def Provider.bindings (p : Provider) : Bindings where
  slots := p.eps.map fun e => (e.sendCq, e.recvCq, e.eq)
  queues := p.cqs.map (·.queue)
  handlers := p.handlers

/-- The call would return success. -/
def Succeeds (p : Provider) (c : EpBind) : Prop :=
  ∃ ret p', sstmacEpBind p c.ep c.bfid c.flags = .ok (ret, p') ∧ 0 ≤ ret

/-- The calls of the run that have succeeded. -/
def Attempts.succeeded (s : Attempts) : List EpBind :=
  (s.made.filter fun a => decide (0 ≤ a.ret)).map (·.call)

/-- The endpoint has, in the slot, a completion queue without a `RecvQueue`. -/
def Provider.holdsUnqueued (p : Provider) (slot : FidEp → Option Nat) (ep : Nat) : Bool :=
  (p.eps[ep]?.bind slot).any fun i => p.cqs[i]?.any (·.queue.isNone)

/-- Calls that failed have done no harm in a run from `p`. -/
structure FailuresHarmless (p : Provider) (s : Attempts) : Prop where
  /-- They have changed no binding. -/
  atomic : ∀ a ∈ s.made, a.ret < 0 → a.after.bindings = a.before.bindings
  /-- What would succeed now, had they not been made, does. -/
  prevent_nothing : ∃ t, run bindStep ⟨p, []⟩ s.succeeded = .ok t ∧
    ∀ c, Succeeds t.provider c → Succeeds s.provider c
  /-- No endpoint has come to hold a completion queue without a queue. -/
  queued : ∀ slot ∈ [FidEp.sendCq, FidEp.recvCq], ∀ ep,
    s.provider.holdsUnqueued slot ep = true → p.holdsUnqueued slot ep = true

/-- The call is not refused halfway. -/
def NotHalfway (p : Provider) (c : EpBind) : Prop :=
  match c.bfid with
  | .cq i => ∀ e ∈ p.eps[c.ep]?, ∀ cq ∈ p.cqs[i]?, refusedHalfway e cq c.flags = false
  | _ => True

/-! ## §3 — one call -/

variable {p p' : Provider} {c : EpBind} {ret : Int}

/-- All that a call can return and leave. -/
inductive BindOutcome (p : Provider) (c : EpBind) : Int → Provider → Prop
  | refused {ret : Int} (neg : ret < 0) (whole : NotHalfway p c) : BindOutcome p c ret p
  | halfway {i : Nat} {e : FidEp} {cq : FidCq} (hfid : c.bfid = .cq i) (he : p.eps[c.ep]? = some e)
      (hcq : p.cqs[i]? = some cq) (half : refusedHalfway e cq c.flags = true) :
      BindOutcome p c (-fiEinval) { p with eps := p.eps.set c.ep (e.halfFilled i c.flags) }
  | unchanged (whole : NotHalfway p c) : BindOutcome p c 0 p
  | eq {i : Nat} {e : FidEp} (he : p.eps[c.ep]? = some e) (whole : NotHalfway p c) :
      BindOutcome p c 0 { p with eps := p.eps.set c.ep { e with eq := some i } }
  | cq {i : Nat} {e : FidEp} {cq : FidCq} (he : p.eps[c.ep]? = some e) (hcq : p.cqs[i]? = some cq)
      (whole : NotHalfway p c) : BindOutcome p c 0 (p.bound c.ep (e.filled i c.flags) i cq)

/-- What is accepted is not refused halfway. -/
theorem refusedHalfway_of_accepts {e : FidEp} {cq : FidCq} {flags : BitVec 64}
    (h : acceptsCq e cq flags = true) : refusedHalfway e cq flags = false := by
  cases htransmit : hasFlag flags fiTransmit <;> cases hrecv : hasFlag flags fiRecv <;>
    cases hselective : hasFlag flags fiSelectiveCompletion <;>
    simp_all [refusedHalfway, acceptsCq]

theorem bindCq_outcome {i : Nat} {e : FidEp} {cq : FidCq} (hfid : c.bfid = .cq i)
    (he : p.eps[c.ep]? = some e) (hcq : p.cqs[i]? = some cq) (hclass : cq.fclass = .cq)
    (h : bindCq p c.ep e i cq c.flags = (ret, p')) : BindOutcome p c ret p' := by
  have hwhole : refusedHalfway e cq c.flags = false → NotHalfway p c := by
    intro h
    simpa [NotHalfway, hfid, he, hcq] using h
  rw [bindCq_eq i c.flags he hclass] at h
  cases haccepts : acceptsCq e cq c.flags with
  | true =>
      rw [haccepts] at h
      cases h
      exact .cq he hcq (hwhole (refusedHalfway_of_accepts haccepts))
  | false =>
      rw [haccepts] at h
      cases hhalf : refusedHalfway e cq c.flags with
      | true =>
          rw [hhalf] at h
          cases h
          exact .halfway hfid he hcq hhalf
      | false =>
          rw [hhalf] at h
          cases h
          exact .refused (by simp [fiEinval]) (hwhole hhalf)

/-- Outside the case `FI_CLASS_CQ` no call is refused halfway. -/
theorem notHalfway_of_fclass {fclass : FiClass} (h : fclassOf p c.bfid = .ok fclass)
    (hclass : fclass ≠ .cq) : NotHalfway p c := by
  unfold NotHalfway
  split
  · rename_i i hfid
    intro e _ cq hcq
    rw [hfid, fclassOf] at h
    obtain ⟨cq', hcq', rfl⟩ := map_at?_eq_ok h
    obtain rfl : cq' = cq := by simpa [hcq'] using hcq
    simp [refusedHalfway, hclass]
  · trivial

theorem bindOther_outcome {fclass : FiClass} (hwhole : NotHalfway p c)
    (h : bindOther p fclass = (ret, p')) : BindOutcome p c ret p' := by
  unfold bindOther at h
  split at h <;> cases h
  · exact .refused (by simp [fiEinval]) hwhole
  · exact .refused (by simp [fiEinval]) hwhole
  · exact .unchanged hwhole
  · exact .unchanged hwhole
  · exact .refused (by simp [fiEnosys]) hwhole

theorem bindByClass_outcome {e : FidEp} {dom : FidDomain} {fclass : FiClass}
    (he : p.eps[c.ep]? = some e) (hclass : fclassOf p c.bfid = .ok fclass)
    (h : bindByClass p c.ep e dom c.flags c.bfid fclass = .ok (ret, p')) :
    BindOutcome p c ret p' := by
  have hwhole : fclass ≠ .cq → NotHalfway p c := notHalfway_of_fclass hclass
  unfold bindByClass at h
  split at h
  · obtain ⟨eq, -, h⟩ := map_at?_eq_ok h
    unfold bindEq at h
    split at h
    · cases h
      exact .refused (by simp [fiEinval]) (hwhole (by decide))
    · cases h
      exact .eq he (hwhole (by decide))
  · rename_i i hfid
    obtain ⟨cq, hcq, h⟩ := map_at?_eq_ok h
    rw [hfid, fclassOf] at hclass
    obtain ⟨cq', hcq', hcqclass⟩ := map_at?_eq_ok hclass
    obtain rfl : cq' = cq := Option.some.inj (hcq'.symm.trans hcq)
    exact bindCq_outcome hfid he hcq hcqclass h
  · obtain ⟨av, -, h⟩ := map_at?_eq_ok h
    unfold bindAv at h
    split at h
    · cases h
      exact .refused (by simp [fiEinval]) (hwhole (by decide))
    · cases h
      exact .unchanged (hwhole (by decide))
  · cases h
  · cases h
  · cases h
  · rename_i hcq _ _ _ _
    exact bindOther_outcome (hwhole hcq) (Except.ok.inj h)

/-- Whatever the class of the object, a call that returns has one of the outcomes. -/
theorem sstmacEpBind_outcome (h : sstmacEpBind p c.ep c.bfid c.flags = .ok (ret, p')) :
    BindOutcome p c ret p' := by
  obtain ⟨e, he, h⟩ := bind_eq_ok.mp h
  obtain ⟨dom, -, h⟩ := bind_eq_ok.mp h
  obtain ⟨-, -, h⟩ := bind_eq_ok.mp h
  obtain ⟨fclass, hclass, h⟩ := bind_eq_ok.mp h
  obtain ⟨_, ⟨⟩, he⟩ := at?_eq_ok he
  exact bindByClass_outcome he hclass h

/-! ## §4 — what the outcomes do to the promise -/

/-- A call that is refused halfway has changed a slot. -/
theorem bindings_halfway {i : Nat} {e : FidEp} {cq : FidCq} (he : p.eps[c.ep]? = some e)
    (hhalf : refusedHalfway e cq c.flags = true) :
    ({ p with eps := p.eps.set c.ep (e.halfFilled i c.flags) } : Provider).bindings ≠ p.bindings := by
  intro h
  have hlt : c.ep < p.eps.length := (List.getElem?_eq_some_iff.mp he).1
  have hslots : ((e.halfFilled i c.flags).sendCq, (e.halfFilled i c.flags).recvCq) =
      (e.sendCq, e.recvCq) := by
    have hep := congrArg (fun b : Bindings => b.slots[c.ep]?) h
    simp only [Provider.bindings, List.getElem?_map, List.getElem?_set_self hlt, he,
      Option.map_some, Option.some.injEq, Prod.mk.injEq] at hep
    exact Prod.ext hep.1 hep.2.1
  cases htransmit : hasFlag c.flags fiTransmit with
  | true =>
      have hempty : e.sendCq = none := by
        simp [refusedHalfway, htransmit] at hhalf
        exact hhalf.2.1
      simp [FidEp.halfFilled, htransmit, hempty] at hslots
  | false =>
      have hempty : e.recvCq = none := by
        simp [refusedHalfway, htransmit] at hhalf
        exact hhalf.2.1.2
      simp [FidEp.halfFilled, htransmit, hempty] at hslots

/-- A call that fails, and is not refused halfway, leaves the provider as it was. -/
theorem eq_of_refused (h : BindOutcome p c ret p') (hwhole : NotHalfway p c) (hneg : ret < 0) :
    p' = p := by
  cases h with
  | refused => rfl
  | halfway hfid he hcq hhalf => simp [NotHalfway, hfid, he, hcq, hhalf] at hwhole
  | unchanged | eq | cq => cases hneg

theorem holdsUnqueued_iff {slot : FidEp → Option Nat} {ep : Nat} :
    p.holdsUnqueued slot ep = true ↔
      ∃ e i cq, p.eps[ep]? = some e ∧ slot e = some i ∧ p.cqs[i]? = some cq ∧ cq.queue = none := by
  simp only [Provider.holdsUnqueued, Option.any_eq_true, Option.bind_eq_some_iff,
    Option.isNone_iff_eq_none]
  constructor
  · rintro ⟨i, ⟨e, he, hi⟩, cq, hcq, hqueue⟩
    exact ⟨e, i, cq, he, hi, hcq, hqueue⟩
  · rintro ⟨e, i, cq, he, hi, hcq, hqueue⟩
    exact ⟨i, ⟨e, he, hi⟩, cq, hcq, hqueue⟩

/-- Putting an endpoint in its place brings no slot to a completion queue without a queue, if the
slot is as before. -/
theorem holdsUnqueued_set {slot : FidEp → Option Nat} {ep ep' : Nat} {e e' : FidEp}
    (he : p.eps[ep]? = some e) (hslot : slot e' = slot e)
    (h : ({ p with eps := p.eps.set ep e' } : Provider).holdsUnqueued slot ep' = true) :
    p.holdsUnqueued slot ep' = true := by
  have hmap : ((p.eps.set ep e')[ep']?).bind slot = p.eps[ep']?.bind slot := by
    rw [List.getElem?_set]
    split
    · rename_i heq
      subst heq
      have hlt : ep < p.eps.length := (List.getElem?_eq_some_iff.mp he).1
      rw [if_pos hlt, he, Option.bind_some, Option.bind_some, hslot]
    · rfl
  rwa [Provider.holdsUnqueued, hmap] at h

/-- Nor does a bind that is accepted: the completion queue in the filled slots has one. -/
theorem holdsUnqueued_bound {slot : FidEp → Option Nat} {ep ep' i : Nat} {e : FidEp} {cq : FidCq}
    {flags : BitVec 64} (he : p.eps[ep]? = some e)
    (hslot : slot (e.filled i flags) = some i ∨ slot (e.filled i flags) = slot e)
    (h : (p.bound ep (e.filled i flags) i cq).holdsUnqueued slot ep' = true) :
    p.holdsUnqueued slot ep' = true := by
  obtain ⟨e', j, cq', he', hj, hcq', hqueue⟩ := holdsUnqueued_iff.mp h
  simp only [Provider.bound] at he' hcq'
  have hne : j ≠ i := by
    rintro rfl
    rw [List.getElem?_set_self'] at hcq'
    obtain ⟨_, -, rfl⟩ := Option.map_eq_some_iff.mp hcq'
    cases hqueue
  rw [List.getElem?_set_ne hne.symm] at hcq'
  rw [List.getElem?_set] at he'
  split at he'
  · rename_i heq
    subst heq
    split at he'
    · cases he'
      rcases hslot with hslot | hslot
      · exact absurd (Option.some.inj (hj.symm.trans hslot)) hne
      · exact holdsUnqueued_iff.mpr ⟨e, j, cq', he, hslot ▸ hj, hcq', hqueue⟩
    · cases he'
  · exact holdsUnqueued_iff.mpr ⟨e', j, cq', he', hj, hcq', hqueue⟩

theorem FidEp.filled_slot (e : FidEp) (i : Nat) (flags : BitVec 64) {slot : FidEp → Option Nat}
    (hslot : slot ∈ [FidEp.sendCq, FidEp.recvCq]) :
    slot (e.filled i flags) = some i ∨ slot (e.filled i flags) = slot e := by
  simp only [List.mem_cons, List.not_mem_nil, or_false] at hslot
  rcases hslot with rfl | rfl
  · cases h : hasFlag flags fiTransmit <;> simp [FidEp.filled, h]
  · cases h : hasFlag flags fiRecv <;> simp [FidEp.filled, h]

theorem holdsUnqueued_outcome {slot : FidEp → Option Nat} {ep : Nat} (h : BindOutcome p c ret p')
    (hwhole : NotHalfway p c) (hslot : slot ∈ [FidEp.sendCq, FidEp.recvCq])
    (hheld : p'.holdsUnqueued slot ep = true) : p.holdsUnqueued slot ep = true := by
  cases h with
  | refused | unchanged => exact hheld
  | halfway hfid he hcq hhalf =>
      simp [NotHalfway, hfid, he, hcq, hhalf] at hwhole
  | eq he =>
      refine holdsUnqueued_set he ?_ hheld
      simp only [List.mem_cons, List.not_mem_nil, or_false] at hslot
      rcases hslot with rfl | rfl <;> rfl
  | cq he => exact holdsUnqueued_bound he (FidEp.filled_slot _ _ _ hslot) hheld

/-! ## §5 — whole runs -/

variable {s s' : Attempts}

/-- What is carried along a run: the calls that succeeded, made alone, reach the same objects. -/
structure Undisturbed (p : Provider) (s : Attempts) : Prop extends FailuresHarmless p s where
  same : ∃ made, run bindStep ⟨p, []⟩ s.succeeded = .ok ⟨s.provider, made⟩

theorem succeeded_snoc (c : EpBind) (ret : Int) (before after : Provider) :
    Attempts.succeeded ⟨p, s.made ++ [⟨c, ret, before, after⟩]⟩ =
      s.succeeded ++ if 0 ≤ ret then [c] else [] := by
  by_cases h : 0 ≤ ret
  · simp [Attempts.succeeded, List.filter_append, h]
  · simp [Attempts.succeeded, List.filter_append, h]

theorem undisturbed_step (hs : Undisturbed p s) (hwhole : NotHalfway s.provider c)
    (h : bindStep s c = .ok s') : Undisturbed p s' := by
  obtain ⟨⟨ret, q⟩, hret, h⟩ := bind_eq_ok.mp h
  cases h
  have houtcome := sstmacEpBind_outcome hret
  have hrefused : ret < 0 → q = s.provider := eq_of_refused houtcome hwhole
  have hsame : ∃ made, run bindStep ⟨p, []⟩
      (Attempts.succeeded ⟨q, s.made ++ [⟨c, ret, s.provider, q⟩]⟩) = .ok ⟨q, made⟩ := by
    obtain ⟨made, hmade⟩ := hs.same
    rw [succeeded_snoc]
    by_cases hsucceeds : 0 ≤ ret
    · rw [if_pos hsucceeds]
      refine ⟨made ++ [⟨c, ret, s.provider, q⟩], run_snoc_ok.mpr ⟨_, hmade, ?_⟩⟩
      exact bind_eq_ok.mpr ⟨(ret, q), hret, rfl⟩
    · rw [if_neg hsucceeds, List.append_nil, hrefused (by omega)]
      exact ⟨made, hmade⟩
  refine ⟨⟨?_, ?_, ?_⟩, hsame⟩
  · refine List.forall_mem_append.mpr ⟨hs.atomic, List.forall_mem_singleton.mpr ?_⟩
    intro hneg
    exact congrArg Provider.bindings (hrefused hneg)
  · obtain ⟨made, hmade⟩ := hsame
    exact ⟨_, hmade, fun _ h => h⟩
  · intro slot hslot ep hheld
    exact hs.queued slot hslot ep (holdsUnqueued_outcome houtcome hwhole hslot hheld)

/-- A call after which no failure has changed a binding was not refused halfway. -/
theorem notHalfway_of_atomic (h : bindStep s c = .ok s')
    (hatomic : ∀ a ∈ s'.made, a.ret < 0 → a.after.bindings = a.before.bindings) :
    NotHalfway s.provider c := by
  obtain ⟨⟨ret, q⟩, hret, h⟩ := bind_eq_ok.mp h
  cases h
  have hlast := hatomic _ (List.mem_append_right _ List.mem_cons_self)
  cases sstmacEpBind_outcome hret with
  | refused _ hwhole | unchanged hwhole | eq _ hwhole | cq _ _ hwhole => exact hwhole
  | halfway _ he _ hhalf =>
      exact absurd (hlast (by simp [fiEinval])) (bindings_halfway he hhalf)

/-- **Which binds are atomic.** From any provider, in any run of binds of objects of any class with
any flags, the calls that fail change no binding, keep no later call from succeeding and leave no
endpoint with a completion queue that has no queue, exactly if no call is refused halfway. -/
theorem binds_atomic_iff (p : Provider) (cs : List EpBind) (s : Attempts)
    (hrun : run bindStep ⟨p, []⟩ cs = .ok s) :
    EveryState bindStep (fun _ s => FailuresHarmless p s) ⟨p, []⟩ cs ↔
      StepsMeet bindStep (fun s c => NotHalfway s.provider c) ⟨p, []⟩ cs := by
  have hstart : Undisturbed p ⟨p, []⟩ := by
    refine ⟨⟨?_, ⟨_, rfl, fun _ h => h⟩, fun _ _ _ h => h⟩, [], rfl⟩
    intro a ha
    cases ha
  refine everyState_iff_stepsMeet_of_invariant (H := fun _ => True) (V := fun _ _ => True)
    (J := fun _ s => Undisturbed p s) (fun _ _ h => h) hstart (fun _ s hs => hs.toFailuresHarmless)
    ?_ ?_ trivial hrun (stepsMeet_of_forall (fun _ _ => trivial) _ _)
  · intro _ s c s' _ hs _ hwhole h
    exact undisturbed_step hs hwhole h
  · intro _ s c s' _ _ _ h hharmless
    exact notHalfway_of_atomic h hharmless.atomic

instance (p : Provider) (c : EpBind) : Decidable (NotHalfway p c) :=
  match c with
  | ⟨_, .cq _, _⟩ => inferInstanceAs (Decidable (∀ _ ∈ _, ∀ _ ∈ _, _ = false))
  | ⟨_, .av _, _⟩ | ⟨_, .eq _, _⟩ | ⟨_, .other _, _⟩ => .isTrue trivial

/-- The counter is refused, and so is the second bind for sending, before it fills the slot for
receiving. -/
theorem binds_atomic_iff_sample :
    EveryState bindStep (fun _ s => FailuresHarmless sampleProvider s) ⟨sampleProvider, []⟩
      [⟨0, .other .cntr, 0⟩, ⟨0, .cq 0, fiTransmit⟩, ⟨0, .cq 0, fiTransmit ||| fiRecv⟩,
        ⟨0, .cq 0, fiRecv⟩] :=
  (binds_atomic_iff sampleProvider _ _ rfl).mpr (by decide)

/-- A bind for sending that asks for selective completion is refused, and has taken the slot: the
endpoint holds a completion queue without a queue, and the same bind without that flag, which would
have succeeded, is refused now. -/
theorem refused_bind_takes_slot :
    ¬ EveryState bindStep (fun _ s => FailuresHarmless sampleProvider s) ⟨sampleProvider, []⟩
        [⟨0, .cq 0, fiTransmit ||| fiSelectiveCompletion⟩] ∧
      ∃ p, sstmacEpBind sampleProvider 0 (.cq 0) (fiTransmit ||| fiSelectiveCompletion) =
          .ok (-fiEinval, p) ∧
        p.holdsUnqueued FidEp.sendCq 0 = true ∧
        sampleProvider.holdsUnqueued FidEp.sendCq 0 = false ∧
        Succeeds sampleProvider ⟨0, .cq 0, fiTransmit⟩ ∧ ¬ Succeeds p ⟨0, .cq 0, fiTransmit⟩ := by
  constructor
  · intro h
    have hharmless := h _ (List.prefix_refl _) _ rfl
    have hwhole : NotHalfway sampleProvider ⟨0, .cq 0, fiTransmit ||| fiSelectiveCompletion⟩ :=
      notHalfway_of_atomic (s := ⟨sampleProvider, []⟩) rfl hharmless.atomic
    exact absurd hwhole (by decide)
  · refine ⟨_, rfl, by decide, by decide, ⟨0, _, rfl, Int.le_refl 0⟩, ?_⟩
    rintro ⟨ret, p', h, hret⟩
    cases h
    exact absurd hret (by decide)

end SstTransports.Fabric
