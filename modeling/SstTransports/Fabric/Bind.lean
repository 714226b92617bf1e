/-
# SstTransports.Fabric.Bind — completion queues bound again while they are in use.

One completion queue may serve both sides of an endpoint, and several endpoints of a domain, so it is
bound several times.  A bind is to leave what is in it alone: the pending receives, the unexpected
messages and the unread completions.

`sstmac_ep_bind` makes a new `RecvQueue` at every bind and puts it in the place of the one before.
`binds_lose_nothing_iff` says which binds do no harm: those that find the completion queue empty.
-/
import SstTransports.Fabric.Opened

namespace SstTransports.Fabric

open SstTransports.Lib

/-! ## §1 — runs -/

/-- The lists of a completion queue; without a `RecvQueue` there is nothing in it. -/
def Provider.contents (p : Provider) (cq : Nat) : RecvQueue :=
  (((p.cqs[cq]?.bind (·.queue)).bind (p.queues[·]?)).map (·.toRecvQueue)).getD {}

/-- A successful bind of a completion queue: what was in it, what is in it, and whether the transport
delivers into it. -/
structure CqBind where
  before : RecvQueue
  after : RecvQueue
  ready : Bool
  deriving DecidableEq, Repr

structure Service where
  provider : Provider := {}
  binds : List CqBind := []

/-- Control and data operations, on any endpoint and completion queue. -/
inductive ServiceAction
  | epBind (ep : Nat) (bfid : Fid) (flags : BitVec 64)
  | recv (ep : Nat) (buf : Ptr) (len : BitVec 64) (srcAddr : FiAddr) (context : Ptr)
  | trecv (ep : Nat) (buf : Ptr) (len : BitVec 64) (srcAddr : FiAddr) (tag ignore : BitVec 64)
      (context : Ptr)
  | arrive (id : BitVec 32) (msg : FabricMessage)
  | cqRead (blocking : Bool) (cq : Nat) (count : Nat) (srcAddr : Bool) (timeout : Int)
  deriving DecidableEq, Repr

/-- The record of a bind that took the provider from `p` to `p'`. -/
def cqBind (p p' : Provider) (bfid : Fid) (ret : Int) : List CqBind :=
  match bfid with
  | .cq i =>
    if p.cqs[i]?.any (·.fclass == .cq) && ret == 0 then
      [⟨p.contents i, p'.contents i, p'.ready (.cq i)⟩]
    else []
  | _ => []

def serviceStep (sumi : Sumi) (s : Service) : ServiceAction → Except Fault Service
  | .epBind ep bfid flags => do
    let (ret, p) ← sstmacEpBind s.provider ep bfid flags
    return ⟨p, s.binds ++ cqBind s.provider p bfid ret⟩
  | .recv ep buf len srcAddr context => do
    let (_, p) ← s.provider.epRecv sumi ep buf len srcAddr context 0 (~~~0) 0
    return ⟨p, s.binds⟩
  | .trecv ep buf len srcAddr tag ignore context => do
    let (_, p) ← s.provider.epRecv sumi ep buf len srcAddr context tag ignore fiTagged
    return ⟨p, s.binds⟩
  | .arrive id msg => do
    let p ← s.provider.arrive sumi id msg
    return ⟨p, s.binds⟩
  | .cqRead blocking cq count srcAddr timeout => do
    let (_, p) ← s.provider.cqRead blocking cq count srcAddr timeout
    return ⟨p, s.binds⟩

/-! ## §2 — the promise, and the condition -/

/-- Every bind has left the contents alone, and what arrives next goes to the same place. -/
def BindsKeep (s : Service) : Prop := ∀ b ∈ s.binds, b.after = b.before ∧ b.ready = true

/-- The checks `sstmac_ep_bind` makes before it binds a completion queue. -/
def acceptsCq (e : FidEp) (cq : FidCq) (flags : BitVec 64) : Bool :=
  cq.fclass == .cq && e.domain == cq.domain &&
    !(hasFlag flags fiTransmit && (e.sendCq.isSome || hasFlag flags fiSelectiveCompletion)) &&
    !(hasFlag flags fiRecv && (e.recvCq.isSome || hasFlag flags fiSelectiveCompletion))

/-- A completion queue is only bound, with success, while it is empty. -/
def BoundEmpty (s : Service) : ServiceAction → Prop
  | .epBind ep (.cq i) flags =>
    ∀ e ∈ s.provider.eps[ep]?, ∀ cq ∈ s.provider.cqs[i]?, acceptsCq e cq flags = true →
      s.provider.contents i = {}
  | _ => True

/-! ## §3 — one bind -/

variable {p p' : Provider} {ep i : Nat} {e : FidEp} {cq : FidCq} {flags : BitVec 64} {ret : Int}

/-- What an accepted bind does to the provider. -/
def Provider.bound (p : Provider) (ep : Nat) (e : FidEp) (i : Nat) (cq : FidCq) : Provider :=
  { p with
    eps := p.eps.set ep e
    queues := p.queues ++ [{}]
    cqs := p.cqs.set i { cq with queue := some p.queues.length }
    handlers := Function.update p.handlers cq.id (some p.queues.length) }

/-- After it the completion queue is empty, and the transport delivers into it. -/
theorem contents_bound (ep : Nat) (e : FidEp) (hcq : p.cqs[i]? = some cq) :
    (p.bound ep e i cq).contents i = {} ∧ (p.bound ep e i cq).ready (.cq i) = true := by
  have hlt : i < p.cqs.length := (List.getElem?_eq_some_iff.mp hcq).1
  constructor
  · simp [Provider.contents, Provider.bound, hlt]
  · simp [Provider.ready, Provider.bound, hlt]

/-- The endpoint with the slots filled that the flags name. -/
def FidEp.filled (e : FidEp) (i : Nat) (flags : BitVec 64) : FidEp :=
  { e with
    sendCq := if hasFlag flags fiTransmit then some i else e.sendCq
    recvCq := if hasFlag flags fiRecv then some i else e.recvCq }

/-- The endpoint after a bind that is refused halfway. -/
def FidEp.halfFilled (e : FidEp) (i : Nat) (flags : BitVec 64) : FidEp :=
  if hasFlag flags fiTransmit then { e with sendCq := some i } else { e with recvCq := some i }

/-- Refused with a slot already filled: `FI_TRANSMIT` fills the empty one for sending, and then
`FI_SELECTIVE_COMPLETION` or the taken one for receiving is refused; `FI_RECV` alone fills the empty
one for receiving, and then `FI_SELECTIVE_COMPLETION` is refused. -/
def refusedHalfway (e : FidEp) (cq : FidCq) (flags : BitVec 64) : Bool :=
  cq.fclass == .cq && e.domain == cq.domain &&
    if hasFlag flags fiTransmit then
      e.sendCq.isNone &&
        (hasFlag flags fiSelectiveCompletion || hasFlag flags fiRecv && e.recvCq.isSome)
    else hasFlag flags fiRecv && e.recvCq.isNone && hasFlag flags fiSelectiveCompletion

/-- A bind that passes the checks makes a new queue; the others are refused, some of them halfway. -/
theorem bindCq_eq (i : Nat) (flags : BitVec 64) (he : p.eps[ep]? = some e)
    (hclass : cq.fclass = .cq) :
    bindCq p ep e i cq flags =
      if acceptsCq e cq flags then (0, p.bound ep (e.filled i flags) i cq)
      else if refusedHalfway e cq flags then
        (-fiEinval, { p with eps := p.eps.set ep (e.halfFilled i flags) })
      else (-fiEinval, p) := by
  have hput : p.eps.set ep e = p.eps := by
    obtain ⟨hlt, rfl⟩ := List.getElem?_eq_some_iff.mp he
    exact List.set_getElem_self hlt
  obtain ⟨_, _, domain, _, _, sendCq, recvCq, _⟩ := e
  by_cases hdomain : domain = cq.domain
  · -- two flags with their slots, and the flag neither may come with
    cases htransmit : hasFlag flags fiTransmit <;> cases hrecv : hasFlag flags fiRecv <;>
      cases hselective : hasFlag flags fiSelectiveCompletion <;> cases sendCq <;> cases recvCq <;>
      simp [bindCq, refusedHalfway, acceptsCq, Provider.bound, FidEp.filled, FidEp.halfFilled, hclass,
        htransmit, hrecv, hselective, hput, ← hdomain]
  · simp [bindCq, refusedHalfway, acceptsCq, hdomain]

/-- A bind that returns has found the endpoint and the completion queue. -/
theorem sstmacEpBind_cq_ok (h : sstmacEpBind p ep (.cq i) flags = .ok (ret, p')) :
    ∃ e cq, p.eps[ep]? = some e ∧ p.cqs[i]? = some cq ∧
      (cq.fclass = .cq → bindCq p ep e i cq flags = (ret, p')) := by
  obtain ⟨e, he, h⟩ := bind_eq_ok.mp h
  obtain ⟨dom, -, h⟩ := bind_eq_ok.mp h
  obtain ⟨-, -, h⟩ := bind_eq_ok.mp h
  obtain ⟨fclass, hclass, h⟩ := bind_eq_ok.mp h
  obtain ⟨_, ⟨⟩, he⟩ := at?_eq_ok he
  obtain ⟨cq, hcq, rfl⟩ := map_at?_eq_ok hclass
  refine ⟨e, cq, he, hcq, ?_⟩
  intro hcqclass
  rw [hcqclass] at h
  obtain ⟨cq', hcq', hbind⟩ := map_at?_eq_ok h
  obtain rfl : cq' = cq := Option.some.inj (hcq'.symm.trans hcq)
  exact hbind

/-- What a bind records: nothing, or that an empty queue has replaced the one there was. -/
theorem cqBind_eq (h : sstmacEpBind p ep (.cq i) flags = .ok (ret, p')) :
    ∃ e cq, p.eps[ep]? = some e ∧ p.cqs[i]? = some cq ∧
      cqBind p p' (.cq i) ret =
        if acceptsCq e cq flags then [⟨p.contents i, {}, true⟩] else [] := by
  obtain ⟨e, cq, he, hcq, hbind⟩ := sstmacEpBind_cq_ok h
  refine ⟨e, cq, he, hcq, ?_⟩
  by_cases hclass : cq.fclass = .cq
  · have hbound := hbind hclass
    rw [bindCq_eq i flags he hclass] at hbound
    cases haccepts : acceptsCq e cq flags with
    | true =>
        rw [haccepts] at hbound
        cases hbound
        obtain ⟨hempty, hready⟩ := contents_bound ep (e.filled i flags) hcq
        simp [cqBind, hcq, hclass, hempty, hready]
    | false =>
        have hret : ret = -fiEinval := by
          rw [haccepts, if_neg (by simp)] at hbound
          split at hbound
          · exact (Prod.mk.inj hbound).1.symm
          · exact (Prod.mk.inj hbound).1.symm
        simp [cqBind, hret, fiEinval]
  · simp [cqBind, hcq, hclass, acceptsCq]

/-! ## §4 — whole runs -/

variable {sumi : Sumi} {s s' : Service} {a : ServiceAction}

/-- A bind of a completion queue keeps the promise exactly if it is refused or finds it empty. -/
theorem bindsKeep_bind (hs : BindsKeep s)
    (h : serviceStep sumi s (.epBind ep (.cq i) flags) = .ok s') :
    BindsKeep s' ↔ BoundEmpty s (.epBind ep (.cq i) flags) := by
  obtain ⟨⟨ret, p⟩, hret, h⟩ := bind_eq_ok.mp h
  obtain ⟨e, cq, he, hcq, hrecord⟩ := cqBind_eq hret
  cases h
  simp only [BindsKeep, BoundEmpty, hrecord, he, hcq, Option.mem_some_iff, forall_eq',
    List.forall_mem_append]
  cases acceptsCq e cq flags with
  | true =>
      constructor
      · intro hkeep _
        exact (hkeep.2 _ List.mem_cons_self).1.symm
      · intro hempty
        exact ⟨hs, List.forall_mem_singleton.mpr ⟨(hempty rfl).symm, rfl⟩⟩
  | false =>
      refine iff_of_true ⟨hs, ?_⟩ ?_
      · intro b hb
        cases hb
      · intro haccepts
        cases haccepts

/-- One step keeps the promise exactly if it binds no completion queue in use. -/
theorem bindsKeep_step (hs : BindsKeep s) (h : serviceStep sumi s a = .ok s') :
    BindsKeep s' ↔ BoundEmpty s a := by
  cases a with
  | epBind ep bfid flags =>
      cases bfid with
      | cq i => exact bindsKeep_bind hs h
      | av i | eq i | other fclass =>
          obtain ⟨⟨ret, p⟩, -, h⟩ := bind_eq_ok.mp h
          cases h
          refine iff_of_true ?_ trivial
          simpa [BindsKeep, cqBind] using hs
  | recv | trecv | arrive | cqRead =>
      -- the data operations record nothing
      obtain ⟨p, -, h⟩ := bind_eq_ok.mp h
      cases h
      exact iff_of_true hs trivial

/-- **Which binds lose nothing.** From any provider, in any run of binds, receives, arrivals and
reads, every successful bind of a completion queue has left its contents as they were exactly if each
found it empty. -/
theorem binds_lose_nothing_iff (sumi : Sumi) (p : Provider) (as : List ServiceAction) (s : Service)
    (hrun : run (serviceStep sumi) ⟨p, []⟩ as = .ok s) :
    EveryState (serviceStep sumi) (fun _ s => BindsKeep s) ⟨p, []⟩ as ↔
      StepsMeet (serviceStep sumi) BoundEmpty ⟨p, []⟩ as := by
  refine everyState_iff_stepsMeet ?_ ?_ hrun
  · intro b hb
    cases hb
  · intro as s a s' hs hall hstep
    exact bindsKeep_step (hall as (List.prefix_refl as) s hs) hstep

instance (s : Service) (a : ServiceAction) : Decidable (BoundEmpty s a) :=
  match a with
  | .epBind _ (.cq _) _ => inferInstanceAs (Decidable (∀ _ ∈ _, ∀ _ ∈ _, _ = true → _ = _))
  | .epBind _ (.av _) _ | .epBind _ (.eq _) _ | .epBind _ (.other _) _ => .isTrue trivial
  | .recv _ _ _ _ _ | .trecv _ _ _ _ _ _ _ | .arrive _ _ | .cqRead _ _ _ _ _ => .isTrue trivial

/-- Two endpoints of a domain, and a completion queue. -/
def sampleProvider : Provider where
  fabrics := [{ fclass := .fabric }]
  domains := [{ fclass := .domain, fabric := some 0 }]
  eps := [{ fclass := .ep, type := .rdm, domain := some 0 },
    { fclass := .ep, type := .rdm, domain := some 0 }]
  cqs := [{ fclass := .cq, domain := some 0, id := 1, format := .context }]

theorem binds_lose_nothing_iff_sample :
    EveryState (serviceStep copyingSumi) (fun _ s => BindsKeep s) ⟨sampleProvider, []⟩
      [.epBind 0 (.cq 0) fiTransmit, .epBind 0 (.cq 0) fiRecv, .recv 0 0x100 8 fiAddrUnspec 0x200,
        .arrive 1 (sampleSend 0), .cqRead false 0 1 false (-1), .epBind 1 (.cq 0) fiRecv] :=
  (binds_lose_nothing_iff copyingSumi sampleProvider _ _ rfl).mpr (by decide)

/-- A message arrives between the two binds of a completion queue; the second one discards it.  So
does the bind to another endpoint with a posted receive. -/
theorem bind_loses_message :
    ¬ EveryState (serviceStep copyingSumi) (fun _ s => BindsKeep s) ⟨sampleProvider, []⟩
        [.epBind 0 (.cq 0) fiTransmit, .arrive 1 (sampleSend 0), .epBind 0 (.cq 0) fiRecv] ∧
      ¬ EveryState (serviceStep copyingSumi) (fun _ s => BindsKeep s) ⟨sampleProvider, []⟩
        [.epBind 0 (.cq 0) fiRecv, .recv 0 0x100 8 fiAddrUnspec 0x200,
          .epBind 1 (.cq 0) fiRecv] := by
  constructor
  · intro h
    obtain ⟨hkept, -⟩ := h _ (List.prefix_refl _) _ rfl _ (List.mem_cons_of_mem _ List.mem_cons_self)
    exact absurd hkept (by decide)
  · intro h
    obtain ⟨hkept, -⟩ := h _ (List.prefix_refl _) _ rfl _ (List.mem_cons_of_mem _ List.mem_cons_self)
    exact absurd hkept (by decide)

end SstTransports.Fabric
