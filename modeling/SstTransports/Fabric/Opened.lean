/-
# SstTransports.Fabric.Opened — objects opened through the provider, and whether they can be used.

A run opens objects with valid attributes, binds them to endpoints and uses the address vectors.  An
object of the endpoint's own domain or fabric is to be accepted as long as its slot is empty, any
other is to be refused as invalid, and a bound completion queue is to have a registered queue.

The constructors leave out what `sstmac_ep_bind` goes by: a completion queue has no class, and an address
vector no domain.  An event queue is not even opened: its attributes are written past the end of its
block, before it is freed and returned.  `opened_usable_iff` says what remains: the refusals that happen
to be the right ones.
-/
import SstTransports.Fabric.Objects

namespace SstTransports.Fabric

open SstTransports.Lib

/-! ## §1 — runs -/

/-- A call of `sstmac_ep_bind`: its arguments, whether the object was opened on the endpoint's domain
or fabric, whether the slot it is to fill was empty, the code returned, and for a completion queue
whether it then has a queue that is registered for its id. -/
structure BindCall where
  ep : Nat
  bfid : Fid
  flags : BitVec 64
  sameParent : Bool
  slotEmpty : Bool
  ret : Int
  ready : Bool
  deriving DecidableEq, Repr

/-- The provider, and the record of the run: what each object was opened on, and the binds. -/
structure Opened where
  provider : Provider := {}
  cqDomains : List Nat := []
  avDomains : List Nat := []
  eqFabrics : List Nat := []
  binds : List BindCall := []

inductive ObjectAction
  | fabricOpen
  | domainOpen (fabric : Nat) (info : Hints)
  | epOpen (domain : Nat) (info : Hints)
  | cqOpen (domain : Nat) (format : CqFormat) (attr : WaitAttr) (id : Option (BitVec 32))
  | avOpen (domain : Nat)
  | eqOpen (fabric : Nat) (attr : WaitAttr)
  | waitOpen (fabric : Nat)
  | epBind (ep : Nat) (bfid : Fid) (flags : BitVec 64)
  | avOp (av : Nat) (op : AvOp)
  | epRecv (ep : Nat) (buf : Ptr) (len : BitVec 64) (srcAddr : FiAddr) (context : Ptr)
      (tag tagIgnore flags : BitVec 64)
  | cqRead (blocking : Bool) (cq : Nat) (count : Nat) (srcAddr : Bool) (timeout : Int)
  deriving DecidableEq, Repr

/-- The domain of an endpoint. -/
def Provider.epDomain (p : Provider) (ep : Nat) : Option Nat := p.eps[ep]?.bind (·.domain)

/-- The fabric of an endpoint's domain. -/
def Provider.epFabric (p : Provider) (ep : Nat) : Option Nat :=
  ((p.epDomain ep).bind (p.domains[·]?)).bind (·.fabric)

/-- The object was opened on the endpoint's domain, an event queue on the endpoint's fabric. -/
def Opened.sameParent (s : Opened) (ep : Nat) : Fid → Bool
  | .cq i => s.provider.epDomain ep == s.cqDomains[i]?
  | .av i => s.provider.epDomain ep == s.avDomains[i]?
  | .eq i => s.provider.epFabric ep == s.eqFabrics[i]?
  | .other _ => false

/-- `flags` within `FI_TRANSMIT|FI_RECV`. -/
def bindFlags (flags : BitVec 64) : Bool := flags &&& ~~~(fiTransmit ||| fiRecv) == 0

/-- What an object is bound to is empty, and for a completion queue the flags ask for nothing
else. -/
def Provider.slotEmpty (p : Provider) (ep : Nat) (flags : BitVec 64) : Fid → Bool
  | .cq _ =>
    bindFlags flags &&
      p.eps[ep]?.all fun e =>
        !(hasFlag flags fiTransmit && e.sendCq.isSome) && !(hasFlag flags fiRecv && e.recvCq.isSome)
  | .eq _ => p.eps[ep]?.all (·.eq.isNone)
  | .av _ => true
  | .other _ => false

/-- The completion queue has a queue, which the transport calls for its id. -/
def Provider.ready (p : Provider) : Fid → Bool
  | .cq i => p.cqs[i]?.any fun cq => cq.queue.isSome && p.handlers cq.id == cq.queue
  | _ => true

/-- One call.  What a process does after a write past the end of a block is not determined, so the run
ends with it. -/
def objectStep (sumi : Sumi) (s : Opened) : ObjectAction → Except Fault Opened
  | .fabricOpen => .ok { s with provider := (sstmacFabricOpen s.provider).2.2 }
  | .domainOpen fabric info => do
    let (_, _, p) ← sstmacDomainOpen s.provider fabric info
    return { s with provider := p }
  | .epOpen domain info => do
    let (_, _, p) ← sstmacEpOpen s.provider domain info
    return { s with provider := p }
  | .cqOpen domain format attr id => do
    let (_, _, p) ← sstmacCqOpen s.provider domain format attr id
    return { s with provider := p, cqDomains := s.cqDomains ++ [domain] }
  | .avOpen domain =>
    .ok { s with
      provider := (sstmacAvOpen s.provider domain).2.2
      avDomains := s.avDomains ++ [domain] }
  | .eqOpen fabric attr => do
    let (_, _, p) ← sstmacEqOpen s.provider (some fabric) (some attr)
    if p.overrun then .error .outOfBounds
    else return { s with provider := p, eqFabrics := s.eqFabrics ++ [fabric] }
  | .waitOpen fabric => .ok { s with provider := (sstmacWaitOpen s.provider (some fabric)).2 }
  | .epBind ep bfid flags => do
    let (ret, p) ← sstmacEpBind s.provider ep bfid flags
    return { s with
      provider := p
      binds := s.binds ++ [⟨ep, bfid, flags, s.sameParent ep bfid,
        s.provider.slotEmpty ep flags bfid, ret, p.ready bfid⟩] }
  | .avOp av _ => do
    let _ ← avAddrFormat s.provider av
    return s
  | .epRecv ep buf len srcAddr context tag tagIgnore flags => do
    let (_, p) ← s.provider.epRecv sumi ep buf len srcAddr context tag tagIgnore flags
    return { s with provider := p }
  | .cqRead blocking cq count srcAddr timeout => do
    let (_, p) ← s.provider.cqRead blocking cq count srcAddr timeout
    return { s with provider := p }

/-- A bind of a completion queue succeeded. -/
def BindCall.bound (b : BindCall) : Bool :=
  match b.bfid with
  | .cq _ => b.ret == 0
  | _ => false

/-- The endpoint has received a completion queue for its receives. -/
def Opened.receives (s : Opened) (ep : Nat) : Bool :=
  s.binds.any fun b => b.bound && b.ep == ep && hasFlag b.flags fiRecv

/-- The completion queue has been bound. -/
def Opened.bound (s : Opened) (cq : Nat) : Bool :=
  s.binds.any fun b => b.bound && b.bfid == .cq cq

/-- Valid attributes: pointers to objects that exist, and values the constructors take.  Endpoints
and completion queues are used after they are bound. -/
def ValidObject (s : Opened) : ObjectAction → Prop
  | .fabricOpen => True
  | .domainOpen fabric info =>
    fabric < s.provider.fabrics.length ∧
      info.domainAttr.any (·.mrMode &&& fiMrScalable == 0) = true
  | .epOpen domain info =>
    domain < s.provider.domains.length ∧
      info.epAttr.any (·.type ∈ [EpType.dgram, .rdm, .msg]) = true
  | .cqOpen domain _ attr _ =>
    domain < s.provider.domains.length ∧
      (attr.waitObj = .set → attr.waitSet.any (· < s.provider.waitSets.length) = true)
  | .avOpen domain => domain < s.provider.domains.length
  | .eqOpen fabric attr =>
    fabric < s.provider.fabrics.length ∧ attr.waitObj ∈ [WaitObj.none, .unspec, .set] ∧
      (attr.waitObj = .set → attr.waitSet.any (· < s.provider.waitSets.length) = true)
  | .waitOpen fabric => fabric < s.provider.fabrics.length
  | .epBind ep bfid _ =>
    ep < s.provider.eps.length ∧
      match bfid with
      | .cq i => i < s.provider.cqs.length
      | .av i => i < s.provider.avs.length
      | .eq i => i < s.provider.eqs.length
      | .other fclass => fclass ∉ [FiClass.eq, .cq, .av]
  | .avOp av _ => av < s.provider.avs.length
  | .epRecv ep _ _ _ _ _ _ _ => s.receives ep = true
  | .cqRead _ cq _ _ _ => s.bound cq = true

/-! ## §2 — the promise -/

/-- What a bind is to return, and to leave behind. -/
def BindCall.Expected (b : BindCall) : Prop :=
  match b.bfid with
  | .other _ => True
  | _ =>
    (b.sameParent = true → b.slotEmpty = true → b.ret = 0) ∧
      (b.sameParent = false → b.ret = -fiEinval) ∧ (b.ret = 0 → b.ready = true)

def BindsExpected (s : Opened) : Prop := ∀ b ∈ s.binds, b.Expected

/-- `allocateCqId`, called on a domain that is cast to a `FabricTransport`, returns an id. -/
def CqIdAllocated (id : Option (BitVec 32)) : Prop := id.isSome = true

/-- An address vector of another domain is bound, or a completion queue of the endpoint's own domain
with flags that are none of its business; a completion queue is opened only where it gets an id; no
event queue is opened or bound, and no address vector used. -/
def Unharmed (s : Opened) : ObjectAction → Prop
  | .cqOpen _ _ _ id => CqIdAllocated id
  | .eqOpen _ _ => False
  | .epBind ep bfid flags =>
    match bfid with
    | .cq i => s.sameParent ep (.cq i) = true ∧ bindFlags flags = false
    | .av i => s.sameParent ep (.av i) = false
    | .eq _ => False
    | .other _ => True
  | .avOp _ _ => False
  | _ => True

/-! ## §3 — what the constructors leave out -/

/-- The state of the provider's objects in every valid run. -/
structure Gaps (p : Provider) : Prop where
  domains : ∀ d ∈ p.domains, ∃ f, d.fabric = some f ∧ f < p.fabrics.length
  eps : ∀ e ∈ p.eps, ∃ d, e.domain = some d ∧ d < p.domains.length
  slots : ∀ e ∈ p.eps, e.sendCq = none ∧ e.recvCq = none ∧ e.eq = none
  cqs : ∀ cq ∈ p.cqs, cq.fclass = .unspec
  avs : ∀ av ∈ p.avs, av.fclass = .av ∧ av.domain = none
  eqs : p.eqs = []

variable {p : Provider}

theorem gaps_start : Gaps {} :=
  ⟨by simp, by simp, by simp, by simp, by simp, rfl⟩

theorem sstmaciAddWait_valid {wait : Option Nat} (waitObj : Fid)
    (h : wait.any (· < p.waitSets.length) = true) :
    ∃ sets, sstmaciAddWait p wait waitObj = .ok { p with waitSets := sets } := by
  cases wait with
  | none => cases h
  | some i =>
      have hi : i < p.waitSets.length := by simpa using h
      simp only [sstmaciAddWait, at?_some hi]
      exact ⟨_, rfl⟩

/-- An opened completion queue has its domain and its id, but no class. -/
theorem sstmacCqOpen_valid {domain : Nat} {attr : WaitAttr} (format : CqFormat) (id : BitVec 32)
    (hdomain : domain < p.domains.length)
    (hset : attr.waitObj = .set → attr.waitSet.any (· < p.waitSets.length) = true) :
    ∃ sets wait, sstmacCqOpen p domain format attr (some id) = .ok (0, some p.cqs.length, { p with
      waitSets := sets
      cqs := p.cqs ++ [⟨.unspec, some domain, id, format, wait, none⟩] }) := by
  simp only [sstmacCqOpen]
  cases hobj : attr.waitObj with
  | unspec | fd | mutexCond =>
      simp only [at?_some hdomain]
      exact ⟨_, _, rfl⟩
  | set =>
      obtain ⟨sets, hsets⟩ := sstmaciAddWait_valid (.cq p.cqs.length) (hset hobj)
      simp only [hsets]
      exact ⟨sets, none, rfl⟩
  | none | yield => exact ⟨p.waitSets, none, rfl⟩

/-- The default size leaves the rest of the attributes as it is. -/
theorem defaultSize_wait (attr : WaitAttr) :
    (if attr.size = 0 then { attr with size := gnixEqDefaultSize } else attr).waitObj =
        attr.waitObj ∧
      (if attr.size = 0 then { attr with size := gnixEqDefaultSize } else attr).waitSet =
        attr.waitSet := by
  split <;> exact ⟨rfl, rfl⟩

@[simp] theorem accessEq_waitSets (members : List EqMember) :
    (p.accessEq members).waitSets = p.waitSets := rfl

/-- The attributes lie past the end of the block. -/
@[simp] theorem accessEq_attr (p : Provider) :
    p.accessEq [.eqFid, .attr] = { p with overrun := true } := by
  show { p with overrun := p.overrun || true } = _
  rw [Bool.or_true]

/-- An opened event queue is freed, and has been written past its end. -/
theorem sstmacEqOpen_valid (fabric : Nat) {attr : WaitAttr}
    (hobj : attr.waitObj ∈ [WaitObj.none, .unspec, .set])
    (hset : attr.waitObj = .set → attr.waitSet.any (· < p.waitSets.length) = true) :
    ∃ sets eq, sstmacEqOpen p (some fabric) (some attr) = .ok (0, some p.eqs.length,
      errorDeallocateEq { p with waitSets := sets, overrun := true } eq) := by
  have hwait := defaultSize_wait attr
  simp only [sstmacEqOpen]
  generalize (if attr.size = 0 then { attr with size := gnixEqDefaultSize } else attr) = a at hwait ⊢
  rw [← hwait.1] at hobj hset
  rw [← hwait.2] at hset
  cases hw : a.waitObj with
  | none =>
      refine ⟨p.waitSets, { fclass := .eq, attr := a }, ?_⟩
      show Except.ok (0, _, errorDeallocateEq (p.accessEq [.eqFid, .attr]) _) = _
      rw [accessEq_attr]
  | unspec =>
      -- the new wait set is the last one
      have hnew : (some p.waitSets.length).any (· < ((sstmacWaitOpen
          (p.accessEq [.attr, .fabric]) none).2.accessEq [.wait]).waitSets.length) = true := by
        simp [sstmacWaitOpen]
      obtain ⟨sets, hsets⟩ := sstmaciAddWait_valid (.eq p.eqs.length) hnew
      simp only [sstmacWaitOpen, accessEq_waitSets] at hsets ⊢
      simp only [hsets, bind, Except.bind, accessEq_attr]
      exact ⟨sets, _, rfl⟩
  | set =>
      have hgiven : a.waitSet.any (· < (p.accessEq [.wait]).waitSets.length) = true := hset hw
      obtain ⟨sets, hsets⟩ := sstmaciAddWait_valid (.eq p.eqs.length) hgiven
      have hsome : a.waitSet.isNone = false := by
        cases hs : a.waitSet with
        | none => rw [hs] at hgiven; cases hgiven
        | some i => rfl
      simp only [hsome, hsets, bind, Except.bind, accessEq_attr]
      exact ⟨sets, _, rfl⟩
  | fd | mutexCond | yield => simp [hw] at hobj

/-! ## §4 — what the binds return -/

/-- The pointers `sstmac_ep_bind` follows before it looks at the class are good. -/
theorem sstmacEpBind_eq (hg : Gaps p) {ep : Nat} (hep : ep < p.eps.length) (bfid : Fid)
    (flags : BitVec 64) :
    ∃ e dom, e ∈ p.eps ∧ (∃ d, e.domain = some d) ∧
      sstmacEpBind p ep bfid flags = fclassOf p bfid >>= bindByClass p ep e dom flags bfid := by
  have he := List.getElem_mem hep
  obtain ⟨d, hd, hdlt⟩ := hg.eps _ he
  obtain ⟨f, hf, hflt⟩ := hg.domains _ (List.getElem_mem hdlt)
  refine ⟨p.eps[ep], p.domains[d], he, ⟨d, hd⟩, ?_⟩
  simp only [sstmacEpBind, at?_some hep, bind, Except.bind, hd, at?_some hdlt, hf, at?_some hflt]

theorem sstmacEpBind_cq (hg : Gaps p) {ep i : Nat} (hep : ep < p.eps.length)
    (hi : i < p.cqs.length) (flags : BitVec 64) :
    sstmacEpBind p ep (.cq i) flags = .ok (-fiEnosys, p) := by
  obtain ⟨e, dom, -, -, heq⟩ := sstmacEpBind_eq hg hep (.cq i) flags
  have hclass : fclassOf p (.cq i) = .ok .unspec := by
    simp [fclassOf, at?_some hi, Except.map, hg.cqs _ (List.getElem_mem hi)]
  rw [heq, hclass]
  rfl

theorem sstmacEpBind_av (hg : Gaps p) {ep i : Nat} (hep : ep < p.eps.length)
    (hi : i < p.avs.length) (flags : BitVec 64) :
    sstmacEpBind p ep (.av i) flags = .ok (-fiEinval, p) := by
  obtain ⟨e, dom, -, ⟨d, hd⟩, heq⟩ := sstmacEpBind_eq hg hep (.av i) flags
  obtain ⟨hav, hdomain⟩ := hg.avs _ (List.getElem_mem hi)
  have hclass : fclassOf p (.av i) = .ok .av := by
    simp [fclassOf, at?_some hi, Except.map, hav]
  rw [heq, hclass]
  -- the endpoint has a domain and the address vector has none
  show (at? p.avs (some i)).map (bindAv p e) = .ok (-fiEinval, p)
  simp [at?_some hi, Except.map, bindAv, hd, hdomain]

theorem sstmacEpBind_other (hg : Gaps p) {ep : Nat} (hep : ep < p.eps.length) {fclass : FiClass}
    (hnone : fclass ∉ [FiClass.eq, .cq, .av]) (flags : BitVec 64) :
    ∃ ret, sstmacEpBind p ep (.other fclass) flags = .ok (ret, p) := by
  obtain ⟨e, dom, -, -, heq⟩ := sstmacEpBind_eq hg hep (.other fclass) flags
  rw [heq]
  cases fclass with
  | eq | cq | av => simp at hnone
  | _ => exact ⟨_, rfl⟩

/-- No slot is ever filled, so for a completion queue only the flags matter. -/
theorem slotEmpty_cq (hg : Gaps p) (ep i : Nat) (flags : BitVec 64) :
    p.slotEmpty ep flags (.cq i) = bindFlags flags := by
  cases he : p.eps[ep]? with
  | none => simp [Provider.slotEmpty, he]
  | some e =>
      obtain ⟨hsend, hrecv, -⟩ := hg.slots e (List.mem_of_getElem? he)
      simp [Provider.slotEmpty, he, hsend, hrecv]

/-- The address vectors cannot be used. -/
theorem avAddrFormat_gaps (hg : Gaps p) {i : Nat} (hi : i < p.avs.length) :
    avAddrFormat p i = .error .nullDereference := by
  have hdomain := (hg.avs _ (List.getElem_mem hi)).2
  simp only [avAddrFormat, at?_some hi, bind, Except.bind, hdomain]
  rfl

/-! ## §5 — one step -/

/-- The actions that open an object. -/
def ObjectAction.opens : ObjectAction → Bool
  | .fabricOpen | .domainOpen _ _ | .epOpen _ _ | .cqOpen _ _ _ _ | .avOpen _ | .eqOpen _ _
  | .waitOpen _ => true
  | _ => false

theorem forall_mem_snoc {α : Type} {P : α → Prop} {xs : List α} {x : α} (h : ∀ y ∈ xs, P y)
    (hx : P x) : ∀ y ∈ xs ++ [x], P y :=
  List.forall_mem_append.mpr ⟨h, List.forall_mem_singleton.mpr hx⟩

theorem Gaps.addFabric (hg : Gaps p) (fabric : FidFabric) :
    Gaps { p with fabrics := p.fabrics ++ [fabric] } := by
  refine { hg with domains := ?_ }
  intro d hd
  obtain ⟨f, hf, hlt⟩ := hg.domains d hd
  exact ⟨f, hf, by simpa using Nat.lt_succ_of_lt hlt⟩

theorem Gaps.addDomain (hg : Gaps p) {domain : FidDomain} {f : Nat} (hf : domain.fabric = some f)
    (hlt : f < p.fabrics.length) : Gaps { p with domains := p.domains ++ [domain] } := by
  refine { hg with domains := forall_mem_snoc hg.domains ⟨f, hf, hlt⟩, eps := ?_ }
  intro e he
  obtain ⟨d, hd, hlt⟩ := hg.eps e he
  exact ⟨d, hd, by simpa using Nat.lt_succ_of_lt hlt⟩

theorem Gaps.addEp (hg : Gaps p) {ep : FidEp} {d : Nat} (hd : ep.domain = some d)
    (hlt : d < p.domains.length) (hslots : ep.sendCq = none ∧ ep.recvCq = none ∧ ep.eq = none) :
    Gaps { p with eps := p.eps ++ [ep] } :=
  { hg with
    eps := forall_mem_snoc hg.eps ⟨d, hd, hlt⟩
    slots := forall_mem_snoc hg.slots hslots }

theorem Gaps.addCq (hg : Gaps p) {sets : List FidWaitSet} {cq : FidCq}
    (hclass : cq.fclass = .unspec) :
    Gaps { p with waitSets := sets, cqs := p.cqs ++ [cq] } :=
  { hg with cqs := forall_mem_snoc hg.cqs hclass }

theorem Gaps.addAv (hg : Gaps p) {av : FidAv} (hav : av.fclass = .av ∧ av.domain = none) :
    Gaps { p with avs := p.avs ++ [av] } :=
  { hg with avs := forall_mem_snoc hg.avs hav }

variable {sumi : Sumi} {s s' : Opened} {a : ObjectAction}

/-- Opening an event queue with valid attributes writes past the end of its block. -/
theorem objectStep_eqOpen (sumi : Sumi) {fabric : Nat} {attr : WaitAttr}
    (hvalid : ValidObject s (.eqOpen fabric attr)) :
    objectStep sumi s (.eqOpen fabric attr) = .error .outOfBounds := by
  obtain ⟨-, hobj, hset⟩ := hvalid
  obtain ⟨sets, eq, hopen⟩ := sstmacEqOpen_valid fabric hobj hset
  simp only [objectStep, hopen]
  rfl

/-- Opening any other object with valid attributes returns, a completion queue if it gets an id, and
leaves out what it leaves out. -/
theorem objectStep_opens (sumi : Sumi) (hg : Gaps s.provider) (hvalid : ValidObject s a)
    (ha : Unharmed s a) (hopens : a.opens = true) :
    ∃ s', objectStep sumi s a = .ok s' ∧ Gaps s'.provider ∧ s'.binds = s.binds := by
  cases a with
  | fabricOpen => exact ⟨_, rfl, hg.addFabric _, rfl⟩
  | domainOpen fabric info =>
      obtain ⟨hfabric, hattr⟩ := hvalid
      cases hd : info.domainAttr with
      | none => simp [hd] at hattr
      | some attr =>
          have hmode : attr.mrMode &&& fiMrScalable = 0 := by simpa [hd] using hattr
          simp only [objectStep, sstmacDomainOpen, hd, hmode]
          exact ⟨_, rfl, hg.addDomain rfl hfabric, rfl⟩
  | epOpen domain info =>
      obtain ⟨hdomain, hattr⟩ := hvalid
      cases he : info.epAttr with
      | none => simp [he] at hattr
      | some attr =>
          have htype : attr.type ∈ [EpType.dgram, .rdm, .msg] := by simpa [he] using hattr
          simp only [objectStep, sstmacEpOpen, he]
          cases ht : attr.type with
          | dgram | rdm | msg => exact ⟨_, rfl, hg.addEp rfl hdomain ⟨rfl, rfl, rfl⟩, rfl⟩
          | unspec | sockStream | sockDgram => simp [ht] at htype
  | cqOpen domain format attr id =>
      obtain ⟨hdomain, hset⟩ := hvalid
      obtain ⟨got, rfl⟩ := Option.isSome_iff_exists.mp ha
      obtain ⟨sets, wait, hopen⟩ := sstmacCqOpen_valid format got hdomain hset
      simp only [objectStep, hopen]
      exact ⟨_, rfl, hg.addCq rfl, rfl⟩
  | avOpen domain => exact ⟨_, rfl, hg.addAv ⟨rfl, rfl⟩, rfl⟩
  | eqOpen fabric attr => exact ha.elim
  | waitOpen fabric => exact ⟨_, rfl, { hg with }, rfl⟩
  | epBind | avOp | epRecv | cqRead => cases hopens

/-- A bind that leaves the provider alone is recorded, and that is all. -/
theorem objectStep_epBind {ep : Nat} {bfid : Fid} {flags : BitVec 64} {ret : Int}
    (h : sstmacEpBind s.provider ep bfid flags = .ok (ret, s.provider)) :
    objectStep sumi s (.epBind ep bfid flags) = .ok { s with
      binds := s.binds ++ [⟨ep, bfid, flags, s.sameParent ep bfid,
        s.provider.slotEmpty ep flags bfid, ret, s.provider.ready bfid⟩] } := by
  simp only [objectStep, h]
  rfl

/-- What holds in every state of a run whose steps are unharmed. -/
structure Bystander (s : Opened) : Prop where
  gaps : Gaps s.provider
  unbound : ∀ b ∈ s.binds, b.bound = false
  expected : BindsExpected s

theorem Bystander.record (hs : Bystander s) {b : BindCall} (hbound : b.bound = false)
    (hb : b.Expected) : Bystander { s with binds := s.binds ++ [b] } :=
  ⟨hs.gaps, forall_mem_snoc hs.unbound hbound, forall_mem_snoc hs.expected hb⟩

theorem Bystander.not_receives (hs : Bystander s) (ep : Nat) : s.receives ep = false := by
  simp only [Opened.receives, List.any_eq_false]
  intro b hb
  simp [hs.unbound b hb]

theorem Bystander.not_bound (hs : Bystander s) (cq : Nat) : s.bound cq = false := by
  simp only [Opened.bound, List.any_eq_false]
  intro b hb
  simp [hs.unbound b hb]

/-- An unharmed step returns, and the next state is no different. -/
theorem Bystander.step (sumi : Sumi) (hs : Bystander s) (hvalid : ValidObject s a) (ha : Unharmed s a) :
    ∃ s', objectStep sumi s a = .ok s' ∧ Bystander s' := by
  cases hopens : a.opens with
  | true =>
      obtain ⟨s', hstep, hg, hbinds⟩ := objectStep_opens sumi hs.gaps hvalid ha hopens
      refine ⟨s', hstep, hg, ?_, ?_⟩
      · rw [hbinds]
        exact hs.unbound
      · unfold BindsExpected
        rw [hbinds]
        exact hs.expected
  | false =>
      cases a with
      | epBind ep bfid flags =>
          obtain ⟨hep, hfid⟩ := hvalid
          cases bfid with
          | cq i =>
              refine ⟨_, objectStep_epBind (sstmacEpBind_cq hs.gaps hep hfid flags), ?_⟩
              -- `-FI_ENOSYS` promises nothing, so it must be that nothing is owed
              refine hs.record rfl ⟨?_, ?_, ?_⟩
              · intro _ hslot
                simp [slotEmpty_cq hs.gaps, ha.2] at hslot
              · intro hother
                simp [ha.1] at hother
              · intro hret
                cases hret
          | av i =>
              refine ⟨_, objectStep_epBind (sstmacEpBind_av hs.gaps hep hfid flags), ?_⟩
              refine hs.record rfl ⟨?_, fun _ => rfl, fun _ => rfl⟩
              intro hsame
              simp [show s.sameParent ep (.av i) = false from ha] at hsame
          | eq i => exact ha.elim
          | other fclass =>
              obtain ⟨ret, hret⟩ := sstmacEpBind_other hs.gaps hep hfid flags
              exact ⟨_, objectStep_epBind hret, hs.record rfl trivial⟩
      | avOp av op => exact ha.elim
      -- what is not bound is not used
      | epRecv ep => exact absurd hvalid (by simp [ValidObject, hs.not_receives])
      | cqRead blocking cq => exact absurd hvalid (by simp [ValidObject, hs.not_bound])
      | _ => cases hopens

/-- A step that returns, and whose bind was what was expected, was unharmed. -/
theorem unharmed_of_expected (hs : Bystander s) (hvalid : ValidObject s a)
    (h : objectStep sumi s a = .ok s') (hexpected : BindsExpected s') : Unharmed s a := by
  cases a with
  | epBind ep bfid flags =>
      obtain ⟨hep, hfid⟩ := hvalid
      cases bfid with
      | cq i =>
          rw [objectStep_epBind (sstmacEpBind_cq hs.gaps hep hfid flags)] at h
          cases h
          obtain ⟨haccept, hrefuse, -⟩ := hexpected _ List.mem_concat_self
          simp only [slotEmpty_cq hs.gaps] at haccept hrefuse
          have hsame : s.sameParent ep (.cq i) = true := by
            by_contra hother
            exact absurd (hrefuse (by simpa using hother)) (by decide)
          refine ⟨hsame, ?_⟩
          by_contra hflags
          exact absurd (haccept hsame (by simpa using hflags)) (by decide)
      | av i =>
          rw [objectStep_epBind (sstmacEpBind_av hs.gaps hep hfid flags)] at h
          cases h
          obtain ⟨haccept, -, -⟩ := hexpected _ List.mem_concat_self
          show s.sameParent ep (.av i) = false
          by_contra hsame
          exact absurd (haccept (by simpa using hsame) rfl) (by simp [fiEinval])
      | eq i =>
          -- none is open
          have hlt : i < s.provider.eqs.length := hfid
          rw [hs.gaps.eqs] at hlt
          exact absurd hlt (Nat.not_lt_zero i)
      | other fclass => trivial
  | avOp av op =>
      simp only [objectStep, avAddrFormat_gaps hs.gaps hvalid] at h
      cases h
  | eqOpen fabric attr =>
      rw [objectStep_eqOpen sumi hvalid] at h
      cases h
  | cqOpen domain format attr id =>
      cases id with
      | none => cases h
      | some got => rfl
  | _ => trivial

/-! ## §6 — whole runs -/

/-- **What can be used.** A run with valid attributes goes through, with every bind accepted or
refused as it is to be, exactly if its steps are unharmed. -/
theorem opened_usable_iff (sumi : Sumi) (as : List ObjectAction)
    (hvalid : StepsMeet (objectStep sumi) ValidObject {} as) :
    ((∃ s, run (objectStep sumi) {} as = .ok s) ∧
      EveryState (objectStep sumi) (fun _ s => BindsExpected s) {} as) ↔
      StepsMeet (objectStep sumi) Unharmed {} as := by
  refine run_ok_and_everyState_iff_stepsMeet (J := fun _ s => Bystander s) ?_ ?_ ?_ ?_ ?_ hvalid
  · exact ⟨gaps_start, by simp, by simp [BindsExpected]⟩
  · intro _ s hs
    exact hs.expected
  · intro _ s a hs hv ha
    obtain ⟨s', hstep, -⟩ := hs.step sumi hv ha
    exact ⟨s', hstep⟩
  · intro _ s a s' hs hv ha hstep
    obtain ⟨s₁, hstep₁, hs₁⟩ := hs.step sumi hv ha
    rw [hstep] at hstep₁
    cases hstep₁
    exact hs₁
  · intro _ s a s' hs hv hstep hexpected
    exact unharmed_of_expected hs hv hstep hexpected

instance (s : Opened) (a : ObjectAction) : Decidable (ValidObject s a) :=
  match a with
  | .fabricOpen => .isTrue trivial
  | .domainOpen _ _ | .epOpen _ _ | .cqOpen _ _ _ _ | .eqOpen _ _ =>
    inferInstanceAs (Decidable (_ ∧ _))
  | .avOpen _ | .waitOpen _ | .avOp _ _ => inferInstanceAs (Decidable (_ < _))
  | .epBind _ (.cq _) _ | .epBind _ (.av _) _ | .epBind _ (.eq _) _ =>
    inferInstanceAs (Decidable (_ < _ ∧ _ < _))
  | .epBind _ (.other _) _ => inferInstanceAs (Decidable (_ < _ ∧ _ ∉ _))
  | .epRecv _ _ _ _ _ _ _ _ | .cqRead _ _ _ _ _ => inferInstanceAs (Decidable (_ = true))

instance (id : Option (BitVec 32)) : Decidable (CqIdAllocated id) :=
  inferInstanceAs (Decidable (_ = true))

instance (s : Opened) (a : ObjectAction) : Decidable (Unharmed s a) :=
  match a with
  | .cqOpen _ _ _ id => inferInstanceAs (Decidable (CqIdAllocated id))
  | .eqOpen _ _ => .isFalse id
  | .epBind _ (.cq _) _ => inferInstanceAs (Decidable (_ = true ∧ _ = false))
  | .epBind _ (.av _) _ => inferInstanceAs (Decidable (_ = false))
  | .epBind _ (.eq _) _ => .isFalse id
  | .epBind _ (.other _) _ => .isTrue trivial
  | .avOp _ _ => .isFalse id
  | .fabricOpen | .domainOpen _ _ | .epOpen _ _ | .avOpen _ | .waitOpen _
  | .epRecv _ _ _ _ _ _ _ _ | .cqRead _ _ _ _ _ => .isTrue trivial

/-- A fabric with two domains, and an endpoint on the first. -/
def sampleOpens : List ObjectAction :=
  let info : Hints := { epAttr := some { type := .rdm }, domainAttr := some {} }
  [.fabricOpen, .domainOpen 0 info, .domainOpen 0 info, .epOpen 0 info]

/-- A completion queue that gets an id, bound with a flag that is none of its business, and an address
vector of the other domain. -/
def sampleBinds : List ObjectAction :=
  sampleOpens ++ [.cqOpen 0 .context {} (some 1), .epBind 0 (.cq 0) fiSelectiveCompletion, .avOpen 1,
    .epBind 0 (.av 0) 0]

theorem opened_usable_iff_sample :
    (∃ s, run (objectStep copyingSumi) {} sampleBinds = .ok s) ∧
      EveryState (objectStep copyingSumi) (fun _ s => BindsExpected s) {} sampleBinds :=
  (opened_usable_iff copyingSumi _ (by decide)).mpr (by decide)

/-- A completion queue of the endpoint's own domain is refused as not implemented, even if it has got an
id, and an address vector of that domain as invalid; an event queue is not opened without a write past
its block. -/
theorem opened_not_usable :
    let cq := sampleOpens ++ [.cqOpen 0 .context {} (some 1), .epBind 0 (.cq 0) (fiTransmit ||| fiRecv)]
    let av := sampleOpens ++ [.avOpen 0, .epBind 0 (.av 0) 0]
    let eq := sampleOpens ++ [.eqOpen 0 {}, .epBind 0 (.eq 0) 0]
    StepsMeet (objectStep copyingSumi) ValidObject {} cq ∧
      ¬ EveryState (objectStep copyingSumi) (fun _ s => BindsExpected s) {} cq ∧
      StepsMeet (objectStep copyingSumi) ValidObject {} av ∧
      ¬ EveryState (objectStep copyingSumi) (fun _ s => BindsExpected s) {} av ∧
      StepsMeet (objectStep copyingSumi) ValidObject {} eq ∧
      run (objectStep copyingSumi) {} eq = .error .outOfBounds := by
  refine ⟨by decide, ?_, by decide, ?_, by decide, rfl⟩
  · intro h
    obtain ⟨haccept, -, -⟩ := h _ (List.prefix_refl _) _ rfl _ List.mem_cons_self
    exact absurd (haccept rfl rfl) (by decide)
  · intro h
    obtain ⟨haccept, -, -⟩ := h _ (List.prefix_refl _) _ rfl _ List.mem_cons_self
    exact absurd (haccept rfl rfl) (by decide)

end SstTransports.Fabric
