/-
# SstTransports.Fabric.Objects — opening the provider's objects and binding them.

Fabric, domain, endpoint, completion queue, address vector, event queue and wait set are structs made
with `calloc`: a field a constructor does not set is zero.  The model keeps them in one list a kind,
so that an index is a pointer and `none` is null, and `fclass` is a field like any other:
`sstmac_ep_bind` goes by it.

Allocation does not fail.  Two things the constructors do end a run: `sstmac_cq_open` calls
`allocateCqId` on its domain as if that were a transport, and what becomes of that is a parameter;
`sstmac_eq_open` allocates the size of a `fid_eq` for a `sstmac_fid_eq`, and what it stores past that
block is kept track of (`Provider.overrun`).
-/
import SstTransports.Fabric.Info
import SstTransports.Fabric.Session

namespace SstTransports.Fabric

open SstTransports.Lib

/-! ## §1 — the structs -/

/-- `fclass` -/
inductive FiClass
  | unspec
  | fabric
  | domain
  | ep
  | sep
  | rxCtx
  | srxCtx
  | txCtx
  | stxCtx
  | pep
  | interface
  | av
  | mr
  | eq
  | cq
  | cntr
  | wait
  | poll
  | connreq
  | mc
  | nic
  | avSet
  deriving DecidableEq, Repr

/-- `enum fi_wait_obj` -/
inductive WaitObj
  | none
  | unspec
  | set
  | fd
  | mutexCond
  | yield
  deriving DecidableEq, Repr

-- `rdma/fabric.h`
def fiTransmit : BitVec 64 := fiSend
def fiSelectiveCompletion : BitVec 64 := 1 <<< 59

/-- A `struct fid*` that is passed to `sstmac_ep_bind`, or listens to a wait set; `other` is an
object of a kind the model does not open. -/
inductive Fid
  | cq (i : Nat)
  | av (i : Nat)
  | eq (i : Nat)
  | other (fclass : FiClass)
  deriving DecidableEq, Repr

structure FidFabric where
  fclass : FiClass := .unspec
  deriving DecidableEq, Repr

structure FidDomain where
  fclass : FiClass := .unspec
  fabric : Option Nat := none
  addrFormat : BitVec 32 := 0
  deriving DecidableEq, Repr

structure FidEp where
  fclass : FiClass := .unspec
  type : EpType := .unspec
  domain : Option Nat := none
  opFlags : BitVec 64 := 0
  caps : BitVec 64 := 0
  sendCq : Option Nat := none
  recvCq : Option Nat := none
  eq : Option Nat := none
  deriving DecidableEq, Repr

structure FidCq where
  fclass : FiClass := .unspec
  domain : Option Nat := none
  id : BitVec 32 := 0
  format : CqFormat := .unspec
  wait : Option Nat := none
  queue : Option Nat := none
  deriving DecidableEq, Repr

structure FidAv where
  fclass : FiClass := .unspec
  domain : Option Nat := none
  deriving DecidableEq, Repr

/-- `fi_eq_attr`, and `fi_cq_attr` without its format. -/
structure WaitAttr where
  size : BitVec 64 := 0
  waitObj : WaitObj := .none
  waitSet : Option Nat := none
  deriving DecidableEq, Repr

structure FidEq where
  fclass : FiClass := .unspec
  fabric : Option Nat := none
  wait : Option Nat := none
  attr : WaitAttr := {}
  deriving DecidableEq, Repr

structure FidWaitSet where
  fclass : FiClass := .unspec
  fabric : Option Nat := none
  listeners : List Fid := []
  deriving DecidableEq, Repr

/-- The objects of a process, the receive queues, and the queue whose `incoming` the transport calls
for the messages of each completion queue id.  `overrun` tells that an object was accessed past the
end of its block. -/
structure Provider where
  fabrics : List FidFabric := []
  domains : List FidDomain := []
  eps : List FidEp := []
  cqs : List FidCq := []
  avs : List FidAv := []
  eqs : List FidEq := []
  waitSets : List FidWaitSet := []
  freedEqs : List Nat := []
  queues : List State := []
  handlers : BitVec 32 → Option Nat := fun _ => none
  overrun : Bool := false

/-- Reading through a pointer into one of the lists. -/
def at? {α : Type} (objects : List α) (ptr : Option Nat) : Except Fault α :=
  match ptr with
  | none => .error .nullDereference
  | some i =>
    match objects[i]? with
    | some x => .ok x
    | none => .error .useAfterDelete

theorem at?_some {α : Type} {objects : List α} {i : Nat} (h : i < objects.length) :
    at? objects (some i) = .ok objects[i] := by
  simp [at?, h]

theorem at?_eq_ok {α : Type} {objects : List α} {ptr : Option Nat} {x : α}
    (h : at? objects ptr = .ok x) : ∃ i, ptr = some i ∧ objects[i]? = some x := by
  cases ptr with
  | none => cases h
  | some i =>
      refine ⟨i, rfl, ?_⟩
      cases hx : objects[i]? with
      | none => simp [at?, hx] at h
      | some y =>
          simp only [at?, hx] at h
          cases h
          rfl

/-- A function of the object behind a pointer. -/
theorem map_at?_eq_ok {α β : Type} {objects : List α} {i : Nat} {f : α → β} {b : β}
    (h : (at? objects (some i)).map f = .ok b) : ∃ x, objects[i]? = some x ∧ f x = b := by
  cases hx : objects[i]? with
  | none => simp [at?, hx, Except.map] at h
  | some x =>
      refine ⟨x, rfl, ?_⟩
      simpa [at?, hx, Except.map] using h

/-! ## §2 — the constructors -/

/-- `sstmac_fabric_open` -/
def sstmacFabricOpen (p : Provider) : Int × Option Nat × Provider :=
  (0, some p.fabrics.length, { p with fabrics := p.fabrics ++ [{ fclass := .fabric }] })

/-- `sstmac_domain_open` -/
def sstmacDomainOpen (p : Provider) (fabric : Nat) (info : Hints) :
    Except Fault (Int × Option Nat × Provider) :=
  match info.domainAttr with
  | none => .error .nullDereference
  | some attr =>
    if attr.mrMode &&& fiMrScalable ≠ 0 then .ok (-fiEinval, none, p)
    else .ok (0, some p.domains.length, { p with
      domains := p.domains ++
        [{ fclass := .domain, fabric := some fabric, addrFormat := info.addrFormat }] })

/-- `sstmac_ep_open`; an endpoint of the wrong type is not returned, and not freed either. -/
def sstmacEpOpen (p : Provider) (domain : Nat) (info : Hints) :
    Except Fault (Int × Option Nat × Provider) :=
  match info.epAttr with
  | none => .error .nullDereference
  | some attr =>
    let ep : FidEp :=
      { fclass := .ep
        domain := some domain
        caps := info.caps
        opFlags := ((info.rxAttr.map (·.opFlags)).or (info.txAttr.map (·.opFlags))).getD 0
        type := attr.type }
    let opened := { p with eps := p.eps ++ [ep] }
    match attr.type with
    | .dgram | .rdm | .msg => .ok (0, some p.eps.length, opened)
    | .unspec | .sockStream | .sockDgram => .ok (-fiEinval, none, opened)

/-- `sstmac_wait_open` -/
def sstmacWaitOpen (p : Provider) (fabric : Option Nat) : Nat × Provider :=
  (p.waitSets.length,
    { p with waitSets := p.waitSets ++ [{ fclass := .wait, fabric := fabric }] })

/-- `sstmaci_add_wait` -/
def sstmaciAddWait (p : Provider) (wait : Option Nat) (waitObj : Fid) : Except Fault Provider := do
  let set ← at? p.waitSets wait
  return { p with
    waitSets := p.waitSets.set (wait.getD 0) { set with listeners := set.listeners ++ [waitObj] } }

/-- `sstmac_cq_open`.  `id` is what `allocateCqId` returns when it is called on the domain, cast to a
`FabricTransport`; `none` if it does not return.  No `fclass` is set. -/
def sstmacCqOpen (p : Provider) (domain : Nat) (format : CqFormat) (attr : WaitAttr)
    (id : Option (BitVec 32)) : Except Fault (Int × Option Nat × Provider) :=
  match id with
  | none => .error .badCast
  | some id => do
    let cq : FidCq := { domain := some domain, id := id, format := format }
    let i := p.cqs.length
    match attr.waitObj with
    | .unspec | .fd | .mutexCond =>
      let dom ← at? p.domains (some domain)
      let (wait, p) := sstmacWaitOpen p dom.fabric
      return (0, some i, { p with cqs := p.cqs ++ [{ cq with wait := some wait }] })
    | .set =>
      let p ← sstmaciAddWait p attr.waitSet (.cq i)
      return (0, some i, { p with cqs := p.cqs ++ [cq] })
    | .none | .yield => return (0, some i, { p with cqs := p.cqs ++ [cq] })

/-- `sstmac_av_open`.  The domain is not stored. -/
def sstmacAvOpen (p : Provider) (_domain : Nat) : Int × Option Nat × Provider :=
  (0, some p.avs.length, { p with avs := p.avs ++ [{ fclass := .av }] })

/-- `ErrorDeallocate`: `free` runs when the function is left, unless `success` was called. -/
def errorDeallocateEq (p : Provider) (eq : FidEq) : Provider :=
  { p with eqs := p.eqs ++ [eq], freedEqs := p.eqs.length :: p.freedEqs }

/-- `GNIX_EQ_DEFAULT_SIZE` -/
def gnixEqDefaultSize : BitVec 64 := 1000

/-- `sizeof(fid_eq)`, which is what `sstmac_eq_open` allocates. -/
def sizeofFidEq : Nat := 32

/-- The members of `sstmac_fid_eq`. -/
inductive EqMember
  | eqFid
  | fabric
  | wait
  | attr
  deriving DecidableEq, Repr

/-- The offset of a member, and its size. -/
def EqMember.layout : EqMember → Nat × Nat
  | .eqFid => (0, 32)
  | .fabric => (32, 8)
  | .wait => (40, 8)
  | .attr => (48, 32)

/-- The member does not lie in the block. -/
def EqMember.pastEnd (m : EqMember) : Bool := sizeofFidEq < m.layout.1 + m.layout.2

/-- Members of the event queue are read or written. -/
def Provider.accessEq (p : Provider) (members : List EqMember) : Provider :=
  { p with overrun := p.overrun || members.any (·.pastEnd) }

/-- `sstmac_eq_open`.  The fabric is not stored, and `success` of the guard is not called. -/
def sstmacEqOpen (p : Provider) (fabric : Option Nat) (attr : Option WaitAttr) :
    Except Fault (Int × Option Nat × Provider) :=
  match fabric, attr with
  | none, _ => .ok (-fiEinval, none, p)
  | some _, none => .ok (-fiEinval, none, errorDeallocateEq p {})
  | some _, some attr => do
    let attr := if attr.size = 0 then { attr with size := gnixEqDefaultSize } else attr
    let i := p.eqs.length
    match attr.waitObj with
    | .none =>
      let p := p.accessEq [.eqFid, .attr]
      return (0, some i, errorDeallocateEq p { fclass := .eq, attr := attr })
    | .set =>
      if attr.waitSet.isNone then return (-fiEinval, none, errorDeallocateEq p {})
      else
        let p ← sstmaciAddWait (p.accessEq [.wait]) attr.waitSet (.eq i)
        let p := p.accessEq [.eqFid, .attr]
        return (0, some i,
          errorDeallocateEq p { fclass := .eq, wait := attr.waitSet, attr := attr })
    | .unspec =>
      -- `eq->attr.wait_obj` and `eq->fabric` are read
      let (wait, p) := sstmacWaitOpen (p.accessEq [.attr, .fabric]) none
      let p ← sstmaciAddWait (p.accessEq [.wait]) (some wait) (.eq i)
      let p := p.accessEq [.eqFid, .attr]
      return (0, some i, errorDeallocateEq p { fclass := .eq, wait := some wait, attr := attr })
    | .fd | .mutexCond | .yield => return (-fiEnosys, none, errorDeallocateEq p {})

/-! ## §3 — `sstmac_ep_bind` -/

/-- `bfid->fclass` -/
def fclassOf (p : Provider) : Fid → Except Fault FiClass
  | .cq i => (at? p.cqs (some i)).map (·.fclass)
  | .av i => (at? p.avs (some i)).map (·.fclass)
  | .eq i => if i ∈ p.freedEqs then .error .useAfterDelete else (at? p.eqs (some i)).map (·.fclass)
  | .other fclass => .ok fclass

/-- The case `FI_CLASS_EQ`. -/
def bindEq (p : Provider) (ep : Nat) (e : FidEp) (dom : FidDomain) (eqPtr : Nat) (eq : FidEq) :
    Int × Provider :=
  if dom.fabric ≠ eq.fabric then (-fiEinval, p)
  else (0, { p with eps := p.eps.set ep { e with eq := some eqPtr } })

/-- The case `FI_CLASS_CQ`.  A slot is filled before the flags are known to be good. -/
def bindCq (p : Provider) (ep : Nat) (e : FidEp) (cqPtr : Nat) (cq : FidCq) (flags : BitVec 64) :
    Int × Provider :=
  let put (e : FidEp) : Provider := { p with eps := p.eps.set ep e }
  if e.domain ≠ cq.domain then (-fiEinval, p)
  else if hasFlag flags fiTransmit && e.sendCq.isSome then (-fiEinval, p)
  else
    let e := if hasFlag flags fiTransmit then { e with sendCq := some cqPtr } else e
    if hasFlag flags fiTransmit && hasFlag flags fiSelectiveCompletion then (-fiEinval, put e)
    else if hasFlag flags fiRecv && e.recvCq.isSome then (-fiEinval, put e)
    else
      let e := if hasFlag flags fiRecv then { e with recvCq := some cqPtr } else e
      if hasFlag flags fiRecv && hasFlag flags fiSelectiveCompletion then (-fiEinval, put e)
      else
        let rq := p.queues.length
        (0, { put e with
          queues := p.queues ++ [{}]
          cqs := p.cqs.set cqPtr { cq with queue := some rq }
          handlers := Function.update p.handlers cq.id (some rq) })

/-- The case `FI_CLASS_AV`. -/
def bindAv (p : Provider) (e : FidEp) (av : FidAv) : Int × Provider :=
  if e.domain ≠ av.domain then (-fiEinval, p) else (0, p)

/-- The remaining cases. -/
def bindOther (p : Provider) : FiClass → Int × Provider
  | .cntr | .mr => (-fiEinval, p)
  | .srxCtx | .stxCtx => (0, p)
  | _ => (-fiEnosys, p)

/-- The switch of `sstmac_ep_bind`.  An object has its own class or, where its constructor forgot it,
none; what would become of an object under another's class does not matter. -/
def bindByClass (p : Provider) (ep : Nat) (e : FidEp) (dom : FidDomain) (flags : BitVec 64) :
    Fid → FiClass → Except Fault (Int × Provider)
  | .eq i, .eq => (at? p.eqs (some i)).map (bindEq p ep e dom i)
  | .cq i, .cq => (at? p.cqs (some i)).map (bindCq p ep e i · flags)
  | .av i, .av => (at? p.avs (some i)).map (bindAv p e)
  | _, .eq | _, .cq | _, .av => .error .nullDereference
  | _, fclass => .ok (bindOther p fclass)

/-- `sstmac_ep_bind` -/
def sstmacEpBind (p : Provider) (ep : Nat) (bfid : Fid) (flags : BitVec 64) :
    Except Fault (Int × Provider) := do
  let e ← at? p.eps (some ep)
  let dom ← at? p.domains e.domain
  let _ ← at? p.fabrics dom.fabric
  let fclass ← fclassOf p bfid
  bindByClass p ep e dom flags bfid fclass

/-! ## §4 — the data path -/

/-- A method of the `RecvQueue` behind a pointer. -/
def Provider.onQueue {α : Type} (p : Provider) (queue : Option Nat)
    (call : State → Except Fault (α × State)) : Except Fault (α × Provider) := do
  let rq ← at? p.queues queue
  let (ret, rq) ← call rq
  return (ret, { p with queues := p.queues.set (queue.getD 0) rq })

/-- `domain->fabric->tport`, with which the operations of endpoints and completion queues begin. -/
def Provider.tport (p : Provider) (domain : Option Nat) : Except Fault FidFabric := do
  let dom ← at? p.domains domain
  at? p.fabrics dom.fabric

/-- `sstmaci_ep_recv`, from the endpoint on. -/
def Provider.epRecv (sumi : Sumi) (p : Provider) (ep : Nat) (buf : Ptr) (len : BitVec 64)
    (srcAddr : FiAddr) (context : Ptr) (tag tagIgnore flags : BitVec 64) :
    Except Fault (Int × Provider) := do
  let e ← at? p.eps (some ep)
  let _ ← p.tport e.domain
  if srcAddr ≠ fiAddrUnspec then return (-fiEinval, p)
  else
    let cq ← at? p.cqs e.recvCq
    p.onQueue cq.queue fun rq => sstmaciEpRecv sumi rq buf len srcAddr context tag tagIgnore flags

/-- `sstmaci_cq_read`, from the completion queue on. -/
def Provider.cqRead (p : Provider) (blocking : Bool) (cq : Nat) (count : Nat) (srcAddr : Bool)
    (timeout : Int) : Except Fault (Int × Provider) := do
  let c ← at? p.cqs (some cq)
  let _ ← p.tport c.domain
  if count = 0 then return (-fiEagain, p)
  else
    p.onQueue c.queue fun rq => do
      let r ← sstmaciCqRead blocking c.format rq count srcAddr timeout
      return (r.ret, r.queue)

/-- The transport calls the queue that is registered for the message's completion queue id; a
message for which none is goes nowhere in this provider. -/
def Provider.arrive (sumi : Sumi) (p : Provider) (id : BitVec 32) (msg : FabricMessage) :
    Except Fault Provider :=
  match p.handlers id with
  | none => .ok p
  | some q => do
    let (_, p) ← p.onQueue (some q) fun rq => do
      let rq ← incoming sumi rq msg
      return ((), rq)
    return p

/-- The operations of `fi_ops_av` that look at the domain. -/
inductive AvOp
  | insert
  | lookup
  | straddr
  deriving DecidableEq, Repr

/-- `av_impl->domain->addr_format`, with which `sstmac_av_insert`, `sstmac_av_lookup` and
`sstmac_av_straddr` begin. -/
def avAddrFormat (p : Provider) (av : Nat) : Except Fault (BitVec 32) := do
  let a ← at? p.avs (some av)
  let dom ← at? p.domains a.domain
  return dom.addrFormat

end SstTransports.Fabric
