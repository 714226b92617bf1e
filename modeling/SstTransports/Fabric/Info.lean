/-
# SstTransports.Fabric.Info — what the provider offers: `sstmac_getinfo`.

A caller passes hints, a `fi_info` with the features it wants and any of its sub-attributes absent;
the provider answers with a list of `fi_info`.  `sstmac_getinfo` makes three attempts, one for each
endpoint type; an attempt takes the entry `sstmac_allocinfo` makes, checks the hints against what the
provider can do, and has libfabric's `ofi_alter_info` rewrite the entry by the hints.

The fields below are those some function of this module reads, or sets to more than one value.  The
blocks of `sstmac_ep_getinfo` are definitions of their own, in its order; each leaves the function by
`Exit`.
-/
import SstTransports.Fabric.CompletionQueue

namespace SstTransports.Fabric

/-! ## §1 — flags and enumerations -/

-- `rdma/fabric.h`
def fiMsg : BitVec 64 := 1 <<< 1
def fiRma : BitVec 64 := 1 <<< 2
def fiAtomic : BitVec 64 := 1 <<< 4
def fiMulticast : BitVec 64 := 1 <<< 5
def fiCollective : BitVec 64 := 1 <<< 6
def fiRecv : BitVec 64 := 1 <<< 10
def fiMultiRecv : BitVec 64 := 1 <<< 16
def fiTrigger : BitVec 64 := 1 <<< 20
def fiFence : BitVec 64 := 1 <<< 21
def fiCompletion : BitVec 64 := 1 <<< 24
def fiInject : BitVec 64 := 1 <<< 25
def fiInjectComplete : BitVec 64 := 1 <<< 26
def fiTransmitComplete : BitVec 64 := 1 <<< 27
def fiDeliveryComplete : BitVec 64 := 1 <<< 28
def fiLocalComm : BitVec 64 := 1 <<< 51
def fiRemoteComm : BitVec 64 := 1 <<< 52
def fiSharedAv : BitVec 64 := 1 <<< 53
def fiRmaEvent : BitVec 64 := 1 <<< 56
def fiSource : BitVec 64 := 1 <<< 57
def fiNamedRxCtx : BitVec 64 := 1 <<< 58
def fiDirectedRecv : BitVec 64 := 1 <<< 59
def fiLocalMr : BitVec 64 := 1 <<< 55
def fiAsyncIov : BitVec 64 := 1 <<< 57
def fiMsgPrefix : BitVec 64 := 1 <<< 58
def fiOrderNone : BitVec 64 := 0
def fiOrderSas : BitVec 64 := 1 <<< 8
def fiSharedContext : BitVec 64 := BitVec.allOnes 64
def fiAddrStr : BitVec 32 := 9
def fiAddrSstmac : BitVec 32 := 13
def fiProtoUnspec : BitVec 32 := 0
def fiProtoSstmac : BitVec 32 := 21
def fiMrBasic : BitVec 32 := 1 <<< 0
def fiMrScalable : BitVec 32 := 1 <<< 1
def fiMrLocal : BitVec 32 := 1 <<< 2
def fiMrRaw : BitVec 32 := 1 <<< 3
def fiMrVirtAddr : BitVec 32 := 1 <<< 4
def fiMrProvKey : BitVec 32 := 1 <<< 6
def fiMrRmaEvent : BitVec 32 := 1 <<< 8

-- `ofi_util.h`, `ofi_mr.h` and `util_attr.c`
def fiPrimaryCaps : BitVec 64 :=
  fiMsg ||| fiRma ||| fiTagged ||| fiAtomic ||| fiMulticast ||| fiNamedRxCtx ||| fiDirectedRecv |||
    fiRead ||| fiWrite ||| fiRecv ||| fiSend ||| fiRemoteRead ||| fiRemoteWrite ||| fiCollective

def fiSecondaryCaps : BitVec 64 :=
  fiMultiRecv ||| fiSource ||| fiRmaEvent ||| fiSharedAv ||| fiTrigger ||| fiFence |||
    fiLocalComm ||| fiRemoteComm

def ofiMsgCaps : BitVec 64 := fiSend ||| fiRecv

def ofiRmaCaps : BitVec 64 := fiRead ||| fiWrite ||| fiRemoteRead ||| fiRemoteWrite

def ofiMrModeRmaTarget : BitVec 32 := fiMrRaw ||| fiMrVirtAddr ||| fiMrProvKey ||| fiMrRmaEvent

-- `sstmac.h` and `sstmac_fabric.cc`
def sstmacDomCaps : BitVec 64 := fiLocalComm ||| fiRemoteComm ||| fiSharedAv

/-- `SSTMAC_EP_PRIMARY_CAPS`, and `SSTMAC_EP_CAPS`, which is defined in the same words. -/
def sstmacEpCaps : BitVec 64 :=
  fiMsg ||| fiRma ||| fiTagged ||| fiAtomic ||| fiDirectedRecv ||| fiRead ||| fiNamedRxCtx |||
    fiWrite ||| fiSend ||| fiRecv ||| fiRemoteRead ||| fiRemoteWrite

def sstmacEpOpFlags : BitVec 64 :=
  fiInject ||| fiMultiRecv ||| fiCompletion ||| fiInjectComplete ||| fiTransmitComplete |||
    fiDeliveryComplete

def sstmacFabModes : BitVec 64 := 0

def sstmacFabModesClear : BitVec 64 := fiMsgPrefix ||| fiAsyncIov

def sstmacSepMaxCnt : BitVec 64 := 1 <<< 7

/-- `1<<31` is an `int`; where it meets a `size_t` its sign is extended. -/
def sstmacMaxMsgSize : BitVec 64 := ((1 : BitVec 32) <<< 31).signExtend 64

def sstmacInjectSize : BitVec 64 := 64

def sstmacMaxInjectSize : BitVec 64 := 64

/-- `FI_ENODATA` -/
def fiEnodata : Int := 61

/-- `enum fi_ep_type` -/
inductive EpType
  | unspec
  | msg
  | dgram
  | rdm
  | sockStream
  | sockDgram
  deriving DecidableEq, Repr

/-- `enum fi_progress` -/
inductive Progress
  | unspec
  | auto
  | manual
  deriving DecidableEq, Repr

/-- `enum fi_threading` -/
inductive Threading
  | unspec
  | safe
  | fid
  | domain
  | completion
  | endpoint
  deriving DecidableEq, Repr

/-- `enum fi_av_type` -/
inductive AvType
  | unspec
  | map
  | table
  deriving DecidableEq, Repr

/-- `FI_VERSION_LT`: the major number is above the minor one. -/
def fiVersionLt (v w : BitVec 32) : Bool :=
  v >>> 16 < w >>> 16 || (v >>> 16 == w >>> 16 && v &&& 0xFFFF < w &&& 0xFFFF)

/-- `FI_VERSION` -/
def fiVersion (major minor : BitVec 32) : BitVec 32 := major <<< 16 ||| minor

/-! ## §2 — `fi_info` -/

structure TxAttr where
  caps : BitVec 64 := 0
  mode : BitVec 64 := 0
  opFlags : BitVec 64 := 0
  msgOrder : BitVec 64 := 0
  compOrder : BitVec 64 := 0
  injectSize : BitVec 64 := 0
  size : BitVec 64 := 0
  iovLimit : BitVec 64 := 0
  rmaIovLimit : BitVec 64 := 0
  deriving DecidableEq, Repr

structure RxAttr where
  caps : BitVec 64 := 0
  mode : BitVec 64 := 0
  opFlags : BitVec 64 := 0
  msgOrder : BitVec 64 := 0
  compOrder : BitVec 64 := 0
  totalBufferedRecv : BitVec 64 := 0
  size : BitVec 64 := 0
  iovLimit : BitVec 64 := 0
  deriving DecidableEq, Repr

structure EpAttr where
  type : EpType := .unspec
  protocol : BitVec 32 := 0
  maxMsgSize : BitVec 64 := 0
  maxOrderRawSize : BitVec 64 := 0
  maxOrderWarSize : BitVec 64 := 0
  maxOrderWawSize : BitVec 64 := 0
  txCtxCnt : BitVec 64 := 0
  rxCtxCnt : BitVec 64 := 0
  deriving DecidableEq, Repr

structure DomainAttr where
  threading : Threading := .unspec
  controlProgress : Progress := .unspec
  dataProgress : Progress := .unspec
  avType : AvType := .unspec
  mrMode : BitVec 32 := 0
  caps : BitVec 64 := 0
  deriving DecidableEq, Repr

/-- The characters of a C string. -/
abbrev CString := List Char

structure FabricAttr where
  name : Option CString := none
  provName : Option CString := none
  provVersion : BitVec 32 := 0
  apiVersion : BitVec 32 := 0
  deriving DecidableEq, Repr

/-- A `fi_info` as `fi_allocinfo` makes it, with every sub-attribute. -/
structure FiInfo where
  caps : BitVec 64 := 0
  mode : BitVec 64 := 0
  addrFormat : BitVec 32 := 0
  handle : Ptr := nullptr
  txAttr : TxAttr := {}
  rxAttr : RxAttr := {}
  epAttr : EpAttr := {}
  domainAttr : DomainAttr := {}
  fabricAttr : FabricAttr := {}
  deriving DecidableEq, Repr

/-- A `fi_info` as a caller passes it: a sub-attribute may be null. -/
structure Hints where
  caps : BitVec 64 := 0
  mode : BitVec 64 := 0
  addrFormat : BitVec 32 := 0
  handle : Ptr := nullptr
  txAttr : Option TxAttr := none
  rxAttr : Option RxAttr := none
  epAttr : Option EpAttr := none
  domainAttr : Option DomainAttr := none
  fabricAttr : Option FabricAttr := none
  deriving DecidableEq, Repr

/-- An entry passed on as hints, as `fi_dupinfo` copies it. -/
def FiInfo.toHints (info : FiInfo) : Hints where
  caps := info.caps
  mode := info.mode
  addrFormat := info.addrFormat
  handle := info.handle
  txAttr := some info.txAttr
  rxAttr := some info.rxAttr
  epAttr := some info.epAttr
  domainAttr := some info.domainAttr
  fabricAttr := some info.fabricAttr

/-- `sstmac_allocinfo` -/
def sstmacAllocinfo : FiInfo where
  caps := sstmacEpCaps
  addrFormat := fiAddrStr
  epAttr :=
    { type := .rdm, protocol := fiProtoSstmac, maxMsgSize := sstmacMaxMsgSize, txCtxCnt := 1
      rxCtxCnt := 1 }
  domainAttr :=
    { threading := .safe, controlProgress := .auto, dataProgress := .auto, avType := .table
      mrMode := fiMrBasic, caps := sstmacDomCaps }
  txAttr :=
    { caps := sstmacEpCaps, msgOrder := fiOrderSas, compOrder := fiOrderNone
      injectSize := sstmacInjectSize, size := 100, iovLimit := 1, rmaIovLimit := 1 }
  rxAttr :=
    { caps := sstmacEpCaps, msgOrder := fiOrderSas, compOrder := fiOrderNone, size := 1000
      iovLimit := 1 }

/-! ## §3 — `ofi_alter_info` -/

/-- `ofi_get_caps` -/
def ofiGetCaps (infoCaps hintCaps attrCaps : BitVec 64) : BitVec 64 :=
  let caps :=
    if hintCaps = 0 then infoCaps &&& attrCaps &&& fiPrimaryCaps ||| attrCaps &&& fiSecondaryCaps
    else hintCaps &&& fiPrimaryCaps ||| attrCaps &&& fiSecondaryCaps
  let caps :=
    if hasFlag caps (fiMsg ||| fiTagged) && !hasFlag caps ofiMsgCaps then caps ||| ofiMsgCaps
    else caps
  if hasFlag caps (fiRma ||| fiAtomic) && !hasFlag caps ofiRmaCaps then caps ||| ofiRmaCaps
  else caps

/-- `ofi_rma_target_allowed` -/
def ofiRmaTargetAllowed (caps : BitVec 64) : Bool :=
  if hasFlag caps fiRma || hasFlag caps fiAtomic then
    if hasFlag caps fiRemoteWrite || hasFlag caps fiRemoteRead then true
    else !(hasFlag caps fiWrite || hasFlag caps fiRead)
  else false

/-- `ofi_cap_mr_mode` -/
def ofiCapMrMode (infoCaps : BitVec 64) (mrMode : BitVec 32) : BitVec 32 :=
  if ofiRmaTargetAllowed infoCaps then mrMode &&& ~~~(fiMrBasic ||| fiMrScalable)
  else if mrMode &&& fiMrLocal = 0 then 0
  else mrMode &&& ~~~ofiMrModeRmaTarget &&& ~~~(fiMrBasic ||| fiMrScalable)

/-- `fi_alter_domain_attr` -/
def fiAlterDomainAttr (attr : DomainAttr) (hints : Option DomainAttr) (infoCaps : BitVec 64)
    (apiVersion : BitVec 32) : DomainAttr :=
  let hintsMrMode := (hints.map (·.mrMode)).getD 0
  let mrMode :=
    if hintsMrMode &&& (fiMrBasic ||| fiMrScalable) ≠ 0 then hintsMrMode
    else if fiVersionLt apiVersion (fiVersion 1 5) then
      if attr.mrMode ≠ 0 ∧ attr.mrMode ≠ fiMrScalable then fiMrBasic else fiMrScalable
    else if hintsMrMode &&& attr.mrMode ≠ attr.mrMode then
      ofiCapMrMode infoCaps (attr.mrMode &&& hintsMrMode)
    else attr.mrMode
  let caps := ofiGetCaps infoCaps ((hints.map (·.caps)).getD 0) attr.caps
  match hints with
  | none => { attr with mrMode := mrMode, caps := caps }
  | some h =>
    { mrMode := mrMode
      caps := caps
      threading := if h.threading ≠ .unspec then h.threading else attr.threading
      controlProgress :=
        if h.controlProgress ≠ .unspec then h.controlProgress else attr.controlProgress
      dataProgress := if h.dataProgress ≠ .unspec then h.dataProgress else attr.dataProgress
      avType := if h.avType ≠ .unspec then h.avType else attr.avType }

/-- The C idiom `if (hint) attr = hint`. -/
def orDefault (hint attr : BitVec 64) : BitVec 64 := if hint ≠ 0 then hint else attr

/-- `fi_alter_ep_attr` -/
def fiAlterEpAttr (attr : EpAttr) (hints : Option EpAttr) (infoCaps : BitVec 64) : EpAttr :=
  match hints with
  | none => attr
  | some h =>
    let attr :=
      if hasFlag infoCaps (fiRma ||| fiAtomic) then
        { attr with
          maxOrderRawSize := orDefault h.maxOrderRawSize attr.maxOrderRawSize
          maxOrderWarSize := orDefault h.maxOrderWarSize attr.maxOrderWarSize
          maxOrderWawSize := orDefault h.maxOrderWawSize attr.maxOrderWawSize }
      else attr
    { attr with
      txCtxCnt := orDefault h.txCtxCnt attr.txCtxCnt
      rxCtxCnt := orDefault h.rxCtxCnt attr.rxCtxCnt }

/-- `fi_alter_rx_attr` -/
def fiAlterRxAttr (attr : RxAttr) (hints : Option RxAttr) (infoCaps : BitVec 64) : RxAttr :=
  let attr := { attr with caps := ofiGetCaps infoCaps ((hints.map (·.caps)).getD 0) attr.caps }
  match hints with
  | none => attr
  | some h =>
    { attr with
      opFlags := h.opFlags
      totalBufferedRecv := h.totalBufferedRecv
      size := orDefault h.size attr.size
      iovLimit := orDefault h.iovLimit attr.iovLimit }

/-- `fi_alter_tx_attr` -/
def fiAlterTxAttr (attr : TxAttr) (hints : Option TxAttr) (infoCaps : BitVec 64) : TxAttr :=
  let attr := { attr with caps := ofiGetCaps infoCaps ((hints.map (·.caps)).getD 0) attr.caps }
  match hints with
  | none => attr
  | some h =>
    { attr with
      opFlags := h.opFlags
      injectSize := orDefault h.injectSize attr.injectSize
      size := orDefault h.size attr.size
      iovLimit := orDefault h.iovLimit attr.iovLimit
      rmaIovLimit := orDefault h.rmaIovLimit attr.rmaIovLimit }

/-- `ofi_get_info_caps` -/
def ofiGetInfoCaps (provInfo : FiInfo) (userInfo : Hints) (apiVersion : BitVec 32) : BitVec 64 :=
  let caps := ofiGetCaps provInfo.caps userInfo.caps provInfo.caps
  let provMode := provInfo.domainAttr.mrMode
  if !ofiRmaTargetAllowed caps || provMode &&& ofiMrModeRmaTarget == 0 then caps
  else
    let keep :=
      match userInfo.domainAttr with
      | none => false
      | some d =>
        fiVersionLt apiVersion (fiVersion 1 5) && d.mrMode == 0 || d.mrMode == fiMrBasic ||
          d.mrMode &&& provMode &&& ofiMrModeRmaTarget == provMode &&& ofiMrModeRmaTarget
    if keep then caps else caps &&& ~~~(fiRemoteWrite ||| fiRemoteRead)

/-- `ofi_alter_info` on a single entry. -/
def ofiAlterInfo (info : FiInfo) (hints : Option Hints) (apiVersion : BitVec 32) : FiInfo :=
  match hints with
  | none => info
  | some h =>
    let caps := ofiGetInfoCaps info h apiVersion
    let localMr :=
      info.domainAttr.mrMode &&& fiMrLocal != 0 &&
        (fiVersionLt apiVersion (fiVersion 1 5) ||
          h.domainAttr.any fun d => d.mrMode &&& (fiMrBasic ||| fiMrScalable) != 0)
    { info with
      caps := caps
      mode := if localMr then info.mode ||| fiLocalMr else info.mode
      handle := h.handle
      domainAttr := fiAlterDomainAttr info.domainAttr h.domainAttr caps apiVersion
      epAttr := fiAlterEpAttr info.epAttr h.epAttr caps
      rxAttr := fiAlterRxAttr info.rxAttr h.rxAttr caps
      txAttr := fiAlterTxAttr info.txAttr h.txAttr caps }

/-! ## §4 — `sstmac_ep_getinfo` -/

/-- How a block leaves the function early: with a return code, or not at all. -/
inductive Exit
  | ret (code : Int)
  | fault (f : Fault)
  deriving DecidableEq, Repr

/-- `if (cond) return -FI_ENODATA` -/
def rejectIf (cond : Bool) : Except Exit Unit :=
  if cond then .error (.ret (-fiEnodata)) else .ok ()

/-- Reading through a pointer. -/
def deref {α : Type} : Option α → Except Exit α
  | some a => .ok a
  | none => .error (.fault .nullDereference)

/-- `if (ptr) { block }`: without the block the value stays. -/
def ifGiven {α β : Type} (ptr : Option α) (value : β) (block : α → Except Exit β) :
    Except Exit β :=
  match ptr with
  | some a => block a
  | none => .ok value

@[simp] theorem ifGiven_some {α β : Type} (a : α) (value : β) (block : α → Except Exit β) :
    ifGiven (some a) value block = block a := rfl

def hintEpType (epType : EpType) (hints : Hints) : Except Exit Unit :=
  rejectIf (hints.epAttr.any fun ep => ep.type != .unspec && ep.type != epType)

def hintAddrFormat (hints : Hints) (info : FiInfo) : Except Exit FiInfo :=
  if hints.addrFormat = fiAddrStr then .ok { info with addrFormat := fiAddrStr }
  else if hints.addrFormat = fiAddrSstmac then .ok { info with addrFormat := fiAddrSstmac }
  else .error (.ret (-fiEnodata))

/-- The check of `tx_ctx_cnt`, and that of `rx_ctx_cnt`. -/
def hintCtxCnt (hint attr : BitVec 64) : Except Exit (BitVec 64) := do
  rejectIf (sstmacSepMaxCnt < hint && hint != fiSharedContext)
  return orDefault hint attr

def hintEpAttr (hints : EpAttr) (info : FiInfo) : Except Exit FiInfo := do
  rejectIf (hints.protocol != fiProtoUnspec && hints.protocol != fiProtoSstmac)
  let txCtxCnt ← hintCtxCnt hints.txCtxCnt info.epAttr.txCtxCnt
  let rxCtxCnt ← hintCtxCnt hints.rxCtxCnt info.epAttr.rxCtxCnt
  rejectIf (sstmacMaxMsgSize < hints.maxMsgSize)
  return { info with epAttr := { info.epAttr with txCtxCnt := txCtxCnt, rxCtxCnt := rxCtxCnt } }

def hintMode (hints : Hints) (info : FiInfo) : Except Exit FiInfo := do
  if hints.mode ≠ 0 then
    rejectIf (hints.mode &&& sstmacFabModes != sstmacFabModes)
    return { info with mode := info.mode &&& ~~~sstmacFabModesClear }
  else return info

def hintCaps (hints : Hints) (info : FiInfo) : Except Exit FiInfo := do
  if hints.caps ≠ 0 then
    rejectIf (hints.caps &&& sstmacEpCaps != hints.caps)
    return { info with caps := hints.caps }
  else return info

/-- `order && order != FI_ORDER_NONE` -/
def requiresOrder (order : BitVec 64) : Bool := order != 0 && order != fiOrderNone

/-- The block of `tx_attr`; the capabilities it looks at are those of `rx_attr`. -/
def hintTxAttr (hints : Hints) (tx : TxAttr) : Except Exit Unit := do
  rejectIf (tx.opFlags &&& sstmacEpOpFlags != tx.opFlags)
  rejectIf (sstmacMaxInjectSize < tx.injectSize)
  rejectIf (requiresOrder tx.compOrder)
  rejectIf (requiresOrder tx.msgOrder)
  if tx.caps ≠ 0 then
    let rx ← deref hints.rxAttr
    rejectIf (hints.caps != 0 && hints.caps &&& rx.caps != rx.caps)
    rejectIf (rx.caps &&& sstmacEpCaps != rx.caps)

/-- The block of `rx_attr`; its operation flags are compared with those of `tx_attr`. -/
def hintRxAttr (hints : Hints) (rx : RxAttr) : Except Exit Unit := do
  let tx ← deref hints.txAttr
  rejectIf (rx.opFlags &&& sstmacEpOpFlags != tx.opFlags)
  rejectIf (requiresOrder rx.compOrder)
  rejectIf (requiresOrder rx.msgOrder)

/-- The block of `domain_attr`.  The switch on `mr_mode` has no default. -/
def hintDomainAttr (hints : DomainAttr) (info : FiInfo) : Except Exit FiInfo := do
  let attr := info.domainAttr
  let controlProgress :=
    if hints.controlProgress ≠ .unspec then hints.controlProgress else attr.controlProgress
  let dataProgress := if hints.dataProgress ≠ .unspec then hints.dataProgress else attr.dataProgress
  let mrMode := if hints.mrMode = 0 ∨ hints.mrMode = fiMrBasic then fiMrBasic else attr.mrMode
  rejectIf (hints.mrMode == fiMrScalable)
  let threading := if hints.threading = .completion then .completion else attr.threading
  rejectIf (hints.caps != 0 && hints.caps &&& sstmacDomCaps != sstmacDomCaps)
  return { info with
    domainAttr :=
      { attr with
        controlProgress := controlProgress
        dataProgress := dataProgress
        mrMode := mrMode
        threading := threading
        caps := orDefault hints.caps attr.caps } }

/-- The blocks under `if (hints)`, in order. -/
def checkFeatures (hints : Hints) (info : FiInfo) : Except Exit FiInfo := do
  let info ← hintAddrFormat hints info
  let info ← ifGiven hints.epAttr info fun ep => hintEpAttr ep info
  let info ← hintMode hints info
  let info ← hintCaps hints info
  ifGiven hints.txAttr () (hintTxAttr hints)
  ifGiven hints.rxAttr () (hintRxAttr hints)
  ifGiven hints.domainAttr info fun d => hintDomainAttr d info

/-- `sstmac_fab_name` -/
def sstmacFabName : CString := "sstmac".toList

/-- `sstmac_ep_getinfo`.  Node, service and flags are not read; neither is `ep_type` once the hints
are checked. -/
def sstmacEpGetinfo (epType : EpType) (version : BitVec 32) (hints : Option Hints) :
    Except Exit FiInfo := do
  let info ← ifGiven hints sstmacAllocinfo fun h => do
    hintEpType epType h
    checkFeatures h sstmacAllocinfo
  let info := ofiAlterInfo info hints version
  return { info with
    fabricAttr := { info.fabricAttr with name := some sstmacFabName }
    txAttr := { info.txAttr with caps := info.caps, mode := info.mode }
    rxAttr := { info.rxAttr with caps := info.caps, mode := info.mode } }

/-! ## §5 — `sstmac_getinfo` -/

/-- One attempt: the entry it makes is put in front of the list. -/
def attempt (version : BitVec 32) (hints : Option Hints) (list : List FiInfo) (epType : EpType) :
    Except Fault (List FiInfo) :=
  match sstmacEpGetinfo epType version hints with
  | .ok info => .ok (info :: list)
  | .error (.ret _) => .ok list
  | .error (.fault f) => .error f

/-- `sstmac_getinfo`: the return code and the list. -/
def sstmacGetinfo (version : BitVec 32) (hints : Option Hints) :
    Except Fault (Int × List FiInfo) := do
  let list ← attempt version hints [] .msg
  let list ← attempt version hints list .dgram
  let list ← attempt version hints list .rdm
  return (if list.isEmpty then -fiEnodata else 0, list)

end SstTransports.Fabric
