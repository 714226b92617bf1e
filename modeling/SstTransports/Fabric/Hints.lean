/-
# SstTransports.Fabric.Hints — what the entries of `sstmac_getinfo` have to do with the hints.

With every sub-attribute present, the checks of `sstmac_ep_getinfo` refuse the hints or return one
entry that does not depend on the endpoint type of the attempt (`epGetinfo_complete`).  Two results
follow.

* `getinfo_honours_iff`: the entries honour the hints for an endpoint type of `FI_EP_RDM` only, since
  every entry has that type.
* `feedback_refused`: no entry is accepted as hints, since every entry promises a message order and
  the checks refuse to be asked for one.
-/
import SstTransports.Fabric.Info

namespace SstTransports.Fabric

open SstTransports.Lib

/-! ## §1 — what the checks refuse -/

theorem rejectIf_bind {α : Type} (cond : Bool) (f : Unit → Except Exit α) :
    (rejectIf cond >>= f) = if cond then .error (.ret (-fiEnodata)) else f () := by
  cases cond <;> rfl

theorem reject_or {α : Type} (a b : Bool) (e : Exit) (x : Except Exit α) :
    (if a then .error e else if b then .error e else x) = if a || b then .error e else x := by
  cases a <;> rfl

theorem reject_bind {α β : Type} (a : Bool) (e : Exit) (x : α) (f : α → Except Exit β) :
    ((if a then .error e else .ok x) >>= f) = if a then .error e else f x := by
  cases a <;> rfl

/-- Neither `FI_ADDR_STR` nor `FI_ADDR_SSTMAC`. -/
def refusedAddrFormat (addrFormat : BitVec 32) : Bool :=
  addrFormat != fiAddrStr && addrFormat != fiAddrSstmac

def refusedCtxCnt (cnt : BitVec 64) : Bool := sstmacSepMaxCnt < cnt && cnt != fiSharedContext

def refusedEpAttr (ep : EpAttr) : Bool :=
  ep.protocol != fiProtoUnspec && ep.protocol != fiProtoSstmac || refusedCtxCnt ep.txCtxCnt ||
    refusedCtxCnt ep.rxCtxCnt || sstmacMaxMsgSize < ep.maxMsgSize

def refusedCaps (caps : BitVec 64) : Bool := caps &&& sstmacEpCaps != caps

def refusedTxAttr (caps : BitVec 64) (tx : TxAttr) (rx : RxAttr) : Bool :=
  tx.opFlags &&& sstmacEpOpFlags != tx.opFlags || sstmacMaxInjectSize < tx.injectSize ||
    requiresOrder tx.compOrder || requiresOrder tx.msgOrder ||
    tx.caps != 0 && (caps != 0 && caps &&& rx.caps != rx.caps || rx.caps &&& sstmacEpCaps != rx.caps)

def refusedRxAttr (tx : TxAttr) (rx : RxAttr) : Bool :=
  rx.opFlags &&& sstmacEpOpFlags != tx.opFlags || requiresOrder rx.compOrder ||
    requiresOrder rx.msgOrder

def refusedDomainAttr (d : DomainAttr) : Bool :=
  d.mrMode == fiMrScalable || d.caps != 0 && d.caps &&& sstmacDomCaps != sstmacDomCaps

theorem hintAddrFormat_eq (h : Hints) (info : FiInfo) :
    hintAddrFormat h info =
      if refusedAddrFormat h.addrFormat then .error (.ret (-fiEnodata))
      else .ok { info with addrFormat := h.addrFormat } := by
  unfold hintAddrFormat refusedAddrFormat
  by_cases hstr : h.addrFormat = fiAddrStr
  · simp [hstr]
  · by_cases hsst : h.addrFormat = fiAddrSstmac
    · simp [hsst, fiAddrSstmac, fiAddrStr]
    · simp [hstr, hsst]

theorem hintEpAttr_eq (ep : EpAttr) (info : FiInfo) :
    hintEpAttr ep info =
      if refusedEpAttr ep then .error (.ret (-fiEnodata))
      else .ok { info with
        epAttr :=
          { info.epAttr with
            txCtxCnt := orDefault ep.txCtxCnt info.epAttr.txCtxCnt
            rxCtxCnt := orDefault ep.rxCtxCnt info.epAttr.rxCtxCnt } } := by
  have hcnt : ∀ hint attr, hintCtxCnt hint attr =
      if refusedCtxCnt hint then .error (.ret (-fiEnodata)) else .ok (orDefault hint attr) :=
    fun hint attr => rejectIf_bind _ _
  simp only [hintEpAttr, hcnt, reject_bind, rejectIf_bind, reject_or, refusedEpAttr, Bool.or_assoc]
  rfl

theorem hintMode_eq (h : Hints) (info : FiInfo) :
    hintMode h info =
      .ok { info with mode := if h.mode ≠ 0 then info.mode &&& ~~~sstmacFabModesClear
                              else info.mode } := by
  have hnever : (h.mode &&& sstmacFabModes != sstmacFabModes) = false := by simp [sstmacFabModes]
  unfold hintMode
  by_cases hmode : h.mode ≠ 0
  · rw [if_pos hmode, if_pos hmode, rejectIf_bind, hnever]
    rfl
  · rw [if_neg hmode, if_neg hmode]
    rfl

theorem hintCaps_eq (h : Hints) (info : FiInfo) :
    hintCaps h info =
      if refusedCaps h.caps then .error (.ret (-fiEnodata))
      else .ok { info with caps := orDefault h.caps info.caps } := by
  unfold hintCaps refusedCaps orDefault
  by_cases hcaps : h.caps ≠ 0
  · rw [if_pos hcaps, if_pos hcaps, rejectIf_bind]
    rfl
  · have hzero : h.caps = 0 := not_not.mp hcaps
    rw [if_neg hcaps, if_neg hcaps, hzero]
    rfl

theorem hintTxAttr_eq {h : Hints} {rx : RxAttr} (hrx : h.rxAttr = some rx) (tx : TxAttr) :
    hintTxAttr h tx =
      if refusedTxAttr h.caps tx rx then .error (.ret (-fiEnodata)) else .ok () := by
  unfold hintTxAttr refusedTxAttr
  by_cases hcaps : tx.caps ≠ 0
  · have hne : (tx.caps != 0) = true := bne_iff_ne.mpr hcaps
    have hderef : deref h.rxAttr = .ok rx := by rw [hrx]; rfl
    rw [if_pos hcaps, hderef, hne, Bool.true_and]
    simp only [rejectIf_bind, Bool.or_assoc, ← reject_or]
    rfl
  · have hne : (tx.caps != 0) = false := by simpa using hcaps
    rw [if_neg hcaps, hne, Bool.false_and, Bool.or_false]
    simp only [rejectIf_bind, Bool.or_assoc, ← reject_or]
    rfl

theorem hintRxAttr_eq {h : Hints} {tx : TxAttr} (htx : h.txAttr = some tx) (rx : RxAttr) :
    hintRxAttr h rx =
      if refusedRxAttr tx rx then .error (.ret (-fiEnodata)) else .ok () := by
  have hderef : deref h.txAttr = .ok tx := by rw [htx]; rfl
  unfold hintRxAttr refusedRxAttr
  rw [hderef]
  simp only [Bool.or_assoc, ← reject_or]
  show (rejectIf _ >>= _) = _
  simp only [rejectIf_bind]
  rfl

/-- What the block of `domain_attr` makes of an entry. -/
def acceptDomainAttr (d : DomainAttr) (attr : DomainAttr) : DomainAttr :=
  { attr with
    controlProgress := if d.controlProgress ≠ .unspec then d.controlProgress else attr.controlProgress
    dataProgress := if d.dataProgress ≠ .unspec then d.dataProgress else attr.dataProgress
    mrMode := if d.mrMode = 0 ∨ d.mrMode = fiMrBasic then fiMrBasic else attr.mrMode
    threading := if d.threading = .completion then .completion else attr.threading
    caps := orDefault d.caps attr.caps }

theorem hintDomainAttr_eq (d : DomainAttr) (info : FiInfo) :
    hintDomainAttr d info =
      if refusedDomainAttr d then .error (.ret (-fiEnodata))
      else .ok { info with domainAttr := acceptDomainAttr d info.domainAttr } := by
  unfold hintDomainAttr refusedDomainAttr
  simp only [rejectIf_bind, reject_or]
  rfl

/-- Hints with all the sub-attributes the provider reads. -/
structure Complete (h : Hints) where
  tx : TxAttr
  rx : RxAttr
  ep : EpAttr
  domain : DomainAttr
  tx_eq : h.txAttr = some tx
  rx_eq : h.rxAttr = some rx
  ep_eq : h.epAttr = some ep
  domain_eq : h.domainAttr = some domain

variable {h : Hints}

/-- The hints ask for something the checks refuse, whatever the endpoint type. -/
def Complete.refused (c : Complete h) : Bool :=
  refusedAddrFormat h.addrFormat || refusedEpAttr c.ep || refusedCaps h.caps ||
    refusedTxAttr h.caps c.tx c.rx || refusedRxAttr c.tx c.rx || refusedDomainAttr c.domain

/-- The entry as the checks leave it. -/
def Complete.accepted (c : Complete h) : FiInfo :=
  { sstmacAllocinfo with
    addrFormat := h.addrFormat
    caps := orDefault h.caps sstmacEpCaps
    epAttr :=
      { sstmacAllocinfo.epAttr with
        txCtxCnt := orDefault c.ep.txCtxCnt 1
        rxCtxCnt := orDefault c.ep.rxCtxCnt 1 }
    domainAttr := acceptDomainAttr c.domain sstmacAllocinfo.domainAttr }

/-- **The checks.** With all sub-attributes present nothing faults, and the hints are refused or
taken over. -/
theorem checkFeatures_eq (c : Complete h) :
    checkFeatures h sstmacAllocinfo =
      if c.refused then .error (.ret (-fiEnodata)) else .ok c.accepted := by
  have hmode : (if h.mode ≠ 0 then sstmacAllocinfo.mode &&& ~~~sstmacFabModesClear
      else sstmacAllocinfo.mode) = 0 := by
    split <;> rfl
  unfold checkFeatures Complete.refused
  simp only [c.ep_eq, c.tx_eq, c.rx_eq, c.domain_eq, ifGiven_some, hintAddrFormat_eq, hintEpAttr_eq, hintMode_eq,
    hintCaps_eq, hintTxAttr_eq c.rx_eq, hintRxAttr_eq c.tx_eq, hintDomainAttr_eq, reject_bind,
    Bool.or_assoc, ← reject_or]
  rw [hmode]
  rfl

/-! ## §2 — the entry -/

/-- The entry as `sstmac_ep_getinfo` returns it. -/
def Complete.entry (c : Complete h) (version : BitVec 32) : FiInfo :=
  let info := ofiAlterInfo c.accepted (some h) version
  { info with
    fabricAttr := { info.fabricAttr with name := some sstmacFabName }
    txAttr := { info.txAttr with caps := info.caps, mode := info.mode }
    rxAttr := { info.rxAttr with caps := info.caps, mode := info.mode } }

/-- **One attempt.** Its endpoint type decides only whether it is made. -/
theorem epGetinfo_complete (c : Complete h) (epType : EpType) (version : BitVec 32) :
    sstmacEpGetinfo epType version (some h) =
      if c.ep.type != .unspec && c.ep.type != epType || c.refused then .error (.ret (-fiEnodata))
      else .ok (c.entry version) := by
  have htype : hintEpType epType h = rejectIf (c.ep.type != .unspec && c.ep.type != epType) := by
    rw [hintEpType, c.ep_eq]
    rfl
  simp only [sstmacEpGetinfo, ifGiven_some, htype, rejectIf_bind, checkFeatures_eq c, reject_or, reject_bind]
  rfl

/-- The list: what an attempt adds depends on its type only if the hints give one. -/
def Complete.entries (c : Complete h) (version : BitVec 32) : List FiInfo :=
  if c.refused then []
  else
    match c.ep.type with
    | .unspec => [c.entry version, c.entry version, c.entry version]
    | .msg | .dgram | .rdm => [c.entry version]
    | .sockStream | .sockDgram => []

theorem getinfo_complete (c : Complete h) (version : BitVec 32) :
    sstmacGetinfo version (some h) =
      .ok (if (c.entries version).isEmpty then -fiEnodata else 0, c.entries version) := by
  unfold sstmacGetinfo attempt Complete.entries
  simp only [epGetinfo_complete c]
  cases c.refused <;> cases c.ep.type <;> rfl

/-- The capabilities the provider grants for those of the hints. -/
def grantedCaps (caps : BitVec 64) : BitVec 64 :=
  ofiGetCaps (orDefault caps sstmacEpCaps) caps (orDefault caps sstmacEpCaps)

/-- `FI_MR_BASIC` names none of the modes that restrict what a target may do. -/
theorem accepted_mrMode (c : Complete h) : c.accepted.domainAttr.mrMode = fiMrBasic := by
  show (if _ then fiMrBasic else fiMrBasic) = fiMrBasic
  split <;> rfl

theorem entry_caps (c : Complete h) (version : BitVec 32) :
    (c.entry version).caps = grantedCaps h.caps := by
  show ofiGetInfoCaps c.accepted h version = grantedCaps h.caps
  have hnone : (c.accepted.domainAttr.mrMode &&& ofiMrModeRmaTarget == 0) = true := by
    rw [accepted_mrMode]
    rfl
  simp only [ofiGetInfoCaps, hnone, Bool.or_true, if_true]
  rfl

theorem entry_txCaps (c : Complete h) (version : BitVec 32) :
    (c.entry version).txAttr.caps = grantedCaps h.caps := entry_caps c version

theorem entry_rxCaps (c : Complete h) (version : BitVec 32) :
    (c.entry version).rxAttr.caps = grantedCaps h.caps := entry_caps c version

theorem fiAlterEpAttr_ctxCnt (attr ep : EpAttr) (caps : BitVec 64) :
    (fiAlterEpAttr attr (some ep) caps).type = attr.type ∧
      (fiAlterEpAttr attr (some ep) caps).txCtxCnt = orDefault ep.txCtxCnt attr.txCtxCnt ∧
      (fiAlterEpAttr attr (some ep) caps).rxCtxCnt = orDefault ep.rxCtxCnt attr.rxCtxCnt := by
  unfold fiAlterEpAttr
  split
  · cases ‹some ep = none›
  · rename_i heq
    cases heq
    split <;> exact ⟨rfl, rfl, rfl⟩

theorem entry_epAttr (c : Complete h) (version : BitVec 32) :
    (c.entry version).epAttr =
      fiAlterEpAttr c.accepted.epAttr (some c.ep) (c.entry version).caps := by
  rw [← c.ep_eq]
  rfl

theorem entry_domainAttr (c : Complete h) (version : BitVec 32) :
    (c.entry version).domainAttr =
      fiAlterDomainAttr c.accepted.domainAttr (some c.domain) (c.entry version).caps version := by
  rw [← c.domain_eq]
  rfl

/-- The type is the one `sstmac_allocinfo` gives every entry. -/
theorem entry_type (c : Complete h) (version : BitVec 32) :
    (c.entry version).epAttr.type = .rdm := by
  rw [entry_epAttr, (fiAlterEpAttr_ctxCnt _ _ _).1]
  rfl

/-! ## §3 — honouring the hints -/

/-- Every hinted primary capability is granted. -/
def Covers (granted hinted : BitVec 64) : Prop :=
  hinted &&& fiPrimaryCaps &&& granted = hinted &&& fiPrimaryCaps

instance (granted hinted : BitVec 64) : Decidable (Covers granted hinted) :=
  inferInstanceAs (Decidable (_ = _))

/-- All the capabilities the hints name. -/
def Hints.allCaps (h : Hints) : BitVec 64 :=
  h.caps ||| (h.txAttr.map (·.caps)).getD 0 ||| (h.rxAttr.map (·.caps)).getD 0

/-- What an entry owes the hints. -/
structure Honours (h : Hints) (e : FiInfo) : Prop where
  type : ∀ ep, h.epAttr = some ep → ep.type ≠ .unspec → e.epAttr.type = ep.type
  addrFormat : e.addrFormat = h.addrFormat
  caps : Covers e.caps h.allCaps
  txCaps : Covers e.txAttr.caps h.allCaps
  rxCaps : Covers e.rxAttr.caps h.allCaps
  txCtxCnt : ∀ ep, h.epAttr = some ep → ep.txCtxCnt ≠ 0 → e.epAttr.txCtxCnt = ep.txCtxCnt
  rxCtxCnt : ∀ ep, h.epAttr = some ep → ep.rxCtxCnt ≠ 0 → e.epAttr.rxCtxCnt = ep.rxCtxCnt
  controlProgress : ∀ d, h.domainAttr = some d → d.controlProgress ≠ .unspec →
    e.domainAttr.controlProgress = d.controlProgress
  dataProgress : ∀ d, h.domainAttr = some d → d.dataProgress ≠ .unspec →
    e.domainAttr.dataProgress = d.dataProgress

/-- What the list owes the caller: entries of the three types, each at most once, that honour the
hints if there are any, and success exactly if there are entries. -/
structure HonoursHints (hints : Option Hints) (ret : Int) (entries : List FiInfo) : Prop where
  attempted : ∀ e ∈ entries, e.epAttr.type ∈ [EpType.msg, .dgram, .rdm]
  once : (entries.map (·.epAttr.type)).Nodup
  honours : ∀ h, hints = some h → ∀ e ∈ entries, Honours h e
  success : ret = 0 ↔ entries ≠ []

theorem covers_iff {granted hinted : BitVec 64} :
    Covers granted hinted ↔
      ∀ i, hinted.getLsbD i = true → fiPrimaryCaps.getLsbD i = true → granted.getLsbD i = true := by
  constructor
  · intro hcovers i hhinted hprimary
    have hi := congrArg (BitVec.getLsbD · i) hcovers
    simpa [hhinted, hprimary] using hi
  · intro hbits
    apply BitVec.eq_of_getLsbD_eq
    intro i _
    have hi := hbits i
    rw [BitVec.getLsbD_and, BitVec.getLsbD_and]
    cases hhinted : hinted.getLsbD i with
    | false => simp
    | true =>
        cases hprimary : fiPrimaryCaps.getLsbD i with
        | false => simp
        | true => simp [hi hhinted hprimary]

theorem covers_or {granted a b : BitVec 64} :
    Covers granted (a ||| b) ↔ Covers granted a ∧ Covers granted b := by
  simp only [covers_iff, BitVec.getLsbD_or, Bool.or_eq_true]
  constructor
  · intro hab
    exact ⟨fun i ha => hab i (Or.inl ha), fun i hb => hab i (Or.inr hb)⟩
  · rintro ⟨ha, hb⟩ i hab hprimary
    rcases hab with hai | hbi
    · exact ha i hai hprimary
    · exact hb i hbi hprimary

/-- What is hinted is granted. -/
theorem covers_granted (caps : BitVec 64) : Covers (grantedCaps caps) caps := by
  apply covers_iff.mpr
  intro i hhinted hprimary
  have hne : caps ≠ 0 := by
    rintro rfl
    simp at hhinted
  simp only [grantedCaps, ofiGetCaps, if_neg hne]
  split <;> split <;> simp [hhinted, hprimary]

theorem allCaps_complete (c : Complete h) : h.allCaps = h.caps ||| c.tx.caps ||| c.rx.caps := by
  rw [Hints.allCaps, c.tx_eq, c.rx_eq]
  rfl

/-- When the entry honours the hints: its type is always `FI_EP_RDM`, and its transmit and receive
capabilities are those granted for the hints' own. -/
theorem honours_entry_iff (c : Complete h) (version : BitVec 32) :
    Honours h (c.entry version) ↔
      (c.ep.type = .unspec ∨ c.ep.type = .rdm) ∧ Covers (grantedCaps h.caps) c.tx.caps ∧
        Covers (grantedCaps h.caps) c.rx.caps := by
  obtain ⟨-, htx, hrx⟩ := fiAlterEpAttr_ctxCnt c.accepted.epAttr c.ep (c.entry version).caps
  have hcaps : Covers (grantedCaps h.caps) h.allCaps ↔
      Covers (grantedCaps h.caps) c.tx.caps ∧ Covers (grantedCaps h.caps) c.rx.caps := by
    rw [allCaps_complete c, covers_or, covers_or]
    exact ⟨fun ⟨⟨_, ht⟩, hr⟩ => ⟨ht, hr⟩, fun ⟨ht, hr⟩ => ⟨⟨covers_granted _, ht⟩, hr⟩⟩
  constructor
  · intro hon
    refine ⟨?_, hcaps.mp (entry_caps c version ▸ hon.caps)⟩
    by_cases hunspec : c.ep.type = .unspec
    · exact Or.inl hunspec
    · right
      rw [← hon.type c.ep c.ep_eq hunspec, entry_type]
  · rintro ⟨hrdm, hcovers⟩
    have hall := hcaps.mpr hcovers
    refine ⟨?_, rfl, ?_, ?_, ?_, ?_, ?_, ?_, ?_⟩
    · intro ep hsome hne
      cases c.ep_eq.symm.trans hsome
      rw [entry_type, hrdm.resolve_left hne]
    · rwa [entry_caps]
    · rwa [entry_txCaps]
    · rwa [entry_rxCaps]
    · intro ep hsome hne
      cases c.ep_eq.symm.trans hsome
      rw [entry_epAttr, htx, orDefault, if_pos hne]
    · intro ep hsome hne
      cases c.ep_eq.symm.trans hsome
      rw [entry_epAttr, hrx, orDefault, if_pos hne]
    · intro d hsome hne
      cases c.domain_eq.symm.trans hsome
      rw [entry_domainAttr]
      exact if_pos hne
    · intro d hsome hne
      cases c.domain_eq.symm.trans hsome
      rw [entry_domainAttr]
      exact if_pos hne

/-- The hints are refused, or ask for a type that no attempt is made for, or for `FI_EP_RDM` with
transmit and receive capabilities among those granted. -/
def Complete.Served (c : Complete h) : Prop :=
  c.refused = true ∨ c.ep.type = .sockStream ∨ c.ep.type = .sockDgram ∨
    c.ep.type = .rdm ∧ Covers (grantedCaps h.caps) c.tx.caps ∧ Covers (grantedCaps h.caps) c.rx.caps

/-- All the sub-attributes the provider reads are present. -/
def Hints.AllPresent (h : Hints) : Prop :=
  h.txAttr.isSome = true ∧ h.rxAttr.isSome = true ∧ h.epAttr.isSome = true ∧
    h.domainAttr.isSome = true

theorem Hints.AllPresent.complete (hpresent : h.AllPresent) : Nonempty (Complete h) := by
  obtain ⟨htx, hrx, hep, hdomain⟩ := hpresent
  obtain ⟨tx, htx⟩ := Option.isSome_iff_exists.mp htx
  obtain ⟨rx, hrx⟩ := Option.isSome_iff_exists.mp hrx
  obtain ⟨ep, hep⟩ := Option.isSome_iff_exists.mp hep
  obtain ⟨domain, hdomain⟩ := Option.isSome_iff_exists.mp hdomain
  exact ⟨⟨tx, rx, ep, domain, htx, hrx, hep, hdomain⟩⟩

/-- One list for each endpoint type the hints can give. -/
theorem honoursHints_entries_iff (c : Complete h) (version : BitVec 32) :
    HonoursHints (some h) (if (c.entries version).isEmpty then -fiEnodata else 0)
      (c.entries version) ↔ c.Served := by
  have hnone : HonoursHints (some h) (-fiEnodata) [] :=
    ⟨by simp, by simp, by simp, by simp [fiEnodata]⟩
  have hone : HonoursHints (some h) 0 [c.entry version] ↔ Honours h (c.entry version) := by
    constructor
    · intro hon
      exact hon.honours h rfl _ (List.mem_singleton_self _)
    · intro hon
      refine ⟨?_, by simp, ?_, by simp⟩
      · intro e he
        rw [List.mem_singleton.mp he, entry_type]
        simp
      · intro h' hh' e he
        cases hh'
        rw [List.mem_singleton.mp he]
        exact hon
  unfold Complete.entries Complete.Served
  cases hrefused : c.refused with
  | true => simpa using hnone
  | false =>
      cases htype : c.ep.type with
      | unspec =>
          -- three entries of one type
          refine iff_of_false ?_ (by simp)
          intro hon
          have honce := hon.once
          simp at honce
      | msg =>
          have hiff := hone.trans (honours_entry_iff c version)
          simpa [htype] using hiff
      | dgram =>
          have hiff := hone.trans (honours_entry_iff c version)
          simpa [htype] using hiff
      | rdm =>
          have hiff := hone.trans (honours_entry_iff c version)
          simpa [htype] using hiff
      | sockStream => simpa using hnone
      | sockDgram => simpa using hnone

theorem getinfo_null (version : BitVec 32) :
    ∃ e : FiInfo, sstmacGetinfo version none = .ok (0, [e, e, e]) :=
  ⟨_, rfl⟩

/-- **When the entries honour the hints.** For every version, and hints that are null or have all
sub-attributes: the list that `sstmac_getinfo` returns honours the hints, with each endpoint type at
most once, if and only if there are hints and they are refused, or give a type for which no attempt is
made, or give `FI_EP_RDM` and hint no transmit or receive capability beyond those granted for their
`caps`. -/
theorem getinfo_honours_iff (version : BitVec 32) (hints : Option Hints)
    (hpresent : ∀ h, hints = some h → h.AllPresent) :
    (∃ ret entries, sstmacGetinfo version hints = .ok (ret, entries) ∧
      HonoursHints hints ret entries) ↔
      ∃ h, hints = some h ∧ ∃ c : Complete h, c.Served := by
  cases hints with
  | none =>
      refine iff_of_false ?_ (by simp)
      rintro ⟨ret, entries, hget, hon⟩
      obtain ⟨e, he⟩ := getinfo_null version
      rw [he] at hget
      cases hget
      have honce := hon.once
      simp at honce
  | some h =>
      obtain ⟨c⟩ := (hpresent h rfl).complete
      constructor
      · rintro ⟨ret, entries, hget, hon⟩
        rw [getinfo_complete c] at hget
        cases hget
        exact ⟨h, rfl, c, (honoursHints_entries_iff c version).mp hon⟩
      · rintro ⟨h', hh', c', hserved⟩
        cases hh'
        exact ⟨_, _, getinfo_complete c' version, (honoursHints_entries_iff c' version).mpr hserved⟩

/-- Hints for an endpoint of a given type, with nothing else asked for. -/
def sampleHints (type : EpType) : Hints where
  addrFormat := fiAddrStr
  txAttr := some {}
  rxAttr := some {}
  epAttr := some { type := type }
  domainAttr := some {}

def sampleComplete (type : EpType) : Complete (sampleHints type) :=
  ⟨_, _, _, _, rfl, rfl, rfl, rfl⟩

theorem getinfo_honours_iff_rdm :
    ∃ ret entries, sstmacGetinfo (fiVersion 1 9) (some (sampleHints .rdm)) = .ok (ret, entries) ∧
      HonoursHints (some (sampleHints .rdm)) ret entries :=
  (getinfo_honours_iff _ _ (by rintro h ⟨⟩; exact ⟨rfl, rfl, rfl, rfl⟩)).mpr
    ⟨_, rfl, sampleComplete .rdm, Or.inr (Or.inr (Or.inr (by decide)))⟩

/-- Asked for `FI_EP_MSG`, the provider offers `FI_EP_RDM`. -/
theorem getinfo_msg_not_honoured :
    (sampleHints .msg).AllPresent ∧
      ¬ ∃ ret entries, sstmacGetinfo (fiVersion 1 9) (some (sampleHints .msg)) = .ok (ret, entries) ∧
        HonoursHints (some (sampleHints .msg)) ret entries := by
  refine ⟨⟨rfl, rfl, rfl, rfl⟩, ?_⟩
  rintro ⟨ret, entries, hget, hon⟩
  rw [getinfo_complete (sampleComplete .msg)] at hget
  cases hget
  have hserved := (honoursHints_entries_iff (sampleComplete .msg) (fiVersion 1 9)).mp hon
  revert hserved
  unfold Complete.Served
  decide

/-! ## §4 — an entry as hints -/

/-- The second entry agrees with the first on what an application looks at. -/
structure Agrees (e e' : FiInfo) : Prop where
  addrFormat : e'.addrFormat = e.addrFormat
  caps : e'.caps = e.caps
  mode : e'.mode = e.mode
  type : e'.epAttr.type = e.epAttr.type
  txCaps : e'.txAttr.caps = e.txAttr.caps
  rxCaps : e'.rxAttr.caps = e.rxAttr.caps
  txMsgOrder : e'.txAttr.msgOrder = e.txAttr.msgOrder
  rxMsgOrder : e'.rxAttr.msgOrder = e.rxAttr.msgOrder
  txCompOrder : e'.txAttr.compOrder = e.txAttr.compOrder
  rxCompOrder : e'.rxAttr.compOrder = e.rxAttr.compOrder
  txCtxCnt : e'.epAttr.txCtxCnt = e.epAttr.txCtxCnt
  rxCtxCnt : e'.epAttr.rxCtxCnt = e.epAttr.rxCtxCnt
  domainCaps : e'.domainAttr.caps = e.domainAttr.caps

/-- Every entry, passed back as hints, is accepted and gives an entry that agrees with it. -/
def FeedbackClosed (version : BitVec 32) (entries : List FiInfo) : Prop :=
  ∀ e ∈ entries, ∃ entries', sstmacGetinfo version (some e.toHints) = .ok (0, entries') ∧
    ∃ e' ∈ entries', Agrees e e'

/-- The checks write neither the transmit nor the fabric attributes. -/
theorem checkFeatures_frame {info info' : FiInfo} (hcheck : checkFeatures h info = .ok info') :
    info'.txAttr = info.txAttr ∧ info'.fabricAttr = info.fabricAttr := by
  unfold checkFeatures at hcheck
  obtain ⟨i₁, h₁, hcheck⟩ := bind_eq_ok.mp hcheck
  obtain ⟨i₂, h₂, hcheck⟩ := bind_eq_ok.mp hcheck
  obtain ⟨i₃, h₃, hcheck⟩ := bind_eq_ok.mp hcheck
  obtain ⟨i₄, h₄, hcheck⟩ := bind_eq_ok.mp hcheck
  obtain ⟨-, -, hcheck⟩ := bind_eq_ok.mp hcheck
  obtain ⟨-, -, hcheck⟩ := bind_eq_ok.mp hcheck
  have e₁ : i₁.txAttr = info.txAttr ∧ i₁.fabricAttr = info.fabricAttr := by
    rw [hintAddrFormat_eq] at h₁
    split at h₁ <;> cases h₁
    exact ⟨rfl, rfl⟩
  have e₂ : i₂.txAttr = i₁.txAttr ∧ i₂.fabricAttr = i₁.fabricAttr := by
    cases hep : h.epAttr with
    | none =>
        rw [hep] at h₂
        cases h₂
        exact ⟨rfl, rfl⟩
    | some ep =>
        rw [hep, ifGiven_some, hintEpAttr_eq] at h₂
        split at h₂ <;> cases h₂
        exact ⟨rfl, rfl⟩
  have e₃ : i₃.txAttr = i₂.txAttr ∧ i₃.fabricAttr = i₂.fabricAttr := by
    rw [hintMode_eq] at h₃
    cases h₃
    exact ⟨rfl, rfl⟩
  have e₄ : i₄.txAttr = i₃.txAttr ∧ i₄.fabricAttr = i₃.fabricAttr := by
    rw [hintCaps_eq] at h₄
    split at h₄ <;> cases h₄
    exact ⟨rfl, rfl⟩
  have e₅ : info'.txAttr = i₄.txAttr ∧ info'.fabricAttr = i₄.fabricAttr := by
    cases hdomain : h.domainAttr with
    | none =>
        rw [hdomain] at hcheck
        cases hcheck
        exact ⟨rfl, rfl⟩
    | some d =>
        rw [hdomain, ifGiven_some, hintDomainAttr_eq] at hcheck
        split at hcheck <;> cases hcheck
        exact ⟨rfl, rfl⟩
  exact ⟨by rw [e₅.1, e₄.1, e₃.1, e₂.1, e₁.1], by rw [e₅.2, e₄.2, e₃.2, e₂.2, e₁.2]⟩

theorem ofiAlterInfo_msgOrder (info : FiInfo) (hints : Option Hints) (version : BitVec 32) :
    (ofiAlterInfo info hints version).txAttr.msgOrder = info.txAttr.msgOrder := by
  cases hints with
  | none => rfl
  | some h =>
      show (fiAlterTxAttr info.txAttr h.txAttr _).msgOrder = _
      unfold fiAlterTxAttr
      cases h.txAttr <;> rfl

/-- An entry is made from one that has the transmit and fabric attributes every entry starts with. -/
theorem epGetinfo_made {epType : EpType} {version : BitVec 32} {hints : Option Hints}
    {e : FiInfo} (hget : sstmacEpGetinfo epType version hints = .ok e) :
    ∃ info : FiInfo, info.txAttr = sstmacAllocinfo.txAttr ∧ info.fabricAttr = {} ∧
      e.txAttr.msgOrder = (ofiAlterInfo info hints version).txAttr.msgOrder ∧
      e.fabricAttr = { (ofiAlterInfo info hints version).fabricAttr with
        name := some sstmacFabName } := by
  unfold sstmacEpGetinfo at hget
  obtain ⟨info, hinfo, hret⟩ := bind_eq_ok.mp hget
  have hframe : info.txAttr = sstmacAllocinfo.txAttr ∧ info.fabricAttr = {} := by
    cases hints with
    | none =>
        cases hinfo
        exact ⟨rfl, rfl⟩
    | some h =>
        obtain ⟨-, -, hcheck⟩ := bind_eq_ok.mp hinfo
        exact checkFeatures_frame hcheck
  cases hret
  exact ⟨info, hframe.1, hframe.2, rfl, rfl⟩

/-- Every entry promises sends after sends, whatever the hints. -/
theorem epGetinfo_msgOrder {epType : EpType} {version : BitVec 32} {hints : Option Hints}
    {e : FiInfo} (hget : sstmacEpGetinfo epType version hints = .ok e) :
    e.txAttr.msgOrder = fiOrderSas := by
  obtain ⟨info, htx, -, horder, -⟩ := epGetinfo_made hget
  rw [horder, ofiAlterInfo_msgOrder, htx]
  rfl

/-- No entry names a provider: that is left to the library. -/
theorem epGetinfo_provName {epType : EpType} {version : BitVec 32} {hints : Option Hints}
    {e : FiInfo} (hget : sstmacEpGetinfo epType version hints = .ok e) :
    e.fabricAttr.provName = none := by
  obtain ⟨info, -, hfabric, -, he⟩ := epGetinfo_made hget
  rw [he]
  cases hints with
  | none => simp [ofiAlterInfo, hfabric]
  | some h => simp [ofiAlterInfo, hfabric]

theorem attempt_mem {version : BitVec 32} {hints : Option Hints} {list list' : List FiInfo}
    {epType : EpType} (hattempt : attempt version hints list epType = .ok list') {e : FiInfo}
    (he : e ∈ list') : e ∈ list ∨ sstmacEpGetinfo epType version hints = .ok e := by
  unfold attempt at hattempt
  split at hattempt
  · rename_i info hget
    cases hattempt
    rcases List.mem_cons.mp he with rfl | he
    · exact Or.inr hget
    · exact Or.inl he
  · cases hattempt
    exact Or.inl he
  · cases hattempt

/-- Every entry of the list was made by one of the attempts. -/
theorem getinfo_mem {version : BitVec 32} {hints : Option Hints} {ret : Int}
    {entries : List FiInfo} (hget : sstmacGetinfo version hints = .ok (ret, entries)) {e : FiInfo}
    (he : e ∈ entries) : ∃ epType, sstmacEpGetinfo epType version hints = .ok e := by
  unfold sstmacGetinfo at hget
  obtain ⟨l₁, h₁, hget⟩ := bind_eq_ok.mp hget
  obtain ⟨l₂, h₂, hget⟩ := bind_eq_ok.mp hget
  obtain ⟨l₃, h₃, hget⟩ := bind_eq_ok.mp hget
  cases hget
  rcases attempt_mem h₃ he with he | hmade
  · rcases attempt_mem h₂ he with he | hmade
    · rcases attempt_mem h₁ he with he | hmade
      · cases he
      · exact ⟨_, hmade⟩
    · exact ⟨_, hmade⟩
  · exact ⟨_, hmade⟩

/-- An entry has all its sub-attributes. -/
def FiInfo.complete (e : FiInfo) : Complete e.toHints :=
  ⟨e.txAttr, e.rxAttr, e.epAttr, e.domainAttr, rfl, rfl, rfl, rfl⟩

theorem refused_of_msgOrder {e : FiInfo} (horder : e.txAttr.msgOrder = fiOrderSas) :
    e.complete.refused = true := by
  have htx : refusedTxAttr e.caps e.txAttr e.rxAttr = true := by
    unfold refusedTxAttr
    rw [horder]
    simp [requiresOrder, fiOrderSas, fiOrderNone]
  show (_ || _ || _ || refusedTxAttr e.caps e.txAttr e.rxAttr || _ || _) = true
  rw [htx]
  simp

/-- An entry used as hints is refused. -/
theorem getinfo_of_entry {version : BitVec 32} {hints : Option Hints} {ret : Int}
    {entries : List FiInfo} (hget : sstmacGetinfo version hints = .ok (ret, entries)) {e : FiInfo}
    (he : e ∈ entries) : sstmacGetinfo version (some e.toHints) = .ok (-fiEnodata, []) := by
  obtain ⟨epType, hmade⟩ := getinfo_mem hget he
  rw [getinfo_complete e.complete, Complete.entries,
    if_pos (refused_of_msgOrder (epGetinfo_msgOrder hmade))]
  rfl

/-- Success means that there is an entry. -/
theorem getinfo_success_ne_nil {version : BitVec 32} {hints : Option Hints}
    {entries : List FiInfo} (hget : sstmacGetinfo version hints = .ok (0, entries)) :
    entries ≠ [] := by
  rintro rfl
  unfold sstmacGetinfo at hget
  obtain ⟨l₁, h₁, hget⟩ := bind_eq_ok.mp hget
  obtain ⟨l₂, h₂, hget⟩ := bind_eq_ok.mp hget
  obtain ⟨l₃, h₃, hget⟩ := bind_eq_ok.mp hget
  cases l₃ with
  | nil => cases hget
  | cons e l => cases hget

theorem not_feedbackClosed_of_mem {version : BitVec 32} {entries : List FiInfo} {e : FiInfo}
    (he : e ∈ entries)
    (hrefused : sstmacGetinfo version (some e.toHints) = .ok (-fiEnodata, [])) :
    ¬ FeedbackClosed version entries := by
  intro hclosed
  obtain ⟨entries', hagain, -⟩ := hclosed e he
  rw [hrefused] at hagain
  cases hagain

/-- **No entry can be fed back.** Whenever `sstmac_getinfo` succeeds, with any hints and version, each
entry it returns is refused when used as hints at the same version. -/
theorem feedback_refused (version : BitVec 32) (hints : Option Hints) (entries : List FiInfo)
    (hget : sstmacGetinfo version hints = .ok (0, entries)) :
    ¬ FeedbackClosed version entries ∧
      ∀ e ∈ entries, sstmacGetinfo version (some e.toHints) = .ok (-fiEnodata, []) := by
  have hrefused : ∀ e ∈ entries,
      sstmacGetinfo version (some e.toHints) = .ok (-fiEnodata, []) :=
    fun e he => getinfo_of_entry hget he
  refine ⟨?_, hrefused⟩
  obtain ⟨e, he⟩ := List.exists_mem_of_ne_nil _ (getinfo_success_ne_nil hget)
  exact not_feedbackClosed_of_mem he (hrefused e he)

theorem feedback_refused_rdm :
    ∃ entries, sstmacGetinfo (fiVersion 1 9) (some (sampleHints .rdm)) = .ok (0, entries) ∧
      ¬ FeedbackClosed (fiVersion 1 9) entries := by
  have hget := getinfo_complete (sampleComplete .rdm) (fiVersion 1 9)
  exact ⟨_, hget, (feedback_refused _ _ _ hget).1⟩

/-- A query without hints succeeds, and its first entry is not accepted back. -/
theorem null_hints_not_fed_back :
    ∃ entries, sstmacGetinfo (fiVersion 1 9) none = .ok (0, entries) ∧
      ¬ FeedbackClosed (fiVersion 1 9) entries := by
  obtain ⟨e, he⟩ := getinfo_null (fiVersion 1 9)
  exact ⟨_, he, not_feedbackClosed_of_mem List.mem_cons_self
    (getinfo_of_entry he List.mem_cons_self)⟩

end SstTransports.Fabric
