/-
# SstTransports.Fabric.Verdict — how the checks of `sstmac_ep_getinfo` end.

The checks are one block after the other, and each either goes on, returns `-FI_ENODATA`, or follows a
null pointer.  How a block ends does not depend on what the blocks before it have written, so the
whole ends as its first block that does not go on (`exits_bind`, `epGetinfo_exits`); this holds for any
hints, whichever sub-attributes are there.

* `getinfo_null_safe_iff`: which hints make the checks follow the null pointer of an absent
  sub-attribute.  The block of `tx_attr` reads `rx_attr`, and the block of `rx_attr` reads `tx_attr`.
* `getinfo_refuses_iff`: which hints are judged by what they ask for.  The capabilities of `tx_attr` are
  looked for in `rx_attr`, the operation flags of `rx_attr` are compared with those of `tx_attr`, and
  the test of the domain's capabilities is the wrong way round.
-/
import SstTransports.Fabric.Hints

namespace SstTransports.Fabric

open SstTransports.Lib

/-! ## §1 — leaving early -/

/-- How a computation leaves the function, if it does. -/
def exits {α : Type} : Except Exit α → Option Exit
  | .ok _ => none
  | .error e => some e

@[simp] theorem exits_ok {α : Type} (a : α) : exits (.ok a : Except Exit α) = none := rfl

@[simp] theorem exits_error {α : Type} (e : Exit) : exits (.error e : Except Exit α) = some e := rfl

theorem exits_eq_some {α : Type} {x : Except Exit α} {e : Exit} :
    exits x = some e ↔ x = .error e := by
  cases x <;> simp

/-- What follows counts only if nothing before it has left the function. -/
theorem exits_bind {α β : Type} {x : Except Exit α} {f : α → Except Exit β} {e e' : Option Exit}
    (hx : exits x = e) (hf : ∀ a, exits (f a) = e') : exits (x >>= f) = e.or e' := by
  subst hx
  cases x with
  | ok a => exact hf a
  | error e => rfl

theorem exits_bind_ok {α β : Type} {x : Except Exit α} {f : α → Except Exit β}
    (hf : ∀ a, ∃ b, f a = .ok b) : exits (x >>= f) = exits x := by
  cases x with
  | ok a =>
      obtain ⟨b, hb⟩ := hf a
      show exits (f a) = none
      rw [hb, exits_ok]
  | error e => rfl

/-- `return -FI_ENODATA`, under a condition. -/
def refusal (cond : Bool) : Option Exit := if cond then some (.ret (-fiEnodata)) else none

theorem exits_rejectIf (cond : Bool) : exits (rejectIf cond) = refusal cond := by
  cases cond <;> rfl

theorem exits_rejectIf_bind {α : Type} (cond : Bool) (f : Unit → Except Exit α) :
    exits (rejectIf cond >>= f) = (refusal cond).or (exits (f ())) := by
  cases cond <;> rfl

theorem exits_reject {α : Type} (cond : Bool) (a : α) :
    exits (if cond then .error (.ret (-fiEnodata)) else .ok a) = refusal cond := by
  cases cond <;> rfl

theorem refusal_or (a b : Bool) : (refusal a).or (refusal b) = refusal (a || b) := by
  cases a <;> rfl

/-! ## §2 — the blocks -/

/-- The tests a `tx_attr` is put to for its own sake. -/
def refusedTxOwn (tx : TxAttr) : Bool :=
  tx.opFlags &&& sstmacEpOpFlags != tx.opFlags || sstmacMaxInjectSize < tx.injectSize ||
    requiresOrder tx.compOrder || requiresOrder tx.msgOrder

/-- The tests the capabilities of `rx_attr` are put to on behalf of `tx_attr`. -/
def refusedTxCaps (caps : BitVec 64) (rx : RxAttr) : Bool :=
  caps != 0 && caps &&& rx.caps != rx.caps || rx.caps &&& sstmacEpCaps != rx.caps

/-- The tests before those of `tx_attr`. -/
def Hints.refusedEarly (epType : EpType) (h : Hints) : Bool :=
  (h.epAttr.any fun ep => ep.type != .unspec && ep.type != epType) ||
    refusedAddrFormat h.addrFormat || h.epAttr.any refusedEpAttr || refusedCaps h.caps

/-- How the block of `tx_attr` ends. -/
def Hints.txExit (h : Hints) : Option Exit :=
  match h.txAttr with
  | none => none
  | some tx =>
    (refusal (refusedTxOwn tx)).or
      (if tx.caps ≠ 0 then
        match h.rxAttr with
        | none => some (.fault .nullDereference)
        | some rx => refusal (refusedTxCaps h.caps rx)
      else none)

/-- How the block of `rx_attr` ends. -/
def Hints.rxExit (h : Hints) : Option Exit :=
  match h.rxAttr with
  | none => none
  | some rx =>
    match h.txAttr with
    | none => some (.fault .nullDereference)
    | some tx => refusal (refusedRxAttr tx rx)

/-- How the checks end. -/
def Hints.verdict (epType : EpType) (h : Hints) : Option Exit :=
  (refusal (h.refusedEarly epType)).or <| h.txExit.or <| h.rxExit.or <|
    refusal (h.domainAttr.any refusedDomainAttr)

theorem exits_txBlock (h : Hints) : exits (ifGiven h.txAttr () (hintTxAttr h)) = h.txExit := by
  unfold Hints.txExit
  cases h.txAttr with
  | none => rfl
  | some tx =>
      rw [ifGiven_some]
      unfold hintTxAttr refusedTxOwn
      simp only [exits_rejectIf_bind, ← refusal_or, Option.or_assoc]
      by_cases hcaps : tx.caps ≠ 0
      · rw [if_pos hcaps, if_pos hcaps]
        cases h.rxAttr with
        | none => rfl
        | some rx =>
            have hboth : exits (do
                let rx ← deref (some rx)
                rejectIf (h.caps != 0 && h.caps &&& rx.caps != rx.caps)
                rejectIf (rx.caps &&& sstmacEpCaps != rx.caps)) =
                refusal (refusedTxCaps h.caps rx) := by
              rw [refusedTxCaps, ← refusal_or]
              show exits (rejectIf _ >>= fun _ => rejectIf _) = _
              exact exits_bind (exits_rejectIf _) fun _ => exits_rejectIf _
            rw [hboth]
      · rw [if_neg hcaps, if_neg hcaps]
        rfl

theorem exits_rxBlock (h : Hints) : exits (ifGiven h.rxAttr () (hintRxAttr h)) = h.rxExit := by
  unfold Hints.rxExit
  cases h.rxAttr with
  | none => rfl
  | some rx =>
      rw [ifGiven_some]
      cases htx : h.txAttr with
      | none =>
          unfold hintRxAttr
          rw [htx]
          rfl
      | some tx =>
          rw [hintRxAttr_eq htx, exits_reject]

theorem exits_epBlock (h : Hints) (info : FiInfo) :
    exits (ifGiven h.epAttr info fun ep => hintEpAttr ep info) =
      refusal (h.epAttr.any refusedEpAttr) := by
  cases h.epAttr with
  | none => rfl
  | some ep => rw [ifGiven_some, hintEpAttr_eq, exits_reject, Option.any_some]

theorem exits_domainBlock (h : Hints) (info : FiInfo) :
    exits (ifGiven h.domainAttr info fun d => hintDomainAttr d info) =
      refusal (h.domainAttr.any refusedDomainAttr) := by
  cases h.domainAttr with
  | none => rfl
  | some d => rw [ifGiven_some, hintDomainAttr_eq, exits_reject, Option.any_some]

/-- The blocks under `if (hints)`. -/
theorem exits_checkFeatures (h : Hints) (info : FiInfo) :
    exits (checkFeatures h info) =
      (refusal (refusedAddrFormat h.addrFormat || h.epAttr.any refusedEpAttr ||
        refusedCaps h.caps)).or
        (h.txExit.or (h.rxExit.or (refusal (h.domainAttr.any refusedDomainAttr)))) := by
  have hcaps : ∀ info, exits (hintCaps h info) = refusal (refusedCaps h.caps) := by
    intro info
    rw [hintCaps_eq, exits_reject]
  have haddr : exits (hintAddrFormat h info) = refusal (refusedAddrFormat h.addrFormat) := by
    rw [hintAddrFormat_eq, exits_reject]
  have htail : ∀ info, exits (do
      ifGiven h.txAttr () (hintTxAttr h)
      ifGiven h.rxAttr () (hintRxAttr h)
      ifGiven h.domainAttr info fun d => hintDomainAttr d info) =
      h.txExit.or (h.rxExit.or (refusal (h.domainAttr.any refusedDomainAttr))) := by
    intro info
    exact exits_bind (exits_txBlock h) fun _ =>
      exits_bind (exits_rxBlock h) fun _ => exits_domainBlock h info
  unfold checkFeatures
  simp only [← refusal_or, Option.or_assoc]
  refine exits_bind haddr fun i₁ => exits_bind (exits_epBlock h i₁) fun i₂ => ?_
  rw [hintMode_eq]
  show exits (hintCaps h _ >>= _) = _
  exact exits_bind (hcaps _) htail

/-- **The verdict.** For any endpoint type and any hints. -/
theorem epGetinfo_exits (epType : EpType) (version : BitVec 32) (h : Hints) :
    exits (sstmacEpGetinfo epType version (some h)) = h.verdict epType := by
  have hchecks : exits (do
      hintEpType epType h
      checkFeatures h sstmacAllocinfo) = h.verdict epType := by
    have hearly : h.verdict epType =
        (refusal (h.epAttr.any fun ep => ep.type != .unspec && ep.type != epType)).or
          (exits (checkFeatures h sstmacAllocinfo)) := by
      rw [exits_checkFeatures, Hints.verdict, Hints.refusedEarly]
      simp only [← refusal_or, Option.or_assoc]
    rw [hearly]
    exact exits_bind (exits_rejectIf _) fun _ => rfl
  unfold sstmacEpGetinfo
  rw [ifGiven_some]
  refine (exits_bind_ok ?_).trans hchecks
  exact fun _ => ⟨_, rfl⟩

theorem epGetinfo_error_iff {epType : EpType} {version : BitVec 32} {h : Hints} {e : Exit} :
    sstmacEpGetinfo epType version (some h) = .error e ↔ h.verdict epType = some e := by
  rw [← epGetinfo_exits epType version, exits_eq_some]

/-! ## §3 — absent sub-attributes -/

/-- The checks come to a block that reads an absent sub-attribute: a `tx_attr` that asks for
capabilities where there is no `rx_attr`, or a `rx_attr` where there is no `tx_attr`. -/
def Hints.followsNull (epType : EpType) (h : Hints) : Bool :=
  !h.refusedEarly epType &&
    match h.txAttr, h.rxAttr with
    | some tx, none => !refusedTxOwn tx && tx.caps != 0
    | none, some _ => true
    | some _, some _ => false
    | none, none => false

theorem refusal_ne_fault (cond : Bool) (f : Fault) : refusal cond ≠ some (.fault f) := by
  cases cond <;> simp [refusal]

/-- A refusal before it, or after it, does not make a fault. -/
theorem refusal_or_eq_fault {cond : Bool} {e : Option Exit} {f : Fault} :
    (refusal cond).or e = some (.fault f) ↔ cond = false ∧ e = some (.fault f) := by
  cases cond <;> simp [refusal]

theorem verdict_fault_iff {epType : EpType} {h : Hints} :
    (∃ f, h.verdict epType = some (.fault f)) ↔ h.followsNull epType = true := by
  unfold Hints.verdict Hints.followsNull Hints.txExit Hints.rxExit
  simp only [refusal_or_eq_fault, Bool.and_eq_true, Bool.not_eq_true']
  cases htx : h.txAttr with
  | none =>
      cases hrx : h.rxAttr with
      | none => simp [refusal_ne_fault]
      | some rx => simp
  | some tx =>
      cases hrx : h.rxAttr with
      | none =>
          by_cases hcaps : tx.caps ≠ 0
          · have hask : (tx.caps != 0) = true := bne_iff_ne.mpr hcaps
            simp only [if_pos hcaps, hask, Option.or_assoc, refusal_or_eq_fault, Option.some_or]
            simp
          · have hask : (tx.caps != 0) = false := by simpa using hcaps
            simp only [if_neg hcaps, hask, Option.or_none, Option.none_or, refusal_or]
            simp [refusal_ne_fault]
      | some rx =>
          dsimp only
          split_ifs <;> simp [refusal_or, refusal_ne_fault]

theorem epGetinfo_no_fault_iff {epType : EpType} {version : BitVec 32} {hints : Option Hints} :
    (∀ f, sstmacEpGetinfo epType version hints ≠ .error (.fault f)) ↔
      ∀ h ∈ hints, h.followsNull epType = false := by
  cases hints with
  | none =>
      refine iff_of_true ?_ (by simp)
      intro f hfault
      cases hfault
  | some h =>
      simp only [Option.mem_some_iff, forall_eq', ne_eq, epGetinfo_error_iff]
      rw [← not_exists, verdict_fault_iff, Bool.not_eq_true]

theorem attempt_returns_iff {version : BitVec 32} {hints : Option Hints} {list : List FiInfo}
    {epType : EpType} :
    (∃ list', attempt version hints list epType = .ok list') ↔
      ∀ f, sstmacEpGetinfo epType version hints ≠ .error (.fault f) := by
  unfold attempt
  cases sstmacEpGetinfo epType version hints with
  | ok info => simp
  | error e => cases e <;> simp

theorem getinfo_returns_iff {version : BitVec 32} {hints : Option Hints} :
    (∃ r, sstmacGetinfo version hints = .ok r) ↔
      ∀ epType ∈ [EpType.msg, .dgram, .rdm], ∀ f,
        sstmacEpGetinfo epType version hints ≠ .error (.fault f) := by
  simp only [List.forall_mem_cons, List.not_mem_nil, false_implies, implies_true, and_true]
  constructor
  · rintro ⟨r, hr⟩
    obtain ⟨l₁, h₁, hr⟩ := bind_eq_ok.mp hr
    obtain ⟨l₂, h₂, hr⟩ := bind_eq_ok.mp hr
    obtain ⟨l₃, h₃, -⟩ := bind_eq_ok.mp hr
    exact ⟨attempt_returns_iff.mp ⟨l₁, h₁⟩, attempt_returns_iff.mp ⟨l₂, h₂⟩,
      attempt_returns_iff.mp ⟨l₃, h₃⟩⟩
  · rintro ⟨hmsg, hdgram, hrdm⟩
    obtain ⟨l₁, h₁⟩ := attempt_returns_iff.mpr hmsg
    obtain ⟨l₂, h₂⟩ := attempt_returns_iff.mpr hdgram
    obtain ⟨l₃, h₃⟩ := attempt_returns_iff.mpr hrdm
    exact ⟨_, bind_eq_ok.mpr ⟨l₁, h₁, bind_eq_ok.mpr ⟨l₂, h₂, bind_eq_ok.mpr ⟨l₃, h₃, rfl⟩⟩⟩⟩

/-- **When no absent sub-attribute is read.** For any version and hints, null or with any of their
sub-attributes absent: an attempt of any endpoint type follows no null pointer exactly if, there being
hints, none of the two blocks is reached without the other's attribute; and `sstmac_getinfo` returns
exactly if that holds of its three attempts. -/
theorem getinfo_null_safe_iff (version : BitVec 32) (hints : Option Hints) :
    (∀ epType, (∀ f, sstmacEpGetinfo epType version hints ≠ .error (.fault f)) ↔
      ∀ h ∈ hints, h.followsNull epType = false) ∧
    ((∃ r, sstmacGetinfo version hints = .ok r) ↔
      ∀ epType ∈ [EpType.msg, .dgram, .rdm], ∀ h ∈ hints, h.followsNull epType = false) := by
  refine ⟨fun epType => epGetinfo_no_fault_iff, ?_⟩
  rw [getinfo_returns_iff]
  simp only [epGetinfo_no_fault_iff]

/-- A `tx_attr` that asks for messages, and no `rx_attr`. -/
def txOnlyHints : Hints := { addrFormat := fiAddrStr, txAttr := some { caps := fiMsg } }

/-- An empty `rx_attr`, and no `tx_attr`. -/
def rxOnlyHints : Hints := { addrFormat := fiAddrStr, rxAttr := some {} }

theorem getinfo_follows_null :
    sstmacGetinfo (fiVersion 1 9) (some txOnlyHints) = .error .nullDereference ∧
      sstmacGetinfo (fiVersion 1 9) (some rxOnlyHints) = .error .nullDereference := by
  decide

/-! ## §4 — satisfiable hints -/

variable {h : Hints}

/-- Some bit is not among the allowed ones. -/
def outside (bits allowed : BitVec 64) : Bool := bits &&& allowed != bits

/-- Capabilities the provider does not have, or beyond those of the hints, if these name any. -/
def asksBeyond (caps asked : BitVec 64) : Bool :=
  outside asked sstmacEpCaps || caps != 0 && outside asked caps

/-- What the checks look at where they should. -/
def Complete.refusedRightly (epType : EpType) (c : Complete h) : Bool :=
  c.ep.type != .unspec && c.ep.type != epType || refusedAddrFormat h.addrFormat ||
    refusedEpAttr c.ep || outside h.caps sstmacEpCaps || refusedTxOwn c.tx ||
    requiresOrder c.rx.compOrder || requiresOrder c.rx.msgOrder || c.domain.mrMode == fiMrScalable

/-- What else must not be asked for. -/
def Complete.asksTooMuch (c : Complete h) : Bool :=
  asksBeyond h.caps c.tx.caps || asksBeyond h.caps c.rx.caps ||
    outside c.rx.opFlags sstmacEpOpFlags || outside c.domain.caps sstmacDomCaps

/-- The hints ask for something the provider cannot do. -/
def Complete.unsatisfiable (epType : EpType) (c : Complete h) : Bool :=
  c.refusedRightly epType || c.asksTooMuch

/-- The three tests that take one attribute for another, or the two sides of a comparison for each
other. -/
def Complete.refusedWrongly (c : Complete h) : Bool :=
  c.tx.caps != 0 && asksBeyond h.caps c.rx.caps ||
    c.rx.opFlags &&& sstmacEpOpFlags != c.tx.opFlags ||
    c.domain.caps != 0 && c.domain.caps &&& sstmacDomCaps != sstmacDomCaps

theorem refusedTxCaps_eq (caps : BitVec 64) (rx : RxAttr) :
    refusedTxCaps caps rx = asksBeyond caps rx.caps := by
  unfold refusedTxCaps asksBeyond outside
  rw [BitVec.and_comm caps rx.caps, Bool.or_comm]

/-- The checks are these two groups of tests. -/
theorem refused_eq (epType : EpType) (c : Complete h) :
    (c.ep.type != .unspec && c.ep.type != epType || c.refused) =
      (c.refusedRightly epType || c.refusedWrongly) := by
  have htx : refusedTxAttr h.caps c.tx c.rx =
      (refusedTxOwn c.tx || c.tx.caps != 0 && asksBeyond h.caps c.rx.caps) := by
    rw [← refusedTxCaps_eq]
    rfl
  unfold Complete.refused Complete.refusedRightly Complete.refusedWrongly refusedRxAttr
    refusedDomainAttr refusedCaps
  rw [htx]
  simp only [outside]
  ac_rfl

/-- With nothing too much asked for, the three tests come to comparing the operation flags of the two
sides, and the domain's capabilities with all there are. -/
theorem refusedWrongly_eq_false_iff {c : Complete h} (hasks : c.asksTooMuch = false) :
    c.refusedWrongly = false ↔
      c.rx.opFlags = c.tx.opFlags ∧ (c.domain.caps = 0 ∨ c.domain.caps = sstmacDomCaps) := by
  unfold Complete.asksTooMuch at hasks
  simp only [Bool.or_eq_false_iff, outside, bne_eq_false_iff_eq] at hasks
  obtain ⟨⟨⟨-, hrx⟩, hflags⟩, hdomain⟩ := hasks
  unfold Complete.refusedWrongly
  rw [hrx, hflags, hdomain]
  simp only [Bool.and_false, Bool.false_or, Bool.or_eq_false_iff, Bool.and_eq_false_iff,
    bne_eq_false_iff_eq]

/-- **When hints are judged by what they ask for.** For every endpoint type and all hints with their
sub-attributes: `-FI_ENODATA` is returned exactly for the unsatisfiable ones if and only if some test
that is made rightly refuses them; or they ask too much, and one of the three wrong tests refuses them
all the same; or they do not, give both sides the same operation flags, and ask for all of the domain's
capabilities or none. -/
theorem getinfo_refuses_iff (epType : EpType) (version : BitVec 32) (h : Hints) (c : Complete h) :
    (sstmacEpGetinfo epType version (some h) = .error (.ret (-fiEnodata)) ↔
        c.unsatisfiable epType = true) ↔
      c.refusedRightly epType = true ∨ (c.asksTooMuch = true ∧ c.refusedWrongly = true) ∨
        (c.asksTooMuch = false ∧ c.rx.opFlags = c.tx.opFlags ∧
          (c.domain.caps = 0 ∨ c.domain.caps = sstmacDomCaps)) := by
  have hcode : sstmacEpGetinfo epType version (some h) = .error (.ret (-fiEnodata)) ↔
      (c.refusedRightly epType || c.refusedWrongly) = true := by
    rw [epGetinfo_complete c, refused_eq]
    cases c.refusedRightly epType || c.refusedWrongly <;> simp
  rw [hcode, Complete.unsatisfiable]
  cases hasks : c.asksTooMuch with
  | true => cases c.refusedRightly epType <;> cases c.refusedWrongly <;> simp
  | false =>
      rw [← refusedWrongly_eq_false_iff hasks]
      cases c.refusedRightly epType <;> cases c.refusedWrongly <;> simp

/-- Hints for which nothing is asked but some capabilities of the transmit side, operation flags of the
receive side, and capabilities of the domain. -/
def askingHints (txCaps rxOpFlags domainCaps : BitVec 64) : Hints where
  addrFormat := fiAddrStr
  txAttr := some { caps := txCaps }
  rxAttr := some { opFlags := rxOpFlags }
  epAttr := some {}
  domainAttr := some { caps := domainCaps }

def askingComplete (txCaps rxOpFlags domainCaps : BitVec 64) :
    Complete (askingHints txCaps rxOpFlags domainCaps) :=
  ⟨_, _, _, _, rfl, rfl, rfl, rfl⟩

/-- Multicast on the transmit side is accepted, though the provider does not have it; multi-receive
buffers on the receive side, and local communication alone in the domain, are refused, though the
provider has both. -/
theorem getinfo_misjudges :
    ((askingComplete fiMulticast 0 0).unsatisfiable .rdm = true ∧
      sstmacEpGetinfo .rdm (fiVersion 1 9) (some (askingHints fiMulticast 0 0)) ≠
        .error (.ret (-fiEnodata))) ∧
    ((askingComplete 0 fiMultiRecv 0).unsatisfiable .rdm = false ∧
      sstmacEpGetinfo .rdm (fiVersion 1 9) (some (askingHints 0 fiMultiRecv 0)) =
        .error (.ret (-fiEnodata))) ∧
    ((askingComplete 0 0 fiLocalComm).unsatisfiable .rdm = false ∧
      sstmacEpGetinfo .rdm (fiVersion 1 9) (some (askingHints 0 0 fiLocalComm)) =
        .error (.ret (-fiEnodata))) := by
  simp only [ne_eq, epGetinfo_error_iff]
  decide

end SstTransports.Fabric
