/-
# SstTransports.Fabric.Guards — objects that are released when a call fails.

`sstmac_ep_getinfo` and `sstmac_eq_open` each put the object they allocate under an `ErrorDeallocate`,
whose destructor releases it on whatever path the function is left, unless `success` was called.
`sstmac_ep_getinfo` calls it right before it returns `FI_SUCCESS`, and there is no other way to that
code.  `sstmac_eq_open` does not call it at all: the event queue it returns, and has put into a wait
set, is freed.

`guards_exact_iff`: the guard of the first is always exact, that of the second exactly where the call
is refused.
-/
import SstTransports.Fabric.Opened
import SstTransports.Fabric.Verdict

namespace SstTransports.Fabric

/-! ## §1 — the guard -/

/-- `ErrorDeallocate`; an index stands for the pointer. -/
structure ErrorDeallocate where
  ptr : Option Nat
  deriving DecidableEq, Repr

namespace ErrorDeallocate

def success (_err : ErrorDeallocate) : ErrorDeallocate := ⟨none⟩

/-- `~ErrorDeallocate`: the object is added to those that are freed. -/
def destroy (err : ErrorDeallocate) (freed : List Nat) : List Nat :=
  match err.ptr with
  | some ptr => ptr :: freed
  | none => freed

end ErrorDeallocate

/-- The exits of `sstmac_eq_open` destroy its guard as it was made. -/
theorem errorDeallocateEq_freedEqs (p : Provider) (eq : FidEq) :
    (errorDeallocateEq p eq).freedEqs = ErrorDeallocate.destroy ⟨some p.eqs.length⟩ p.freedEqs := rfl

/-- The `fi_info` objects that were allocated, and those that `fi_freeinfo` was called for. -/
structure InfoHeap where
  infos : List FiInfo := []
  freed : List Nat := []
  deriving DecidableEq, Repr

/-- The function is left with the object as it is, and the guard is destroyed. -/
def InfoHeap.leave (heap : InfoHeap) (info : FiInfo) (err : ErrorDeallocate) : InfoHeap :=
  { infos := heap.infos ++ [info], freed := err.destroy heap.freed }

/-- `sstmac_ep_getinfo` with its guard: the code, `*info_ptr` and the objects.  The `next` of the
object is null, so it is the only one that `fi_freeinfo` frees. -/
def sstmacEpGetinfoGuarded (heap : InfoHeap) (epType : EpType) (version : BitVec 32)
    (hints : Option Hints) : Except Fault (Int × Option Nat × InfoHeap) :=
  let info := heap.infos.length
  let err : ErrorDeallocate := ⟨some info⟩
  match sstmacEpGetinfo epType version hints with
  | .error (.fault f) => .error f
  | .error (.ret code) => .ok (code, none, heap.leave sstmacAllocinfo err)
  | .ok entry => .ok (0, some info, heap.leave entry err.success)

/-! ## §2 — the promise -/

/-- A call that has returned: its code, its output pointer, how many objects there were before and
are after it, and which of them were freed.  No index is used twice. -/
structure GuardedCall where
  ret : Int
  out : Option Nat
  before : Nat
  after : Nat
  freedBefore : List Nat
  freedAfter : List Nat
  deriving DecidableEq, Repr

/-- The objects the call has allocated. -/
def GuardedCall.allocated (c : GuardedCall) : List Nat := List.range' c.before (c.after - c.before)

/-- With an error, what the call has allocated is freed, once, and the output pointer does not refer
to it.  With `FI_SUCCESS` it is what the output pointer refers to, and nothing is freed. -/
structure ReleasedOnError (c : GuardedCall) : Prop where
  error : c.ret ≠ 0 → c.freedAfter = c.allocated ++ c.freedBefore ∧ c.out = none
  success : c.ret = 0 → c.freedAfter = c.freedBefore ∧ c.out.isSome = true ∧ c.allocated = c.out.toList

def InfoGuardExact (heap : InfoHeap) (epType : EpType) (version : BitVec 32) (hints : Option Hints) :
    Prop :=
  ∀ ret out heap', sstmacEpGetinfoGuarded heap epType version hints = .ok (ret, out, heap') →
    ReleasedOnError ⟨ret, out, heap.infos.length, heap'.infos.length, heap.freed, heap'.freed⟩

/-- Besides, an event queue listens to a wait set that did not before only if it is returned: with an
error none does. -/
def EqGuardExact (p : Provider) (fabric : Option Nat) (attr : Option WaitAttr) : Prop :=
  ∀ ret out p', sstmacEqOpen p fabric attr = .ok (ret, out, p') →
    ReleasedOnError ⟨ret, out, p.eqs.length, p'.eqs.length, p.freedEqs, p'.freedEqs⟩ ∧
      ∀ w ∈ p'.waitSets, ∀ i, Fid.eq i ∈ w.listeners →
        out = some i ∨ ∃ v ∈ p.waitSets, Fid.eq i ∈ v.listeners

/-- The calls that `sstmac_eq_open` refuses: without a fabric or attributes, with `FI_WAIT_SET` and no
wait set, or with a wait object it does not support. -/
def eqOpenRefuses : Option Nat → Option WaitAttr → Bool
  | none, _ => true
  | some _, none => true
  | some _, some attr =>
    match attr.waitObj with
    | .none | .unspec => false
    | .set => attr.waitSet.isNone
    | .fd | .mutexCond | .yield => true

/-- `attr->wait_set`, where it is used, is null or points to a wait set. -/
def WaitSetValid (p : Provider) (attr : Option WaitAttr) : Prop :=
  ∀ a ∈ attr, a.waitObj = .set → a.waitSet.all (· < p.waitSets.length) = true

/-! ## §3 — `sstmac_ep_getinfo` -/

/-- The only code with which a computation leaves the function is `-FI_ENODATA`. -/
def OnlyEnodata (e : Option Exit) : Prop := ∀ code, e = some (.ret code) → code = -fiEnodata

theorem onlyEnodata_none : OnlyEnodata none := by
  intro code h
  cases h

theorem onlyEnodata_fault (f : Fault) : OnlyEnodata (some (.fault f)) := by
  intro code h
  cases h

theorem onlyEnodata_refusal (cond : Bool) : OnlyEnodata (refusal cond) := by
  intro code h
  unfold refusal at h
  split at h <;> cases h
  rfl

theorem OnlyEnodata.or {e e' : Option Exit} (h : OnlyEnodata e) (h' : OnlyEnodata e') :
    OnlyEnodata (e.or e') := by
  cases e with
  | none => exact h'
  | some x => exact h

theorem onlyEnodata_txExit (h : Hints) : OnlyEnodata h.txExit := by
  unfold Hints.txExit
  split
  · exact onlyEnodata_none
  · refine (onlyEnodata_refusal _).or ?_
    split
    · split
      · exact onlyEnodata_fault _
      · exact onlyEnodata_refusal _
    · exact onlyEnodata_none

theorem onlyEnodata_rxExit (h : Hints) : OnlyEnodata h.rxExit := by
  unfold Hints.rxExit
  split
  · exact onlyEnodata_none
  · split
    · exact onlyEnodata_fault _
    · exact onlyEnodata_refusal _

/-- Every early return of `sstmac_ep_getinfo` returns `-FI_ENODATA`. -/
theorem epGetinfo_ret {epType : EpType} {version : BitVec 32} {hints : Option Hints} {code : Int}
    (h : sstmacEpGetinfo epType version hints = .error (.ret code)) : code = -fiEnodata := by
  cases hints with
  | none => cases h
  | some hints =>
      have hverdict : OnlyEnodata (hints.verdict epType) :=
        (onlyEnodata_refusal _).or ((onlyEnodata_txExit hints).or
          ((onlyEnodata_rxExit hints).or (onlyEnodata_refusal _)))
      exact hverdict code (epGetinfo_error_iff.mp h)

theorem infoGuardExact (heap : InfoHeap) (epType : EpType) (version : BitVec 32)
    (hints : Option Hints) : InfoGuardExact heap epType version hints := by
  intro ret out heap' hcall
  unfold sstmacEpGetinfoGuarded at hcall
  cases hget : sstmacEpGetinfo epType version hints with
  | ok entry =>
      rw [hget] at hcall
      cases hcall
      refine ⟨fun herr => absurd rfl herr, fun _ => ⟨rfl, rfl, ?_⟩⟩
      simp [GuardedCall.allocated, InfoHeap.leave]
  | error e =>
      cases e with
      | fault f =>
          rw [hget] at hcall
          cases hcall
      | ret code =>
          have hcode : code ≠ 0 := by
            rw [epGetinfo_ret hget]
            decide
          rw [hget] at hcall
          cases hcall
          refine ⟨fun _ => ⟨?_, rfl⟩, fun hzero => absurd hzero hcode⟩
          simp [GuardedCall.allocated, InfoHeap.leave, ErrorDeallocate.destroy]

/-! ## §4 — `sstmac_eq_open` -/

variable {p : Provider} {fabric : Option Nat} {attr : Option WaitAttr}

/-- A refused call returns an error; it has allocated nothing, or has freed what it has. -/
theorem sstmacEqOpen_refused (h : eqOpenRefuses fabric attr = true) :
    ∃ code p', sstmacEqOpen p fabric attr = .ok (code, none, p') ∧ code ≠ 0 ∧
      (p' = p ∨ p' = errorDeallocateEq p {}) := by
  cases fabric with
  | none => exact ⟨_, _, rfl, by decide, Or.inl rfl⟩
  | some fabric =>
      cases attr with
      | none => exact ⟨_, _, rfl, by decide, Or.inr rfl⟩
      | some attr =>
          have hwait := defaultSize_wait attr
          simp only [sstmacEqOpen]
          generalize
            (if attr.size = 0 then { attr with size := gnixEqDefaultSize } else attr) = a at hwait ⊢
          simp only [eqOpenRefuses, ← hwait.1, ← hwait.2] at h
          cases hobj : a.waitObj with
          | none | unspec =>
              rw [hobj] at h
              cases h
          | set =>
              rw [hobj] at h
              simp only [h, if_true]
              exact ⟨_, _, rfl, by decide, Or.inr rfl⟩
          | fd | mutexCond | yield => exact ⟨_, _, rfl, by decide, Or.inr rfl⟩

/-- Any other call succeeds, and the guard is destroyed as it was made. -/
theorem sstmacEqOpen_accepted (hvalid : WaitSetValid p attr)
    (h : eqOpenRefuses fabric attr = false) :
    ∃ p', sstmacEqOpen p fabric attr = .ok (0, some p.eqs.length, p') ∧
      p'.freedEqs = ErrorDeallocate.destroy ⟨some p.eqs.length⟩ p.freedEqs := by
  cases fabric with
  | none => cases h
  | some fabric =>
      cases attr with
      | none => cases h
      | some attr =>
          have hobj : attr.waitObj ∈ [WaitObj.none, .unspec, .set] := by
            cases hobj : attr.waitObj with
            | none | unspec | set => simp
            | fd | mutexCond | yield => simp [eqOpenRefuses, hobj] at h
          have hset : attr.waitObj = .set → attr.waitSet.any (· < p.waitSets.length) = true := by
            intro hwait
            have hall := hvalid attr rfl hwait
            cases hsome : attr.waitSet with
            | none => simp [eqOpenRefuses, hwait, hsome] at h
            | some w =>
                rw [hsome] at hall
                exact hall
          obtain ⟨sets, eq, hopen⟩ := sstmacEqOpen_valid fabric hobj hset
          exact ⟨_, hopen, errorDeallocateEq_freedEqs _ eq⟩

theorem eqGuardExact_of_refused (h : eqOpenRefuses fabric attr = true) :
    EqGuardExact p fabric attr := by
  obtain ⟨code, p₁, hopen, hcode, hp₁⟩ := sstmacEqOpen_refused (p := p) h
  have hsets : p₁.waitSets = p.waitSets := by
    rcases hp₁ with rfl | rfl <;> rfl
  have hfreed : p₁.freedEqs =
      List.range' p.eqs.length (p₁.eqs.length - p.eqs.length) ++ p.freedEqs := by
    rcases hp₁ with rfl | rfl
    · simp
    · simp [errorDeallocateEq]
  intro ret out p' hcall
  rw [hopen] at hcall
  cases hcall
  refine ⟨⟨fun _ => ⟨hfreed, rfl⟩, fun hzero => absurd hzero hcode⟩, ?_⟩
  intro w hw i hi
  rw [hsets] at hw
  exact Or.inr ⟨w, hw, hi⟩

theorem not_eqGuardExact_of_accepted (hvalid : WaitSetValid p attr)
    (h : eqOpenRefuses fabric attr = false) : ¬ EqGuardExact p fabric attr := by
  obtain ⟨p', hopen, hfreed⟩ := sstmacEqOpen_accepted hvalid h
  intro hexact
  have hsame : p'.freedEqs = p.freedEqs := ((hexact _ _ _ hopen).1.success rfl).1
  rw [hfreed] at hsame
  exact List.cons_ne_self _ _ hsame

/-- **When the guards release just on errors.** On every path through `sstmac_ep_getinfo` the object
is freed once if the call returns an error, and live in the output pointer if it returns `FI_SUCCESS`.
For `sstmac_eq_open` that is so exactly if the call is refused: an event queue that is opened is freed
before the caller has it. -/
theorem guards_exact_iff (heap : InfoHeap) (epType : EpType) (version : BitVec 32)
    (hints : Option Hints) (p : Provider) (fabric : Option Nat) (attr : Option WaitAttr)
    (hvalid : WaitSetValid p attr) :
    InfoGuardExact heap epType version hints ∧
      (EqGuardExact p fabric attr ↔ eqOpenRefuses fabric attr = true) := by
  refine ⟨infoGuardExact heap epType version hints, ?_, eqGuardExact_of_refused⟩
  intro hexact
  by_contra hrefused
  exact not_eqGuardExact_of_accepted hvalid (Bool.not_eq_true _ ▸ hrefused) hexact

theorem guards_exact_iff_wait_fd :
    InfoGuardExact {} .rdm 0 none ∧ EqGuardExact {} (some 0) (some { waitObj := .fd }) := by
  have hvalid : WaitSetValid {} (some { waitObj := .fd }) := by
    rintro a ⟨⟩ hset
    cases hset
  obtain ⟨hinfo, heq⟩ := guards_exact_iff {} .rdm 0 none {} (some 0) _ hvalid
  exact ⟨hinfo, heq.mpr rfl⟩

/-- An event queue that needs no wait object: the call returns `FI_SUCCESS` and a pointer to an object
that is freed. -/
theorem opened_eq_is_freed :
    WaitSetValid {} (some { waitObj := .none }) ∧
      ¬ EqGuardExact {} (some 0) (some { waitObj := .none }) ∧
      (sstmacEqOpen {} (some 0) (some { waitObj := .none })).map
        (fun r => (r.1, r.2.1, r.2.2.freedEqs)) = .ok (0, some 0, [0]) := by
  have hvalid : WaitSetValid {} (some { waitObj := .none }) := by
    rintro a ⟨⟩ hset
    cases hset
  exact ⟨hvalid, not_eqGuardExact_of_accepted hvalid rfl, rfl⟩

end SstTransports.Fabric
