/-
# SstTransports.Fabric.Scans — what the two tagged scans look at.

`matchTaggedRecv` scans the posted tagged receives for one that takes the message, `postRecv` the
unexpected tagged messages for one that the receive takes.  Both loops are to look at the elements in
order until the first match or the end of the list.

Both are instances of `Lib.strideLoop`, which records the positions it dereferences.
`tagged_scans_in_order_iff` says when a scan does what it is to do: on an empty list, and when the very
first element matches.  In every other case it leaves out the second element or, if there is none,
advances an iterator that is already at the end.
-/
import SstTransports.Fabric.Steps

namespace SstTransports.Fabric

open SstTransports.Lib

/-! ## §1 — the loops -/

/-- The loop of `matchTaggedRecv`, with the positions at which it dereferences `tmp`. -/
def State.taggedRecvsLoop (s : State) (msg : FabricMessage) : Scanned Fault (Pending TaggedRecv) :=
  strideLoop .iteratorPastEnd (fun r => s.testTag msg r.node.tag r.node.tagIgnore) 0 s.taggedRecvs

/-- The loop of `postRecv`, with the positions at which it dereferences `tmp`. -/
def State.unexpTaggedRecvsLoop (s : State) (tag ignore : BitVec 64) : Scanned Fault FabricMessage :=
  strideLoop .iteratorPastEnd (fun msg => s.testTag msg tag ignore) 0 s.unexpTaggedRecvs

theorem scanned_outcome {α : Type} {test : α → Except Fault Bool} {l : List α} :
    (strideLoop .iteratorPastEnd test 0 l).outcome = strideScan .iteratorPastEnd test l := by
  rw [strideLoop_outcome]
  cases strideScan .iteratorPastEnd test l with
  | error e => rfl
  | ok found => cases found <;> rfl

/-- The loops end as the scans of the receive queue do. -/
theorem taggedRecvsLoop_outcome (s : State) (msg : FabricMessage) :
    (s.taggedRecvsLoop msg).outcome = s.scanTaggedRecvs msg :=
  scanned_outcome

theorem unexpTaggedRecvsLoop_outcome (s : State) (tag ignore : BitVec 64) :
    (s.unexpTaggedRecvsLoop tag ignore).outcome = s.scanUnexpTaggedRecvs tag ignore :=
  scanned_outcome

/-! ## §2 — scanning in order -/

/-- The scan for `msg` returns, having looked at every receive up to the first that accepts it, or at
all of them. -/
structure State.ScansTaggedRecvs (s : State) (msg : FabricMessage) : Prop where
  returns : ∃ found, (s.taggedRecvsLoop msg).outcome = .ok found
  examined : (s.taggedRecvsLoop msg).examined =
    positionsInOrder (fun r => r.accepts msg) s.taggedRecvs

/-- The scan for a tag returns, having looked at every message up to the first that matches, or at
all of them. -/
structure State.ScansUnexpTaggedRecvs (s : State) (tag ignore : BitVec 64) : Prop where
  returns : ∃ found, (s.unexpTaggedRecvsLoop tag ignore).outcome = .ok found
  examined : (s.unexpTaggedRecvsLoop tag ignore).examined =
    positionsInOrder (fun m => matchesTag m tag ignore) s.unexpTaggedRecvs

theorem scan_inOrder_iff {α : Type} {test : α → Except Fault Bool} {p : α → Bool}
    (hp : ∀ x b, test x = .ok b → b = p x) (l : List α) :
    ((∃ found, (strideLoop .iteratorPastEnd test 0 l).outcome = .ok found) ∧
        (strideLoop .iteratorPastEnd test 0 l).examined = positionsInOrder p l) ↔
      ∀ x ∈ l.head?, test x = .ok true := by
  rw [scanned_outcome]
  exact strideLoop_inOrder_iff hp l

theorem scansTaggedRecvs_iff (s : State) (msg : FabricMessage) :
    s.ScansTaggedRecvs msg ↔
      ∀ r ∈ s.taggedRecvs.head?, msg ∉ s.deleted ∧ r.accepts msg = true := by
  have hpure : ∀ (r : Pending TaggedRecv) (b : Bool),
      s.testTag msg r.node.tag r.node.tagIgnore = .ok b → b = r.accepts msg := by
    intro r b h
    exact (testTag_eq_ok.mp h).2.symm
  have hiff := scan_inOrder_iff hpure s.taggedRecvs
  simp only [testTag_eq_ok] at hiff
  constructor
  · rintro ⟨hreturns, hexamined⟩
    exact hiff.mp ⟨hreturns, hexamined⟩
  · intro h
    obtain ⟨hreturns, hexamined⟩ := hiff.mpr h
    exact ⟨hreturns, hexamined⟩

theorem scansUnexpTaggedRecvs_iff (s : State) (tag ignore : BitVec 64) :
    s.ScansUnexpTaggedRecvs tag ignore ↔
      ∀ m ∈ s.unexpTaggedRecvs.head?, m ∉ s.deleted ∧ matchesTag m tag ignore = true := by
  have hpure : ∀ (m : FabricMessage) (b : Bool),
      s.testTag m tag ignore = .ok b → b = matchesTag m tag ignore := by
    intro m b h
    exact (testTag_eq_ok.mp h).2.symm
  have hiff := scan_inOrder_iff hpure s.unexpTaggedRecvs
  simp only [testTag_eq_ok] at hiff
  constructor
  · rintro ⟨hreturns, hexamined⟩
    exact hiff.mp ⟨hreturns, hexamined⟩
  · intro h
    obtain ⟨hreturns, hexamined⟩ := hiff.mpr h
    exact ⟨hreturns, hexamined⟩

/-- **When the tagged scans are in order.** Whatever the lists hold, the scan for a message returns
and skips no receive before the first match if and only if there is no receive or the first one
accepts the message; and the scan for a tag returns and skips no message before the first match if
and only if there is no message or the first one, which must not have been deleted, matches. -/
theorem tagged_scans_in_order_iff (s : State) :
    (∀ msg, s.ScansTaggedRecvs msg ↔
      ∀ r ∈ s.taggedRecvs.head?, msg ∉ s.deleted ∧ r.accepts msg = true) ∧
    (∀ tag ignore, s.ScansUnexpTaggedRecvs tag ignore ↔
      ∀ m ∈ s.unexpTaggedRecvs.head?, m ∉ s.deleted ∧ matchesTag m tag ignore = true) :=
  ⟨scansTaggedRecvs_iff s, scansUnexpTaggedRecvs_iff s⟩

/-- One receive and one message, of other tags than are looked for. -/
def oneOfEach : State :=
  { taggedRecvs := [(sampleTaggedPost 16 7).taggedRecv 0]
    unexpTaggedRecvs := [sampleTaggedSend 0 7] }

/-- Two receives and two messages, the second ones of the tag that is looked for. -/
def twoOfEach : State :=
  { taggedRecvs := [(sampleTaggedPost 16 7).taggedRecv 0, (sampleTaggedPost 16 5).taggedRecv 1]
    unexpTaggedRecvs := [sampleTaggedSend 0 7, sampleTaggedSend 1 5] }

/-- On lists of odd length without a match both loops advance past the end; on lists of even length
both return without having looked at the second element, which matches. -/
theorem tagged_scans_fail :
    (¬ oneOfEach.ScansTaggedRecvs (sampleTaggedSend 2 5) ∧
      oneOfEach.scanTaggedRecvs (sampleTaggedSend 2 5) = .error .iteratorPastEnd) ∧
    (¬ oneOfEach.ScansUnexpTaggedRecvs 5 0 ∧
      oneOfEach.scanUnexpTaggedRecvs 5 0 = .error .iteratorPastEnd) ∧
    (¬ twoOfEach.ScansTaggedRecvs (sampleTaggedSend 2 5) ∧
      twoOfEach.scanTaggedRecvs (sampleTaggedSend 2 5) = .ok none) ∧
    (¬ twoOfEach.ScansUnexpTaggedRecvs 5 0 ∧ twoOfEach.scanUnexpTaggedRecvs 5 0 = .ok none) := by
  simp only [scansTaggedRecvs_iff, scansUnexpTaggedRecvs_iff]
  decide

end SstTransports.Fabric
