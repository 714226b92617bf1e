/-
# SstTransports.Util.Join — the ids of the groups.

A group gets its id when its members join it.  Every endpoint has a mask of the ids that it has not
given away; a join is an allreduce of these masks over the members, and its completion function takes
the lowest id that they have in common and strikes it out of the endpoint's own mask.

Many joins may be under way at once, and what an endpoint sends is its mask at the time of its call.
`JoinSys` is the system of all of them: the networks of the joins, the masks, and the ids the members
have got.  `JoinSys.Inv` says what an id means there, and from it follow that the members of a join
agree (`join_agreement`), that an endpoint which never has two joins under way at once does not give an
id twice (`join_ids_distinct`), and how many joins there may be before the masks are empty
(`join_in_bounds`).
-/
import SstTransports.Util.Barrier
import SstTransports.Util.Bitmask

namespace SstTransports.Util

open SstTransports.Lib

/-! ## §1 — what an event leaves alone -/

section Frames

variable {β V : Type} [DecidableEq β] {handlers : Handlers V} {g g' : Group β V} {net net' : Net β V}
  {ev : NetEvent V} {r : Nat}

omit [DecidableEq β] in
@[simp]
theorem CollEp.comps_progressWork (ep : CollEp β V) : ep.progressWork.comps = ep.comps := rfl

omit [DecidableEq β] in
@[simp]
theorem CollEp.comps_complete (ep : CollEp β V) (i : Nat) : (ep.complete i).comps = ep.comps := rfl

theorem CollEp.comps_xferComp {ep ep' : CollEp β V} {i : Nat} {data : List V}
    (h : ep.ofiCollHandleXferComp i data = .ok ep') : ep'.comps = ep.comps := by
  unfold ofiCollHandleXferComp at h
  split at h
  · split at h
    · cases h
    · split at h <;> cases h <;> rfl
  · cases h

theorem CollEp.comps_progress {ep : CollEp β V} {ret : XferRet} {x : CollEp β V × Option (Message V)}
    (h : ep.ofiCollEpProgress handlers ret = .ok x) : ep.comps ≤ x.1.comps := by
  unfold ofiCollEpProgress at h
  split at h
  · cases h
  · split at h
    · cases h
    · split at h
      · split at h <;> cases h <;> simp
      · split at h <;> cases h <;> simp
      · split at h <;> cases h <;> simp
      · cases h
        simp
      · cases h
        simp

/-- How often a member's completion function has been called. -/
def Net.comps (net : Net β V) (r : Nat) : Nat := ((net.ep r).map (·.comps)).getD 0

/-- The member whose endpoint an event is about. -/
def NetEvent.member : NetEvent V → Option Nat
  | .call r | .progress r _ | .sent r _ | .received r _ => some r
  | .other _ _ _ _ => none

/-- What an event does to the endpoints. -/
theorem Net.step_cases (h : Net.step handlers g net ev = .ok net') :
    (net'.ep = net.ep ∧ ev.member = none) ∨
      ∃ r ep', net'.ep = Function.update net.ep r (some ep') ∧ ev.member = some r ∧
        ((ev = .call r ∧ net.ep r = none ∧ r < g.size ∧ ep'.comps = 0) ∨
          ∃ ep, net.ep r = some ep ∧ ep.comps ≤ ep'.comps ∧
            (ep'.comps = ep.comps ∨ ∃ ret, ev = .progress r ret)) := by
  cases ev with
  | call r =>
      simp only [Net.step] at h
      split at h
      · cases h
      · rename_i hep
        split at h
        · rename_i hr
          cases h
          exact .inr ⟨r, _, rfl, rfl, .inl ⟨rfl, hep, hr, rfl⟩⟩
        · cases h
  | progress r ret =>
      simp only [Net.step] at h
      split at h
      · cases h
      · rename_i ep hep
        split at h
        · cases h
        · rename_i ep' m hp
          cases h
          refine .inr ⟨r, ep', ?_, rfl, .inr ⟨ep, hep, CollEp.comps_progress hp, .inr ⟨ret, rfl⟩⟩⟩
          rw [put_ep]
          rfl
  | sent r i =>
      simp only [Net.step] at h
      split at h
      · cases h
      · rename_i ep hep
        split at h
        · split at h
          · cases h
          · rename_i ep' hx
            cases h
            have hcomps := CollEp.comps_xferComp hx
            exact .inr ⟨r, ep', rfl, rfl, .inr ⟨ep, hep, by omega, .inl hcomps⟩⟩
        · cases h
  | received r i =>
      simp only [Net.step] at h
      split at h
      · cases h
      · rename_i ep hep
        split at h
        · split at h
          · split at h
            · cases h
            · split at h
              · cases h
              · rename_i ep' hx
                cases h
                have hcomps := CollEp.comps_xferComp hx
                exact .inr ⟨r, ep', rfl, rfl, .inr ⟨ep, hep, by omega, .inl hcomps⟩⟩
          · cases h
        · cases h
  | other s d t data =>
      simp only [Net.step] at h
      split at h
      · cases h
      · cases h
        exact .inl ⟨rfl, rfl⟩

theorem Net.step_call (h : Net.step handlers g net (.call r) = .ok net') :
    net.ep r = none ∧ net'.ep = Function.update net.ep r (some (.entered (g.schedule r) (g.mem r))) := by
  simp only [Net.step] at h
  split at h
  · cases h
  · rename_i hep
    split at h
    · cases h
      exact ⟨hep, rfl⟩
    · cases h

/-- A member that is new in the network has made its call. -/
theorem Net.eq_call_of_step (h : Net.step handlers g net ev = .ok net') (hold : net.ep r = none)
    (hnew : net'.ep r ≠ none) : ev = .call r := by
  obtain ⟨heq, _⟩ | ⟨q, ep', heq, _, hcase⟩ := Net.step_cases h
  · rw [heq] at hnew
    exact absurd hold hnew
  · by_cases hq : r = q
    · subst hq
      obtain ⟨hev, _⟩ | ⟨ep, hep, _⟩ := hcase
      · exact hev
      · rw [hold] at hep
        cases hep
    · rw [heq, Function.update_of_ne hq] at hnew
      exact absurd hold hnew

theorem Net.step_called (h : Net.step handlers g net ev = .ok net') (hr : net.ep r ≠ none) :
    net'.ep r ≠ none := by
  obtain ⟨heq, _⟩ | ⟨q, ep', heq, _⟩ := Net.step_cases h
  · rw [heq]
    exact hr
  · rw [heq]
    by_cases hq : r = q
    · subst hq
      simp
    · simpa [hq] using hr

/-- The completion functions of the others have not been called. -/
theorem Net.step_comps (h : Net.step handlers g net ev = .ok net') (hev : ∀ ret, ev ≠ .progress r ret) :
    net'.comps r = net.comps r := by
  unfold comps
  obtain ⟨heq, _⟩ | ⟨q, ep', heq, _, hcase⟩ := Net.step_cases h
  · rw [heq]
  · rw [heq]
    by_cases hq : r = q
    · subst hq
      obtain ⟨_, hnone, _, hzero⟩ | ⟨ep, hep, _, hcomps | ⟨ret, hret⟩⟩ := hcase
      · simp [hnone, hzero]
      · simp [hep, hcomps]
      · exact absurd hret (hev ret)
    · simp [hq]

theorem Net.comps_le (h : Net.step handlers g net ev = .ok net') (r : Nat) :
    net.comps r ≤ net'.comps r := by
  unfold comps
  obtain ⟨heq, _⟩ | ⟨q, ep', heq, _, hcase⟩ := Net.step_cases h
  · rw [heq]
  · rw [heq]
    by_cases hq : r = q
    · subst hq
      obtain ⟨_, hnone, _⟩ | ⟨ep, hep, hle, _⟩ := hcase
      · simp [hnone]
      · simpa [hep] using hle
    · simp [hq]

/-- Only a call reads the buffers of the group, those of its member. -/
theorem Net.step_congr (hsize : g'.size = g.size) (htag : g'.tag = g.tag)
    (hsched : g'.schedule = g.schedule) (hmem : ∀ r, ev = .call r → g'.mem r = g.mem r) :
    Net.step handlers g' net ev = Net.step handlers g net ev := by
  cases ev with
  | call r => simp only [Net.step, hsize, hsched, hmem r rfl]
  | progress r ret => rfl
  | sent r i => rfl
  | received r i => rfl
  | other s d t data => simp only [Net.step, htag]

/-- A run does not depend on the buffers of the members that have not made their call. -/
theorem Net.run_congr (g' : Group β V) {evs : List (NetEvent V)} (hsize : g'.size = g.size) (htag : g'.tag = g.tag)
    (hsched : g'.schedule = g.schedule)
    (hacc : StepsMeet (Net.step handlers g) Accepts {} evs)
    (hrun : run (Net.step handlers g) {} evs = .ok net)
    (hmem : ∀ r, net.ep r ≠ none → g'.mem r = g.mem r) :
    StepsMeet (Net.step handlers g') Accepts {} evs ∧ run (Net.step handlers g') {} evs = .ok net := by
  induction evs using List.reverseRecOn generalizing net with
  | nil => exact ⟨trivial, hrun⟩
  | append_singleton evs ev ih =>
      obtain ⟨mid, hmid, hstep⟩ := run_snoc_ok.mp hrun
      obtain ⟨hacc₁, hacc₂⟩ := (stepsMeet_snoc_of_run hmid).mp hacc
      obtain ⟨hacc', hrun'⟩ := ih hacc₁ hmid fun r hr => hmem r (Net.step_called hstep hr)
      have hcall : ∀ r, ev = .call r → g'.mem r = g.mem r := by
        rintro r rfl
        refine hmem r ?_
        simp [(Net.step_call hstep).2]
      rw [← Net.step_congr hsize htag hsched hcall] at hstep
      exact ⟨(stepsMeet_snoc_of_run hrun').mpr ⟨hacc', hacc₂⟩, run_snoc_ok.mpr ⟨mid, hrun', hstep⟩⟩

end Frames

/-! ## §2 — one join -/

/-- The allreduce of `ofi_join_collective`: the bytes of the masks with `FI_BAND`.  All masks have the
same `ofi_bitmask_bytesize` (`CidMask.bytesize`). -/
def joinOf (size cid : Nat) (masks : Nat → CidMask) : Allreduce (BitVec 8) where
  size := size
  cid := cid
  count := 32
  op := .band
  data := fun r => (masks r).mask.bytes

theorem joinOf_valid {size cid : Nat} {masks : Nat → CidMask} (hpos : size ≠ 0)
    (hbound : size < 2 ^ 31) : (joinOf size cid masks).Valid :=
  ⟨hpos, hbound, by show 32 < 2 ^ 31; decide, fun r _ => (masks r).length⟩

/-- The lowest id that is free at all members, or the number of ids if there is none. -/
structure Chosen (size : Nat) (masks : Nat → CidMask) (i : Nat) : Prop where
  le : i ≤ ofiMaxGroupId
  lowest : ∀ j < i, ∃ q < size, (masks q).bit j = false
  free : i < ofiMaxGroupId → ∀ q < size, (masks q).bit i = true

theorem Chosen.unique {size : Nat} {masks : Nat → CidMask} {i j : Nat} (hi : Chosen size masks i)
    (hj : Chosen size masks j) : i = j := by
  have hlt : ∀ {a b}, Chosen size masks a → Chosen size masks b → ¬ a < b := by
    intro a b ha hb hab
    obtain ⟨q, hq, hbit⟩ := hb.lowest a hab
    have := ha.free (Nat.lt_of_lt_of_le hab hb.le) q hq
    rw [hbit] at this
    cases this
  have := hlt hi hj
  have := hlt hj hi
  omega

/-- `ofi_bitmask_get_lsbset` on the buffer of a join. -/
def groupIdOf (bytes : List (BitVec 8)) : Nat := Bitmask.ofiBitmaskGetLsbset ⟨ofiMaxGroupId, bytes⟩

theorem groupIdOf_eq {bs : List (BitVec 8)} (h : bs.length = 32) :
    groupIdOf bs = Bitmask.lsbsetBytes bs 0 := by
  unfold groupIdOf Bitmask.ofiBitmaskGetLsbset
  rw [List.take_of_length_le]
  simp only [h]
  decide

theorem chosen_groupIdOf {size cid : Nat} {masks : Nat → CidMask} (hpos : size ≠ 0)
    (hbound : size < 2 ^ 31) :
    Chosen size masks (groupIdOf ((joinOf size cid masks).total (· &&& ·))) := by
  have hv : (joinOf size cid masks).Valid := joinOf_valid hpos hbound
  have : Std.Commutative (fun a b : BitVec 8 => a &&& b) := ⟨BitVec.and_comm⟩
  have : Std.Associative (fun a b : BitVec 8 => a &&& b) := ⟨BitVec.and_assoc⟩
  rw [Allreduce.total_eq_foldFrom hv]
  have hlen : ∀ q ≤ size - 1, ((joinOf size cid masks).data q).length = 32 := fun q _ => (masks q).length
  have hlength := Bitmask.length_foldFrom hlen
  have hcommon := Bitmask.bitOf_foldFrom hlen
  obtain ⟨i, hle, heq, hlow, hset⟩ := Bitmask.lsbsetBytes_spec
    (foldFrom (List.zipWith (· &&& ·)) (joinOf size cid masks).data 0 (size - 1)) 0
  rw [hlength] at hle hset
  have hi : groupIdOf (foldFrom (List.zipWith (· &&& ·)) (joinOf size cid masks).data 0 (size - 1)) = i :=
    (groupIdOf_eq hlength).trans (heq.trans (Nat.zero_add i))
  show Chosen size masks (groupIdOf (foldFrom _ _ 0 (size - 1)))
  rw [hi]
  refine ⟨hle, fun j hj => ?_, fun hi q hq => ?_⟩
  · by_contra hno
    have hall : ∀ q < size, (masks q).bit j = true := by
      intro q hq
      by_contra hbit
      exact hno ⟨q, hq, by simpa using hbit⟩
    have := (hcommon j).mpr fun q hq => hall q (by omega)
    rw [hlow j hj] at this
    cases this
  · exact (hcommon i).mp (hset hi) q (by omega)

/-- In every run of a join the buffer of a member whose completion function is called holds the id of
the group, and all members have sent their masks. -/
theorem chosen_of_comps {size cid : Nat} {masks : Nat → CidMask} {mem : Nat → Mem AllreduceBuf (BitVec 8)}
    {evs : List (NetEvent (BitVec 8))} {net : Net AllreduceBuf (BitVec 8)} (hpos : size ≠ 0)
    (hbound : size < 2 ^ 31)
    (hacc : StepsMeet (Net.step (ofiAtomicWriteHandlers false) ((joinOf size cid masks).group mem)) Accepts
      {} evs)
    (hrun : run (Net.step (ofiAtomicWriteHandlers false) ((joinOf size cid masks).group mem)) {} evs =
      .ok net) {r : Nat} {ep : CollEp AllreduceBuf (BitVec 8)} (hep : net.ep r = some ep)
    (hc : ep.comps ≠ 0) :
    ep.comps = 1 ∧ Chosen size masks (groupIdOf (ep.mem.read resultPtr 32)) ∧
      ∀ q < size, net.ep q ≠ none := by
  have hv : (joinOf size cid masks).Valid := joinOf_valid hpos hbound
  obtain ⟨hone, hread⟩ := Allreduce.result_eq_total hv rfl rfl hacc hrun hep hc
  refine ⟨hone, ?_, Allreduce.called_of_comps hv rfl rfl hacc hrun hep hc⟩
  rw [show ep.mem.read resultPtr 32 = _ from hread]
  exact chosen_groupIdOf hpos hbound

/-- `struct util_coll_mc`, as far as it numbers the operations of a group. -/
structure CollMc where
  groupId : BitVec 16
  seq : BitVec 16
  deriving DecidableEq, Repr

/-- `util_coll_get_next_id`. -/
def utilCollGetNextId (mc : CollMc) : BitVec 32 × CollMc :=
  (mc.groupId.setWidth 32 <<< 16 ||| mc.seq.setWidth 32, { mc with seq := mc.seq + 1 })

/-- The tag of a message shows the operation it belongs to. -/
theorem cid_of_tag {c c' q q' : Nat} (hc : c < 2 ^ 32) (hc' : c' < 2 ^ 32)
    (h : utilCollFormTag c q = utilCollFormTag c' q') : c = c' := by
  have hlow : ∀ {d : Nat}, d < 2 ^ 32 → ∀ x, utilCollFormTag d x % 2 ^ 32 = d := by
    intro d hd x
    have hrank : (x <<< 32) % 2 ^ 64 % 2 ^ 32 = 0 := by
      rw [Nat.mod_mod_of_dvd _ (by decide), Nat.shiftLeft_eq, Nat.mul_mod_left]
    have hflag : ofiCollTagFlag % 2 ^ 32 = 0 := by decide
    rw [utilCollFormTag, Nat.or_mod_two_pow, Nat.or_mod_two_pow, hflag, hrank, Nat.mod_eq_of_lt hd,
      Nat.or_zero, Nat.zero_or]
  rw [← hlow hc q, ← hlow hc' q', h]

/-- And the group. -/
theorem groupId_of_tag {mc mc' : CollMc} {q q' : Nat}
    (h : utilCollFormTag (utilCollGetNextId mc).1.toNat q = utilCollFormTag (utilCollGetNextId mc').1.toNat q') :
    mc.groupId = mc'.groupId := by
  have hid : (utilCollGetNextId mc).1 = (utilCollGetNextId mc').1 :=
    BitVec.eq_of_toNat_eq (cid_of_tag (BitVec.isLt _) (BitVec.isLt _) h)
  have hbits : ∀ (m : CollMc) (b : Nat), b < 16 →
      (utilCollGetNextId m).1.getLsbD (b + 16) = m.groupId.getLsbD b := by
    intro m b hb
    have hseq : (m.seq.setWidth 32).getLsbD (b + 16) = false := by
      rw [BitVec.getLsbD_setWidth, BitVec.getLsbD_of_ge _ _ (by omega), Bool.and_false]
    rw [utilCollGetNextId, BitVec.getLsbD_or, hseq, BitVec.getLsbD_shiftLeft,
      Nat.add_sub_cancel, BitVec.getLsbD_setWidth, decide_eq_true (show b + 16 < 32 by omega),
      decide_eq_true (show b < 32 by omega), decide_eq_false (show ¬ b + 16 < 16 by omega)]
    simp
  refine BitVec.eq_of_getLsbD_eq fun b hb => ?_
  rw [← hbits mc b hb, ← hbits mc' b hb, hid]

/-! ## §3 — many joins -/

/-- Some joins.  The local rank is the endpoint's place in the address vector, for whatever group, so
the members of a group are the first endpoints of it.  Their ids in the parent groups are different:
joins of parents that have the same group id may have one id, and then their messages mix. -/
structure Joins where
  count : Nat
  size : Nat → Nat
  cid : Nat → Nat
  pos : ∀ k, size k ≠ 0
  bound : ∀ k, size k < 2 ^ 31
  cid_lt : ∀ k < count, cid k < 2 ^ 32
  distinct : ∀ j < count, ∀ k < count, j ≠ k → cid j ≠ cid k

/-- The joins under way. -/
structure JoinSys where
  /-- `coll_cid_mask` of the endpoints -/
  mask : Nat → CidMask := fun _ => .init
  net : Nat → Net AllreduceBuf (BitVec 8) := fun _ => {}
  /-- the `group_id` that a join has given a member -/
  groupId : Nat → Nat → Option Nat := fun _ _ => none
  /-- the mask that a member has put into a join -/
  sent : Nat → Nat → CidMask := fun _ _ => .init

namespace JoinSys

/-- The members of a join with their masks; `calloc` makes the buffers. -/
def groupOf (J : Joins) (k : Nat) (masks : Nat → CidMask) : Group AllreduceBuf (BitVec 8) :=
  (joinOf (J.size k) (J.cid k) masks).group fun _ _ _ => 0

/-- What the different ids are for: in the network of a join, a message of another join is one of another
operation. -/
theorem step_foreign (J : Joins) {j k : Nat} (hj : j < J.count) (hk : k < J.count) (hne : j ≠ k)
    (masks : Nat → CidMask) (net : Net AllreduceBuf (BitVec 8)) (src dest : Nat)
    (data : List (BitVec 8)) :
    ∃ net', Net.step (ofiAtomicWriteHandlers false) (groupOf J k masks) net
      (.other src dest (utilCollFormTag (J.cid j) src) data) = .ok net' := by
  have htag : utilCollFormTag (J.cid j) src ≠ utilCollFormTag (J.cid k) src := by
    intro heq
    exact J.distinct j hj k hk hne (cid_of_tag (J.cid_lt j hj) (J.cid_lt k hk) heq)
  exact ⟨_, if_neg htag⟩

/-- The members of a join with the masks that they have put into it. -/
def group (J : Joins) (s : JoinSys) (k : Nat) : Group AllreduceBuf (BitVec 8) := groupOf J k (s.sent k)

/-- A call copies the endpoint's mask. -/
def snapshot (s : JoinSys) (k : Nat) : NetEvent (BitVec 8) → JoinSys
  | .call r => { s with sent := Function.update s.sent k (Function.update (s.sent k) r (s.mask r)) }
  | _ => s

/-- `util_coll_join_comp` at a member. -/
def utilCollJoinComp (s : JoinSys) (k r : Nat) (data : List (BitVec 8)) : Except Stop JoinSys :=
  let id := groupIdOf data
  match (s.mask r).unset id with
  | none => .error .fault
  | some mask =>
    .ok { s with mask := Function.update s.mask r mask
                 groupId := Function.update s.groupId k (Function.update (s.groupId k) r (some id)) }

/-- The completion function of a join, if the event has come to it. -/
def complete (s : JoinSys) (k : Nat) (before : Net AllreduceBuf (BitVec 8)) :
    NetEvent (BitVec 8) → Except Stop JoinSys
  | .progress r _ =>
    match (s.net k).ep r with
    | none => .ok s
    | some ep =>
      if ep.comps = before.comps r then .ok s else s.utilCollJoinComp k r (ep.mem.read resultPtr 32)
  | _ => .ok s

/-- An event of one of the joins. -/
def step (J : Joins) (s : JoinSys) : Nat × NetEvent (BitVec 8) → Except Stop JoinSys
  | (k, ev) =>
    if k < J.count then
      let s := s.snapshot k ev
      match Net.step (ofiAtomicWriteHandlers false) (s.group J k) (s.net k) ev with
      | .error e => .error e
      | .ok net => { s with net := Function.update s.net k net }.complete k (s.net k) ev
    else .error .notDue

/-- The provider takes the transfers. -/
def Accepts (s : JoinSys) (x : Nat × NetEvent (BitVec 8)) : Prop := Util.Accepts (s.net x.1) x.2

instance (s : JoinSys) (x : Nat × NetEvent (BitVec 8)) : Decidable (Accepts s x) :=
  inferInstanceAs (Decidable (Util.Accepts (s.net x.1) x.2))

/-- An endpoint does not start a join while it has another one under way. -/
def Alone (J : Joins) (s : JoinSys) : Nat × NetEvent (BitVec 8) → Prop
  | (_, .call r) => ∀ k < J.count, (s.net k).ep r ≠ none → s.groupId k r ≠ none
  | _ => True

instance (J : Joins) (s : JoinSys) : ∀ x, Decidable (Alone J s x)
  | (_, .call r) =>
    inferInstanceAs (Decidable (∀ k < J.count, (s.net k).ep r ≠ none → s.groupId k r ≠ none))
  | (_, .progress _ _) => .isTrue trivial
  | (_, .sent _ _) => .isTrue trivial
  | (_, .received _ _) => .isTrue trivial
  | (_, .other _ _ _ _) => .isTrue trivial

/-! ## §4 — the invariant -/

variable {J : Joins} {s s' : JoinSys} {k r i : Nat} {ev : NetEvent (BitVec 8)}

/-- The system after an event of the network of a join, before the completion function. -/
def moved (s : JoinSys) (k : Nat) (ev : NetEvent (BitVec 8)) (net : Net AllreduceBuf (BitVec 8)) :
    JoinSys :=
  { s.snapshot k ev with net := Function.update s.net k net }

/-- A member has got its id. -/
def named (s : JoinSys) (k r id : Nat) (mask : CidMask) : JoinSys :=
  { s with mask := Function.update s.mask r mask
           groupId := Function.update s.groupId k (Function.update (s.groupId k) r (some id)) }

theorem moved_net_self (net : Net AllreduceBuf (BitVec 8)) : (s.moved k ev net).net k = net :=
  Function.update_self ..

theorem moved_net_of_ne (net : Net AllreduceBuf (BitVec 8)) {k' : Nat} (hk : k' ≠ k) :
    (s.moved k ev net).net k' = s.net k' :=
  Function.update_of_ne hk ..

theorem groupId_named (id : Nat) (mask : CidMask) (k' q : Nat) :
    (s.named k r id mask).groupId k' q = if k' = k ∧ q = r then some id else s.groupId k' q := by
  unfold named
  by_cases hk : k' = k
  · subst hk
    by_cases hq : q = r
    · subst hq
      simp
    · simp [hq]
  · simp [hk]

theorem step_cases (h : step J s (k, ev) = .ok s') :
    k < J.count ∧ ∃ net,
      Net.step (ofiAtomicWriteHandlers false) ((s.snapshot k ev).group J k) (s.net k) ev = .ok net ∧
      (((∀ r, net.comps r = (s.net k).comps r) ∧ s' = s.moved k ev net) ∨
        ∃ r ep mask, net.ep r = some ep ∧ ep.comps ≠ (s.net k).comps r ∧
          (∀ q ≠ r, net.comps q = (s.net k).comps q) ∧
          (s.mask r).unset (groupIdOf (ep.mem.read resultPtr 32)) = some mask ∧
          s' = (s.moved k ev net).named k r (groupIdOf (ep.mem.read resultPtr 32)) mask) := by
  have hnet : (s.snapshot k ev).net = s.net := by
    cases ev <;> rfl
  simp only [step] at h
  split at h
  · rename_i hk
    refine ⟨hk, ?_⟩
    split at h
    · cases h
    · rename_i net hstep
      rw [hnet] at hstep
      refine ⟨net, hstep, ?_⟩
      simp only [hnet] at h
      cases ev with
      | progress r ret =>
          have hothers : ∀ q ≠ r, net.comps q = (s.net k).comps q := by
            intro q hq
            exact Net.step_comps hstep (by simpa using fun h => absurd h.symm hq)
          simp only [complete, Function.update_self] at h
          cases hep : net.ep r with
          | none =>
              rw [hep] at h
              cases h
              refine .inl ⟨fun q => ?_, rfl⟩
              by_cases hq : q = r
              · -- the endpoint of an event is there
                subst hq
                obtain ⟨_, hm⟩ | ⟨q', ep', heq, hm, _⟩ := Net.step_cases hstep
                · cases hm
                · cases hm
                  simp [heq] at hep
              · exact hothers q hq
          | some ep =>
              rw [hep] at h
              simp only at h
              split at h
              · rename_i hc
                cases h
                refine .inl ⟨fun q => ?_, rfl⟩
                by_cases hq : q = r
                · subst hq
                  rw [← hc]
                  simp [Net.comps, hep]
                · exact hothers q hq
              · rename_i hc
                simp only [utilCollJoinComp] at h
                split at h
                · cases h
                · rename_i mask hmask
                  cases h
                  exact .inr ⟨r, ep, mask, hep, hc, hothers, hmask, rfl⟩
      | call r =>
          cases h
          exact .inl ⟨fun q => Net.step_comps hstep (by simp), rfl⟩
      | sent r i =>
          cases h
          exact .inl ⟨fun q => Net.step_comps hstep (by simp), rfl⟩
      | received r i =>
          cases h
          exact .inl ⟨fun q => Net.step_comps hstep (by simp), rfl⟩
      | other a b c d =>
          cases h
          exact .inl ⟨fun q => Net.step_comps hstep (by simp), rfl⟩
  · cases h

/-- What the ids and the masks mean. -/
structure Means (J : Joins) (s : JoinSys) : Prop where
  /-- the networks run with the masks that were sent -/
  run : ∀ k, ∃ evs, StepsMeet (Net.step (ofiAtomicWriteHandlers false) (s.group J k)) Util.Accepts {} evs ∧
    Lib.run (Net.step (ofiAtomicWriteHandlers false) (s.group J k)) {} evs = .ok (s.net k)
  count : ∀ k r, (s.net k).ep r ≠ none → k < J.count
  /-- the id is the one that all members had free -/
  id : ∀ k r i, s.groupId k r = some i → Chosen (J.size k) (s.sent k) i ∧ i < ofiMaxGroupId ∧
    ∀ q < J.size k, (s.net k).ep q ≠ none
  /-- an endpoint has given away the id of the world and those of its groups -/
  mask : ∀ r i, i < ofiMaxGroupId →
    ((s.mask r).bit i = false ↔ i = ofiWorldGroupId ∨ ∃ k, s.groupId k r = some i)
  /-- what it has put into a join it had then -/
  sent : ∀ k r, (s.net k).ep r ≠ none → (s.sent k r).bit ofiWorldGroupId = false ∧
    ∀ i < ofiMaxGroupId, (s.sent k r).bit i = false →
      i = ofiWorldGroupId ∨ ∃ k' ≠ k, s.groupId k' r = some i

/-- Besides, a member has its id when its completion function has been called. -/
structure Inv (J : Joins) (s : JoinSys) : Prop extends Means J s where
  done : ∀ k r, (s.net k).comps r ≠ 0 ↔ s.groupId k r ≠ none

theorem Inv.start : Inv J {} where
  run := fun k => ⟨[], trivial, rfl⟩
  count := fun k r h => absurd rfl h
  done := fun k r => by simp [Net.comps]
  id := fun k r i h => by simp at h
  mask := fun r i hi => by simp [CidMask.bit_init hi]
  sent := fun k r h => absurd rfl h

/-- A member that gets its call through has not made it before. -/
theorem sent_snapshot_of_called {net : Net AllreduceBuf (BitVec 8)}
    (hstep : Net.step (ofiAtomicWriteHandlers false) ((s.snapshot k ev).group J k) (s.net k) ev = .ok net)
    (k' : Nat) {q : Nat} (hq : (s.net k').ep q ≠ none) :
    (s.snapshot k ev).sent k' q = s.sent k' q := by
  cases ev with
  | call r =>
      simp only [snapshot]
      by_cases hk : k' = k
      · subst hk
        have hne : q ≠ r := by
          rintro rfl
          exact hq (Net.step_call hstep).1
        rw [Function.update_self, Function.update_of_ne hne]
      · rw [Function.update_of_ne hk]
  | progress r ret => rfl
  | sent r i => rfl
  | received r i => rfl
  | other a b c d => rfl

/-- A member that is new in a join has just sent its mask. -/
theorem sent_moved_of_new {net : Net AllreduceBuf (BitVec 8)}
    (hstep : Net.step (ofiAtomicWriteHandlers false) ((s.snapshot k ev).group J k) (s.net k) ev = .ok net)
    {k' q : Nat} (hold : (s.net k').ep q = none) (hnew : ((s.moved k ev net).net k').ep q ≠ none) :
    k' = k ∧ ev = .call q ∧ (s.moved k ev net).sent k' q = s.mask q := by
  have hk : k' = k := by
    by_contra hk
    rw [moved_net_of_ne _ hk] at hnew
    exact hnew hold
  subst hk
  rw [moved_net_self] at hnew
  obtain rfl := Net.eq_call_of_step hstep hold hnew
  exact ⟨rfl, rfl, by simp [moved, snapshot]⟩

theorem groupId_moved (s : JoinSys) (k : Nat) (ev : NetEvent (BitVec 8)) (net : Net AllreduceBuf (BitVec 8)) :
    (s.moved k ev net).groupId = s.groupId ∧ (s.moved k ev net).mask = s.mask := by
  cases ev <;> exact ⟨rfl, rfl⟩

/-- The networks still run with what was sent. -/
theorem Inv.run_moved (h : Inv J s) (hacc : Accepts s (k, ev)) {net : Net AllreduceBuf (BitVec 8)}
    (hstep : Net.step (ofiAtomicWriteHandlers false) ((s.snapshot k ev).group J k) (s.net k) ev = .ok net)
    (k' : Nat) :
    ∃ evs, StepsMeet (Net.step (ofiAtomicWriteHandlers false) ((s.moved k ev net).group J k')) Util.Accepts
        {} evs ∧
      Lib.run (Net.step (ofiAtomicWriteHandlers false) ((s.moved k ev net).group J k')) {} evs =
        .ok ((s.moved k ev net).net k') := by
  obtain ⟨evs, hacc', hrun⟩ := h.run k'
  have hgroup : ∀ q, (s.net k').ep q ≠ none →
      ((s.moved k ev net).group J k').mem q = (s.group J k').mem q := by
    intro q hq
    show Mem.write _ _ ((s.snapshot k ev).sent k' q).mask.bytes = Mem.write _ _ (s.sent k' q).mask.bytes
    rw [sent_snapshot_of_called hstep k' hq]
  obtain ⟨hacc₁, hrun₁⟩ := Net.run_congr ((s.moved k ev net).group J k')
    (g := s.group J k') rfl rfl rfl hacc' hrun hgroup
  by_cases hk : k' = k
  · subst hk
    refine ⟨evs ++ [ev], (stepsMeet_snoc_of_run hrun₁).mpr ⟨hacc₁, hacc⟩, run_snoc_ok.mpr ⟨_, hrun₁, ?_⟩⟩
    rw [moved_net_self]
    exact hstep
  · refine ⟨evs, hacc₁, ?_⟩
    rw [moved_net_of_ne _ hk]
    exact hrun₁

theorem Inv.means_moved (h : Inv J s) (hk : k < J.count) (hacc : Accepts s (k, ev)) {net : Net AllreduceBuf (BitVec 8)}
    (hstep : Net.step (ofiAtomicWriteHandlers false) ((s.snapshot k ev).group J k) (s.net k) ev = .ok net) :
    Means J (s.moved k ev net) := by
  obtain ⟨hid, hmask⟩ := groupId_moved s k ev net
  have hcalled : ∀ k' q, (s.net k').ep q ≠ none → ((s.moved k ev net).net k').ep q ≠ none := by
    intro k' q hq
    by_cases hk : k' = k
    · subst hk
      rw [moved_net_self]
      exact Net.step_called hstep hq
    · rw [moved_net_of_ne _ hk]
      exact hq
  refine ⟨h.run_moved hacc hstep, fun k' r hr => ?_, fun k' r i hi => ?_, fun r i hi => ?_,
    fun k' r hr => ?_⟩
  · by_cases hkk : k' = k
    · exact hkk ▸ hk
    · rw [moved_net_of_ne _ hkk] at hr
      exact h.count k' r hr
  · rw [hid] at hi
    obtain ⟨hch, hlt, hall⟩ := h.id k' r i hi
    refine ⟨⟨hch.le, fun j hj => ?_, fun hi q hq => ?_⟩, hlt, fun q hq => hcalled k' q (hall q hq)⟩
    · obtain ⟨q, hq, hbit⟩ := hch.lowest j hj
      exact ⟨q, hq, (congrArg (·.bit j) (sent_snapshot_of_called hstep k' (hall q hq))).trans hbit⟩
    · exact (congrArg (·.bit i) (sent_snapshot_of_called hstep k' (hall q hq))).trans (hch.free hi q hq)
  · rw [hmask, hid]
    exact h.mask r i hi
  · rw [hid]
    by_cases hq : (s.net k').ep r = none
    · -- it is the call, and the mask is the one of now
      obtain ⟨rfl, rfl, hsent⟩ := sent_moved_of_new hstep hq hr
      have hnone : s.groupId k' r = none := by
        by_contra hsome
        have := (h.done k' r).mpr hsome
        simp [Net.comps, hq] at this
      rw [hsent]
      refine ⟨(h.mask r _ (by decide)).mpr (.inl rfl), fun i hi hbit => ?_⟩
      obtain hi | ⟨j, hj⟩ := (h.mask r i hi).mp hbit
      · exact .inl hi
      · refine .inr ⟨j, ?_, hj⟩
        rintro rfl
        rw [hnone] at hj
        cases hj
    · have := h.sent k' r hq
      rw [show (s.moved k ev net).sent k' r = s.sent k' r from sent_snapshot_of_called hstep k' hq]
      exact this

/-- An event of a network that does not come to the completion function. -/
theorem Inv.moved (h : Inv J s) (hk : k < J.count) (hacc : Accepts s (k, ev)) {net : Net AllreduceBuf (BitVec 8)}
    (hstep : Net.step (ofiAtomicWriteHandlers false) ((s.snapshot k ev).group J k) (s.net k) ev = .ok net)
    (hcomps : ∀ r, net.comps r = (s.net k).comps r) : Inv J (s.moved k ev net) := by
  refine ⟨h.means_moved hk hacc hstep, fun k' r => ?_⟩
  rw [(groupId_moved s k ev net).1, ← h.done k' r]
  by_cases hk : k' = k
  · subst hk
    rw [moved_net_self, hcomps r]
  · rw [moved_net_of_ne _ hk]

/-- When the completion function is called it is for the first time, and the buffer holds the id. -/
theorem Inv.comp (h : Inv J s) (hk : k < J.count) (hacc : Accepts s (k, ev))
    {net : Net AllreduceBuf (BitVec 8)} {ep : CollEp AllreduceBuf (BitVec 8)}
    (hstep : Net.step (ofiAtomicWriteHandlers false) ((s.snapshot k ev).group J k) (s.net k) ev = .ok net)
    (hep : net.ep r = some ep) (hc : ep.comps ≠ (s.net k).comps r) :
    ep.comps = 1 ∧ s.groupId k r = none ∧
      Chosen (J.size k) ((s.moved k ev net).sent k) (groupIdOf (ep.mem.read resultPtr 32)) ∧
      ∀ q < J.size k, net.ep q ≠ none := by
  obtain ⟨evs, hacc', hrun⟩ := (h.means_moved hk hacc hstep).run k
  rw [moved_net_self] at hrun
  have hcomps : net.comps r = ep.comps := by simp [Net.comps, hep]
  have hle := Net.comps_le hstep r
  obtain ⟨hone, hch, hall⟩ := chosen_of_comps (J.pos k) (J.bound k) hacc' hrun hep (by omega)
  refine ⟨hone, ?_, hch, hall⟩
  by_contra hsome
  have := (h.done k r).mpr hsome
  omega

/-- The completion function is called. -/
theorem Inv.named (h : Inv J s) (hk : k < J.count) (hacc : Accepts s (k, ev))
    {net : Net AllreduceBuf (BitVec 8)} {ep : CollEp AllreduceBuf (BitVec 8)} {mask : CidMask}
    (hstep : Net.step (ofiAtomicWriteHandlers false) ((s.snapshot k ev).group J k) (s.net k) ev = .ok net)
    (hep : net.ep r = some ep) (hc : ep.comps ≠ (s.net k).comps r)
    (hothers : ∀ q ≠ r, net.comps q = (s.net k).comps q)
    (hmask : (s.mask r).unset (groupIdOf (ep.mem.read resultPtr 32)) = some mask) :
    Inv J ((s.moved k ev net).named k r (groupIdOf (ep.mem.read resultPtr 32)) mask) := by
  have hm := h.means_moved hk hacc hstep
  obtain ⟨hid, hmasks⟩ := groupId_moved s k ev net
  obtain ⟨hone, hnone, hch, hall⟩ := h.comp hk hacc hstep hep hc
  have hlt : groupIdOf (ep.mem.read resultPtr 32) < ofiMaxGroupId := by
    by_contra hge
    rw [CidMask.unset_eq_none.mpr (by omega)] at hmask
    cases hmask
  generalize groupIdOf (ep.mem.read resultPtr 32) = id at *
  have hgid : ∀ k' q, ((s.moved k ev net).named k r id mask).groupId k' q =
      if k' = k ∧ q = r then some id else s.groupId k' q := by
    intro k' q
    rw [groupId_named, hid]
  have hkeeps : ∀ k' q i, s.groupId k' q = some i →
      ((s.moved k ev net).named k r id mask).groupId k' q = some i := by
    intro k' q i hi
    rw [hgid, if_neg, hi]
    rintro ⟨rfl, rfl⟩
    rw [hnone] at hi
    cases hi
  refine ⟨⟨hm.run, hm.count, fun k' q i hi => ?_, fun q i hi => ?_, fun k' q hq => ?_⟩, fun k' q => ?_⟩
  · rw [hgid] at hi
    split at hi
    · rename_i hkr
      obtain ⟨rfl, rfl⟩ := hkr
      cases hi
      refine ⟨hch, hlt, fun q hq => ?_⟩
      show ((s.moved k' ev net).net k').ep q ≠ none
      rw [moved_net_self]
      exact hall q hq
    · exact hm.id k' q i (by rw [hid]; exact hi)
  · have hold := h.mask q i hi
    by_cases hq : q = r
    · subst hq
      have hbit : (((s.moved k ev net).named k q id mask).mask q).bit i =
          ((s.mask q).bit i && decide (i ≠ id)) := by
        simp only [JoinSys.named, Function.update_self]
        exact CidMask.bit_unset hmask i
      rw [hbit, Bool.and_eq_false_iff, hold, decide_eq_false_iff_not, not_not]
      constructor
      · rintro ((hw | ⟨k', hk'⟩) | rfl)
        · exact .inl hw
        · exact .inr ⟨k', hkeeps k' q i hk'⟩
        · exact .inr ⟨k, by rw [hgid, if_pos ⟨rfl, rfl⟩]⟩
      · rintro (hw | ⟨k', hk'⟩)
        · exact .inl (.inl hw)
        · rw [hgid] at hk'
          split at hk'
          · cases hk'
            exact .inr rfl
          · exact .inl (.inr ⟨k', hk'⟩)
    · have hsame : ((s.moved k ev net).named k r id mask).mask q = s.mask q := by
        simp only [JoinSys.named, Function.update_of_ne hq, hmasks]
      rw [hsame, hold]
      simp only [hgid, hq, and_false, if_false]
  · obtain ⟨hw, hbits⟩ := hm.sent k' q hq
    refine ⟨hw, fun i hi hbit => ?_⟩
    obtain hi | ⟨j, hj, hji⟩ := hbits i hi hbit
    · exact .inl hi
    · exact .inr ⟨j, hj, hkeeps j q i (by rw [← hid]; exact hji)⟩
  · rw [hgid]
    show ((s.moved k ev net).net k').comps q ≠ 0 ↔ _
    by_cases hk' : k' = k
    · subst hk'
      rw [moved_net_self]
      by_cases hq : q = r
      · subst hq
        simp [Net.comps, hep, hone]
      · rw [hothers q hq, h.done, if_neg (fun h => hq h.2)]
    · rw [moved_net_of_ne _ hk', h.done, if_neg (fun h => hk' h.1)]

theorem Inv.step (h : Inv J s) (hacc : Accepts s (k, ev)) (hstep : JoinSys.step J s (k, ev) = .ok s') :
    Inv J s' := by
  obtain ⟨hk, net, hnet, ⟨hcomps, rfl⟩ | ⟨r, ep, mask, hep, hc, hothers, hmask, rfl⟩⟩ := step_cases hstep
  · exact h.moved hk hacc hnet hcomps
  · exact h.named hk hacc hnet hep hc hothers hmask

theorem Inv.of_run {evs : List (Nat × NetEvent (BitVec 8))} (h : Inv J s)
    (hacc : StepsMeet (JoinSys.step J) Accepts s evs) (hrun : Lib.run (JoinSys.step J) s evs = .ok s') :
    Inv J s' := by
  refine run_induction_of_stepsMeet (P := fun _ s => Inv J s) (H := fun _ => True) (fun _ _ h => h) h ?_
    trivial hrun hacc
  rintro _ s ⟨k, ev⟩ s' _ h hC hstep
  exact h.step hC hstep

/-! ## §5 — agreement -/

/-- **Agreement.**  Whatever the interleaving of the joins, the members of a join get one id: the
lowest that was free at every member when it made its call, and never the one of the world. -/
theorem join_agreement {evs : List (Nat × NetEvent (BitVec 8))}
    (hacc : StepsMeet (JoinSys.step J) Accepts {} evs) (hrun : run (JoinSys.step J) {} evs = .ok s)
    (hi : s.groupId k r = some i) :
    i ≠ ofiWorldGroupId ∧ i < ofiMaxGroupId ∧ Chosen (J.size k) (s.sent k) i ∧
      ∀ q j, s.groupId k q = some j → j = i := by
  have h := Inv.start.of_run hacc hrun
  obtain ⟨hch, hlt, hall⟩ := h.id k r i hi
  have hpos : 0 < J.size k := Nat.pos_of_ne_zero (J.pos k)
  refine ⟨?_, hlt, hch, fun q j hj => (h.id k q j hj).1.unique hch⟩
  rintro rfl
  have hfree := hch.free hlt 0 hpos
  rw [(h.sent k 0 (hall 0 hpos)).1] at hfree
  cases hfree

/-- Two joins of two endpoints. -/
def twoJoins : Joins where
  count := 2
  size := fun _ => 2
  cid := fun k => k
  pos := fun _ => by decide
  bound := fun _ => by decide
  cid_lt := fun _ hk => by omega
  distinct := fun _ _ _ _ hne => hne

/-- The events of one of them after the calls. -/
def afterCalls (k : Nat) : List (Nat × NetEvent (BitVec 8)) :=
  ([.progress 0 .success, .progress 0 .success, .sent 0 1, .progress 1 .success, .progress 1 .success,
    .received 0 0, .progress 0 .success, .progress 0 .success, .progress 0 .success, .received 1 0,
    .sent 1 1, .progress 1 .success, .progress 1 .success] : List (NetEvent (BitVec 8))).map (k, ·)

/-- The one join after the other. -/
def twoJoinsRun : List (Nat × NetEvent (BitVec 8)) :=
  [(0, .call 0), (0, .call 1)] ++ afterCalls 0 ++ ([(1, .call 0), (1, .call 1)] ++ afterCalls 1)

theorem twoJoinsRun_meets :
    StepsMeet (JoinSys.step twoJoins) (fun s x => Accepts s x ∧ Alone twoJoins s x) {} twoJoinsRun := by
  decide +kernel

theorem twoJoinsRun_accepts : StepsMeet (JoinSys.step twoJoins) Accepts {} twoJoinsRun := by
  decide +kernel

theorem twoJoinsRun_ids : ∃ s, run (JoinSys.step twoJoins) {} twoJoinsRun = .ok s ∧
    s.groupId 0 0 = some 1 ∧ s.groupId 1 1 = some 2 := by
  have h : (run (JoinSys.step twoJoins) {} twoJoinsRun).toOption.map
      (fun s => (s.groupId 0 0, s.groupId 1 1)) = some (some 1, some 2) := by
    decide +kernel
  cases hrun : run (JoinSys.step twoJoins) {} twoJoinsRun with
  | error e =>
      rw [hrun] at h
      cases h
  | ok s =>
      rw [hrun] at h
      simp only [Except.toOption, Option.map_some, Option.some.injEq, Prod.mk.injEq] at h
      exact ⟨s, rfl, h⟩

theorem join_agreement_two : ∃ s, run (JoinSys.step twoJoins) {} twoJoinsRun = .ok s ∧
    s.groupId 1 1 = some 2 ∧ Chosen 2 (s.sent 1) 2 := by
  obtain ⟨s, hrun, _, hid⟩ := twoJoinsRun_ids
  exact ⟨s, hrun, hid, (join_agreement twoJoinsRun_accepts hrun hid).2.2.1⟩

/-! ## §6 — no id twice -/

/-- Of two joins of an endpoint one was over when it sent its mask into the other. -/
def Ordered (s : JoinSys) : Prop :=
  ∀ k k' r, k ≠ k' → (s.net k).ep r ≠ none → (s.net k').ep r ≠ none →
    (∃ i, s.groupId k r = some i ∧ (s.sent k' r).bit i = false) ∨
      ∃ i, s.groupId k' r = some i ∧ (s.sent k r).bit i = false

/-- What an event of the system keeps. -/
theorem step_keeps (h : Inv J s) (hacc : Accepts s (k, ev)) (hstep : JoinSys.step J s (k, ev) = .ok s')
    (k' q : Nat) :
    (∀ i, s.groupId k' q = some i → s'.groupId k' q = some i) ∧
      ((s.net k').ep q ≠ none → s'.sent k' q = s.sent k' q) ∧
      ((s.net k').ep q = none → (s'.net k').ep q ≠ none →
        k' = k ∧ ev = .call q ∧ s'.sent k' q = s.mask q) := by
  obtain ⟨hk, net, hnet, ⟨_, rfl⟩ | ⟨r, ep, mask, hep, hc, _, _, rfl⟩⟩ := step_cases hstep
  · refine ⟨fun i hi => ?_, sent_snapshot_of_called hnet k', sent_moved_of_new hnet⟩
    rw [(groupId_moved s k ev net).1]
    exact hi
  · refine ⟨fun i hi => ?_, sent_snapshot_of_called hnet k', sent_moved_of_new hnet⟩
    rw [groupId_named, if_neg, (groupId_moved s k ev net).1]
    · exact hi
    · rintro ⟨rfl, rfl⟩
      rw [(h.comp hk hacc hnet hep hc).2.1] at hi
      cases hi

theorem Ordered.step (ho : Ordered s) (h : Inv J s) (hacc : Accepts s (k, ev)) (halone : Alone J s (k, ev))
    (hstep : JoinSys.step J s (k, ev) = .ok s') : Ordered s' := by
  -- a call comes after all other joins of the endpoint
  have hcall : ∀ a b r, a ≠ b → (s.net a).ep r ≠ none → (s.net b).ep r = none → (s'.net b).ep r ≠ none →
      ∃ i, s'.groupId a r = some i ∧ (s'.sent b r).bit i = false := by
    intro a b r hab ha hb hb'
    obtain ⟨rfl, rfl, hsent⟩ := (step_keeps h hacc hstep b r).2.2 hb hb'
    obtain ⟨i, hi⟩ := Option.ne_none_iff_exists'.mp (halone a (h.count a r ha) ha)
    refine ⟨i, (step_keeps h hacc hstep a r).1 i hi, ?_⟩
    rw [hsent]
    exact (h.mask r i (h.id a r i hi).2.1).mpr (.inr ⟨a, hi⟩)
  intro a b r hab ha hb
  by_cases ha₀ : (s.net a).ep r = none
  · by_cases hb₀ : (s.net b).ep r = none
    · -- two joins are not called by one event
      have hak := ((step_keeps h hacc hstep a r).2.2 ha₀ ha).1
      have hbk := ((step_keeps h hacc hstep b r).2.2 hb₀ hb).1
      exact absurd (hak.trans hbk.symm) hab
    · exact .inr (hcall b a r (Ne.symm hab) hb₀ ha₀ ha)
  · by_cases hb₀ : (s.net b).ep r = none
    · exact .inl (hcall a b r hab ha₀ hb₀ hb)
    · obtain ⟨i, hi, hbit⟩ | ⟨i, hi, hbit⟩ := ho a b r hab ha₀ hb₀
      · refine .inl ⟨i, (step_keeps h hacc hstep a r).1 i hi, ?_⟩
        rw [(step_keeps h hacc hstep b r).2.1 hb₀]
        exact hbit
      · refine .inr ⟨i, (step_keeps h hacc hstep b r).1 i hi, ?_⟩
        rw [(step_keeps h hacc hstep a r).2.1 ha₀]
        exact hbit

/-- **No id twice.**  When no endpoint starts a join while it has another one under way, different joins
give different ids, whoever has got them so far; so no operation of the one group has a message with a
tag of the other. -/
theorem join_ids_distinct {evs : List (Nat × NetEvent (BitVec 8))}
    (hmeet : StepsMeet (JoinSys.step J) (fun s x => Accepts s x ∧ Alone J s x) {} evs)
    (hrun : run (JoinSys.step J) {} evs = .ok s) {k' r' i' : Nat} (hk : k ≠ k')
    (hi : s.groupId k r = some i) (hi' : s.groupId k' r' = some i') :
    i ≠ i' ∧ ∀ mc mc' : CollMc, mc.groupId = BitVec.ofNat 16 i → mc'.groupId = BitVec.ofNat 16 i' →
      ∀ q q', utilCollFormTag (utilCollGetNextId mc).1.toNat q ≠
        utilCollFormTag (utilCollGetNextId mc').1.toNat q' := by
  obtain ⟨h, ho⟩ : Inv J s ∧ Ordered s := by
    refine run_induction_of_stepsMeet (P := fun _ s => Inv J s ∧ Ordered s) (H := fun _ => True)
      (fun _ _ h => h) ⟨Inv.start, fun _ _ _ _ h => absurd rfl h⟩ ?_ trivial hrun hmeet
    rintro _ s ⟨k, ev⟩ s' _ ⟨h, ho⟩ ⟨hacc, halone⟩ hstep
    exact ⟨h.step hacc hstep, ho.step h hacc halone hstep⟩
  obtain ⟨hch, hlt, hall⟩ := h.id k r i hi
  obtain ⟨hch', hlt', hall'⟩ := h.id k' r' i' hi'
  have hpos : 0 < J.size k := Nat.pos_of_ne_zero (J.pos k)
  have hpos' : 0 < J.size k' := Nat.pos_of_ne_zero (J.pos k')
  -- the first endpoint is a member of both
  have hne : i ≠ i' := by
    rintro rfl
    obtain ⟨j, hj, hbit⟩ | ⟨j, hj, hbit⟩ := ho k k' 0 hk (hall 0 hpos) (hall' 0 hpos')
    · obtain rfl := (h.id k 0 j hj).1.unique hch
      rw [hch'.free hlt' 0 hpos'] at hbit
      cases hbit
    · obtain rfl := (h.id k' 0 j hj).1.unique hch'
      rw [hch.free hlt 0 hpos] at hbit
      cases hbit
  refine ⟨hne, fun mc mc' hmc hmc' q q' htag => hne ?_⟩
  have heq := groupId_of_tag htag
  rw [hmc, hmc'] at heq
  have := congrArg BitVec.toNat heq
  simp only [BitVec.toNat_ofNat] at this
  unfold ofiMaxGroupId at hlt hlt'
  omega

theorem join_ids_distinct_two : ∃ s i i', run (JoinSys.step twoJoins) {} twoJoinsRun = .ok s ∧
    s.groupId 0 0 = some i ∧ s.groupId 1 1 = some i' ∧ i ≠ i' := by
  obtain ⟨s, hrun, hid, hid'⟩ := twoJoinsRun_ids
  exact ⟨s, 1, 2, hrun, hid, hid', (join_ids_distinct twoJoinsRun_meets hrun (by decide) hid hid').1⟩

-- An endpoint that starts a join before the other one is over gives both groups the same id.
example : (run (JoinSys.step twoJoins) {} ([(0, .call 0), (0, .call 1), (1, .call 0), (1, .call 1)] ++
    afterCalls 0 ++ afterCalls 1)).toOption.map (fun s => (s.groupId 0 0, s.groupId 1 0)) =
      some (some 1, some 1) := by
  decide +kernel

/-! ## §7 — the bounds of the masks -/

theorem Inv.net_ne_fault (h : Inv J s) (k : Nat) (ev : NetEvent (BitVec 8)) :
    Net.step (ofiAtomicWriteHandlers false) ((s.snapshot k ev).group J k) (s.net k) ev ≠
      .error .fault := by
  by_cases hev : ∃ q, ev = .call q
  · obtain ⟨q, rfl⟩ := hev
    simp only [Net.step]
    split
    · simp
    · split <;> simp
  · have hsnap : s.snapshot k ev = s := by
      cases ev with
      | call q => exact absurd ⟨q, rfl⟩ hev
      | _ => rfl
    obtain ⟨evs, hacc', hrun⟩ := h.run k
    have hP : Sound (ofiAtomicWriteHandlers false) (s.group J k) _ :=
      Allreduce.sound (fun _ _ _ => 0) (joinOf_valid (J.pos k) (J.bound k)) rfl rfl
    obtain ⟨e, c, hinv⟩ := hP.inv hacc' hrun
    rw [hsnap]
    exact hinv.step_ne_fault hP ev

/-- As long as there are less joins than ids, an id is free. -/
theorem Means.chosen_lt (h : Means J s) (hcount : J.count < ofiMaxGroupId) (hk : k < J.count)
    (hch : Chosen (J.size k) (s.sent k) i) (hall : ∀ q < J.size k, (s.net k).ep q ≠ none) :
    i < ofiMaxGroupId := by
  by_contra hge
  -- every id but the one of the world has been given by another join
  have htaken : ∀ j ∈ (Finset.range ofiMaxGroupId).erase ofiWorldGroupId,
      ∃ k' ∈ (Finset.range J.count).erase k, ∃ q, s.groupId k' q = some j := by
    intro j hj
    obtain ⟨hworld, hlt⟩ := Finset.mem_erase.mp hj
    rw [Finset.mem_range] at hlt
    obtain ⟨q, hq, hbit⟩ := hch.lowest j (by omega)
    obtain hw | ⟨k', hk', hj'⟩ := (h.sent k q (hall q hq)).2 j hlt hbit
    · exact absurd hw hworld
    · have hzero := (h.id k' q j hj').2.2 0 (Nat.pos_of_ne_zero (J.pos k'))
      exact ⟨k', Finset.mem_erase.mpr ⟨hk', Finset.mem_range.mpr (h.count k' 0 hzero)⟩, q, hj'⟩
  choose! f hf hid using htaken
  have hcard : ((Finset.range J.count).erase k).card <
      ((Finset.range ofiMaxGroupId).erase ofiWorldGroupId).card := by
    rw [Finset.card_erase_of_mem (Finset.mem_range.mpr hk),
      Finset.card_erase_of_mem (Finset.mem_range.mpr (by decide)), Finset.card_range, Finset.card_range]
    omega
  obtain ⟨a, ha, b, hb, hab, heq⟩ := Finset.exists_ne_map_eq_of_card_lt_of_maps_to hcard hf
  obtain ⟨q, hq⟩ := hid a ha
  obtain ⟨q', hq'⟩ := hid b hb
  rw [← heq] at hq'
  exact hab ((h.id _ q a hq).1.unique (h.id _ q' b hq').1)

/-- With less joins than ids an event of a network is one of the system. -/
theorem Inv.step_of_net (h : Inv J s) (hcount : J.count < ofiMaxGroupId) (hk : k < J.count)
    (hacc : Accepts s (k, ev)) {net : Net AllreduceBuf (BitVec 8)}
    (hstep : Net.step (ofiAtomicWriteHandlers false) ((s.snapshot k ev).group J k) (s.net k) ev = .ok net) :
    ∃ s', JoinSys.step J s (k, ev) = .ok s' := by
  have hnet : (s.snapshot k ev).net = s.net := by
    cases ev <;> rfl
  simp only [JoinSys.step, if_pos hk, hnet, hstep]
  cases ev with
  | progress r ret =>
      simp only [complete, Function.update_self]
      split
      · exact ⟨_, rfl⟩
      · rename_i ep hep
        split
        · exact ⟨_, rfl⟩
        · rename_i hc
          obtain ⟨_, _, hch, hall⟩ := h.comp hk hacc hstep hep hc
          have hlt := (h.means_moved hk hacc hstep).chosen_lt hcount hk hch fun q hq => by
            rw [moved_net_self]
            exact hall q hq
          simp only [utilCollJoinComp]
          split
          · rename_i hnone
            have := CidMask.unset_eq_none.mp hnone
            omega
          · exact ⟨_, rfl⟩
  | call r => exact ⟨_, rfl⟩
  | sent r i => exact ⟨_, rfl⟩
  | received r i => exact ⟨_, rfl⟩
  | other a b c d => exact ⟨_, rfl⟩

/-- **The bounds.**  With less than 256 joins no completion function writes behind the mask, and no
work item is used after it is freed. -/
theorem join_in_bounds {evs : List (Nat × NetEvent (BitVec 8))} (hcount : J.count < ofiMaxGroupId)
    (hacc : StepsMeet (JoinSys.step J) Accepts {} evs) : run (JoinSys.step J) {} evs ≠ .error .fault := by
  refine run_ne_error_of_stepsMeet (J := Inv J) ?_ ?_ Inv.start hacc
  · rintro s ⟨k, ev⟩ h hacc hfault
    by_cases hk : k < J.count
    · cases hnet : Net.step (ofiAtomicWriteHandlers false) ((s.snapshot k ev).group J k) (s.net k) ev with
      | ok net =>
          obtain ⟨s', hs'⟩ := h.step_of_net hcount hk hacc hnet
          rw [hs'] at hfault
          cases hfault
      | error e =>
          have hsame : (s.snapshot k ev).net = s.net := by
            cases ev <;> rfl
          simp only [JoinSys.step, if_pos hk, hsame, hnet] at hfault
          cases hfault
          exact h.net_ne_fault k ev hnet
    · simp only [JoinSys.step, if_neg hk] at hfault
      cases hfault
  · rintro s ⟨k, ev⟩ s' h hacc hstep
    exact h.step hacc hstep

theorem join_in_bounds_two : run (JoinSys.step twoJoins) {} twoJoinsRun ≠ .error .fault :=
  join_in_bounds (by decide) twoJoinsRun_accepts

/-! ## §8 — every join comes to its end -/

/-- The masks that the members have put into a join, or would put into it now. -/
def offered (s : JoinSys) (k q : Nat) : CidMask :=
  if (s.net k).ep q = none then s.mask q else s.sent k q

theorem offered_of_called {q : Nat} (hq : (s.net k).ep q ≠ none) : s.offered k q = s.sent k q := if_neg hq

theorem offered_of_new {q : Nat} (hq : (s.net k).ep q = none) : s.offered k q = s.mask q := if_pos hq

/-- An event of one join leaves what its members offer, and the other joins. -/
theorem offered_step (h : Inv J s) (hacc : Accepts s (k, ev)) {net : Net AllreduceBuf (BitVec 8)}
    (hnet : Net.step (ofiAtomicWriteHandlers false) ((s.snapshot k ev).group J k) (s.net k) ev = .ok net)
    (hstep : JoinSys.step J s (k, ev) = .ok s') :
    s'.offered k = s.offered k ∧ s'.net = Function.update s.net k net := by
  have hs' : s'.net = Function.update s.net k net ∧
      ∀ q, net.ep q = none → s'.mask q = s.mask q := by
    obtain ⟨_, net', hnet', ⟨_, rfl⟩ | ⟨r, ep, mask, hep, _, _, _, rfl⟩⟩ := step_cases hstep
    · rw [hnet] at hnet'
      cases hnet'
      exact ⟨rfl, fun q _ => congrFun (groupId_moved s k ev net).2 q⟩
    · rw [hnet] at hnet'
      cases hnet'
      refine ⟨rfl, fun q hq => ?_⟩
      have hne : q ≠ r := by
        rintro rfl
        rw [hep] at hq
        cases hq
      simp only [named, Function.update_of_ne hne, (groupId_moved s k ev net).2]
  refine ⟨funext fun q => ?_, hs'.1⟩
  obtain ⟨_, hold, hnew⟩ := step_keeps h hacc hstep k q
  have hself : s'.net k = net := by rw [hs'.1, Function.update_self]
  by_cases hq : (s.net k).ep q = none
  · rw [offered_of_new hq]
    by_cases hq' : net.ep q = none
    · rw [offered_of_new (by rw [hself]; exact hq'), hs'.2 q hq']
    · rw [offered_of_called (by rw [hself]; exact hq')]
      exact (hnew hq (by rw [hself]; exact hq')).2.2
  · rw [offered_of_called hq, ← hold hq]
    exact offered_of_called (by rw [hself]; exact Net.step_called hnet hq)

/-- A run of the network of one join is a run of the system. -/
theorem Inv.lift (hcount : J.count < ofiMaxGroupId) (hk : k < J.count) {evs : List (NetEvent (BitVec 8))}
    {net : Net AllreduceBuf (BitVec 8)} (h : Inv J s)
    (hmeet : StepsMeet (Net.step (ofiAtomicWriteHandlers false) (groupOf J k (s.offered k))) Util.Accepts
      (s.net k) evs)
    (hrun : Lib.run (Net.step (ofiAtomicWriteHandlers false) (groupOf J k (s.offered k))) (s.net k) evs =
      .ok net) :
    ∃ s', StepsMeet (JoinSys.step J) Accepts s (evs.map (k, ·)) ∧
      Lib.run (JoinSys.step J) s (evs.map (k, ·)) = .ok s' ∧ s'.net k = net := by
  induction evs generalizing s with
  | nil =>
      cases hrun
      exact ⟨s, trivial, rfl, rfl⟩
  | cons ev evs ih =>
      obtain ⟨net₁, hnet, hrest⟩ := run_cons_ok.mp hrun
      obtain ⟨hacc, hmeet₁⟩ := hmeet
      -- a member that makes its call now puts in what it offers
      have hsame : Net.step (ofiAtomicWriteHandlers false) ((s.snapshot k ev).group J k) (s.net k) ev =
          .ok net₁ := by
        rw [← hnet]
        refine Net.step_congr rfl rfl rfl ?_
        rintro r rfl
        have hoffer : (s.snapshot k (.call r)).sent k r = s.offered k r := by
          rw [offered_of_new (Net.step_call hnet).1]
          simp [snapshot]
        show Mem.write _ _ ((s.snapshot k (.call r)).sent k r).mask.bytes =
          Mem.write _ _ (s.offered k r).mask.bytes
        rw [hoffer]
      obtain ⟨s₁, hs₁⟩ := h.step_of_net hcount hk hacc hsame
      obtain ⟨hoff, hnets⟩ := offered_step h hacc hsame hs₁
      have hself : s₁.net k = net₁ := by rw [hnets, Function.update_self]
      obtain ⟨s', hmeet', hrun', hnet'⟩ := ih (h.step hacc hs₁)
        (by rw [hoff, hself]; exact hmeet₁ net₁ hnet) (by rw [hoff, hself]; exact hrest)
      refine ⟨s', ⟨hacc, fun t ht => ?_⟩, run_cons_ok.mpr ⟨s₁, hs₁, hrun'⟩, hnet'⟩
      rw [hs₁] at ht
      cases ht
      exact hmeet'

/-- One join can be brought to its end. -/
theorem Inv.finish (hcount : J.count < ofiMaxGroupId) (h : Inv J s) (hk : k < J.count) :
    ∃ evs s', StepsMeet (JoinSys.step J) Accepts s evs ∧ Lib.run (JoinSys.step J) s evs = .ok s' ∧
      ∀ r < J.size k, s'.groupId k r ≠ none := by
  obtain ⟨evs, hmeet, hrun⟩ := h.run k
  have hmem : ∀ q, (s.net k).ep q ≠ none →
      (groupOf J k (s.offered k)).mem q = (s.group J k).mem q := by
    intro q hq
    show Mem.write _ _ (s.offered k q).mask.bytes = Mem.write _ _ (s.sent k q).mask.bytes
    rw [offered_of_called hq]
  obtain ⟨hmeet₁, hrun₁⟩ := Net.run_congr (groupOf J k (s.offered k)) (g := s.group J k) rfl rfl rfl
    hmeet hrun hmem
  have hA : Computes (ofiAtomicWriteHandlers false) (groupOf J k (s.offered k)) _ _ :=
    Allreduce.computes (joinOf_valid (J.pos k) (J.bound k)) rfl rfl fun _ _ _ => 0
  obtain ⟨evs', net, hmeet₂, hrun₂, hall⟩ := hA.continues evs hmeet₁ hrun₁
  obtain ⟨mid, hmid, hrest⟩ := run_append_ok.mp hrun₂
  rw [hrun₁] at hmid
  cases hmid
  obtain ⟨s', hmeet', hrun', hnet⟩ := h.lift hcount hk ((stepsMeet_append_of_run hrun₁).mp hmeet₂).2 hrest
  refine ⟨_, s', hmeet', hrun', fun r hr => ?_⟩
  obtain ⟨ep, hep, hc, _⟩ := hall r hr
  refine ((h.of_run hmeet' hrun').done k r).mp ?_
  rw [hnet]
  simp [Net.comps, hep, hc]

theorem Inv.ids_keep {evs : List (Nat × NetEvent (BitVec 8))} (h : Inv J s)
    (hacc : StepsMeet (JoinSys.step J) Accepts s evs) (hrun : Lib.run (JoinSys.step J) s evs = .ok s')
    (hid : s.groupId k r ≠ none) : s'.groupId k r ≠ none := by
  refine (run_induction_of_stepsMeet (P := fun _ s => Inv J s ∧ s.groupId k r ≠ none)
    (H := fun _ => True) (fun _ _ h => h) ⟨h, hid⟩ ?_ trivial hrun hacc).2
  rintro _ s ⟨j, ev⟩ s' _ ⟨h, hid⟩ hC hstep
  obtain ⟨i, hi⟩ := Option.ne_none_iff_exists'.mp hid
  refine ⟨h.step hC hstep, ?_⟩
  rw [(step_keeps h hC hstep k r).1 i hi]
  simp

/-- **Completion.**  With less than 256 joins, whatever has happened so far, the events can go on until
every member has the id of every one of its groups. -/
theorem joins_complete {evs : List (Nat × NetEvent (BitVec 8))} (hcount : J.count < ofiMaxGroupId)
    (hacc : StepsMeet (JoinSys.step J) Accepts {} evs) (hrun : run (JoinSys.step J) {} evs = .ok s) :
    ∃ evs' s', StepsMeet (JoinSys.step J) Accepts {} (evs ++ evs') ∧
      run (JoinSys.step J) {} (evs ++ evs') = .ok s' ∧
      ∀ k < J.count, ∀ r < J.size k, s'.groupId k r ≠ none := by
  have hall : ∀ n ≤ J.count, ∃ evs' s', StepsMeet (JoinSys.step J) Accepts s evs' ∧
      run (JoinSys.step J) s evs' = .ok s' ∧ ∀ k < n, ∀ r < J.size k, s'.groupId k r ≠ none := by
    have h := Inv.start.of_run hacc hrun
    intro n hn
    -- one join after the other
    induction n with
    | zero => exact ⟨[], s, trivial, rfl, fun k hk => absurd hk (Nat.not_lt_zero k)⟩
    | succ n ih =>
        obtain ⟨evs₁, s₁, hacc₁, hrun₁, hids⟩ := ih (by omega)
        have h₁ := h.of_run hacc₁ hrun₁
        obtain ⟨evs₂, s₂, hacc₂, hrun₂, hlast⟩ := h₁.finish hcount (show n < J.count by omega)
        refine ⟨evs₁ ++ evs₂, s₂, (stepsMeet_append_of_run hrun₁).mpr ⟨hacc₁, hacc₂⟩,
          run_append_ok.mpr ⟨s₁, hrun₁, hrun₂⟩, fun k hk r hr => ?_⟩
        rcases Nat.lt_or_ge k n with hlt | hge
        · exact h₁.ids_keep hacc₂ hrun₂ (hids k hlt r hr)
        · obtain rfl : k = n := by omega
          exact hlast r hr
  obtain ⟨evs', s', hacc', hrun', hids⟩ := hall J.count (Nat.le_refl _)
  exact ⟨evs', s', (stepsMeet_append_of_run hrun).mpr ⟨hacc, hacc'⟩,
    run_append_ok.mpr ⟨s, hrun, hrun'⟩, hids⟩

theorem joins_complete_two : ∃ evs s, run (JoinSys.step twoJoins) {} ([(1, .call 0)] ++ evs) = .ok s ∧
    ∀ k < 2, ∀ r < 2, s.groupId k r ≠ none := by
  obtain ⟨evs, s, _, hrun, hall⟩ := joins_complete (J := twoJoins) (by decide)
    (show StepsMeet (JoinSys.step twoJoins) Accepts {} [(1, .call 0)] by decide +kernel) rfl
  exact ⟨evs, s, hrun, hall⟩

end JoinSys

end SstTransports.Util
