/-
# SstTransports.Ugni.Current — the current message of an endpoint, from get to release.

A successful get is to make its message the endpoint's current one, which stays in the pending table
until `GNI_SmsgRelease` on that endpoint deletes it.  The table has one slot a queue where the
promise is one an endpoint, and only one of the two gets writes it.  `current_kept_iff` says for
which runs the promise is kept nevertheless.
-/
import SstTransports.Ugni.Events

namespace SstTransports.Ugni

open SstTransports.Lib
open SstTransports.Fabric (nullptr)

/-! ## §1 — the promise -/

/-- A release with a current message succeeds and deletes that message and its buffer and nothing
else; one without fails and deletes nothing. -/
def ReleaseExact (r : Release) : Prop :=
  match r.current with
  | some smsg =>
    r.ret = .success ∧ r.after.deletedSmsg = smsg :: r.before.deletedSmsg ∧
      r.after.deletedBuffers =
        if smsg.localBuffer = nullptr then r.before.deletedBuffers
        else smsg.localBuffer :: r.before.deletedBuffers
  | none =>
    r.ret ≠ .success ∧ r.after.deletedSmsg = r.before.deletedSmsg ∧
      r.after.deletedBuffers = r.before.deletedBuffers

/-- Every message got and not released is pending for its endpoint's queue, and every release so far
was exact. -/
structure CurrentKept (n : Node) : Prop where
  pending : ∀ h ∈ n.held, n.transport.slot h.1.cqId = some h.2
  exact_release : ∀ r ∈ n.releases, ReleaseExact r

/-- What a call has to find: no message for `GNI_SmsgGetNext`, an empty slot for a
`GNI_SmsgGetNextWTag` that will succeed, and an empty slot or a current message of this very endpoint
for `GNI_SmsgRelease`. -/
def SlotFree (n : Node) : Action → Prop
  | .smsgGetNext ep => n.transport.nextSmsg ep.cqId = none
  | .smsgGetNextWTag ep tag =>
    (n.transport.nextSmsg ep.cqId).any (tagMatches tag) = true → n.transport.slot ep.cqId = none
  | .smsgRelease ep => n.transport.slot ep.cqId = none ∨ (n.current ep).isSome = true
  | _ => True

instance (n : Node) (a : Action) : Decidable (SlotFree n a) :=
  match a with
  | .cqCreate _ => .isTrue trivial
  | .arrive _ _ => .isTrue trivial
  | .cqGetEvent _ => .isTrue trivial
  | .smsgGetNext ep => inferInstanceAs (Decidable (n.transport.nextSmsg ep.cqId = none))
  | .smsgGetNextWTag _ _ => inferInstanceAs (Decidable (_ → _))
  | .smsgRelease _ => inferInstanceAs (Decidable (_ ∨ _))

/-- The events delivered in a run, in order. -/
def arrivals (as : List Action) : List Event :=
  as.filterMap fun
    | .arrive _ e => some e
    | _ => none

/-- No object is delivered to a queue twice. -/
def ArrivalsDistinct (as : List Action) : Prop := ∀ cqId, (arrivedAt cqId as).Nodup

/-! ## §2 — a pending message has left its queue -/

variable {n n' : Node} {as : List Action} {a : Action}

/-- What is pending for a queue is among the events that have left it. -/
def PendingGone (as : List Action) (n : Node) : Prop :=
  ∀ c, ∃ gone, arrivedAt c as = gone ++ n.transport.cqs c ∧
    ∀ smsg, n.transport.slot c = some smsg → .smsg smsg ∈ gone

theorem pendingGone_start : PendingGone [] {} := by
  intro c
  refine ⟨[], rfl, ?_⟩
  intro smsg h
  rw [slot_start] at h
  cases h

theorem setSlot_slot {t : Transport} {c : BitVec 32} (h : t.InTable c)
    (x : Option GniSmsgMessage) (d : BitVec 32) :
    (t.setSlot c x).slot d = if d = c then x else t.slot d :=
  slot_set h rfl d

/-- What is pending after a slot was cleared was pending before, for another queue. -/
theorem slot_of_cleared {t : Transport} {c d : BitVec 32} {smsg : GniSmsgMessage}
    (h : t.InTable c) (hs : (t.setSlot c none).slot d = some smsg) :
    d ≠ c ∧ t.slot d = some smsg := by
  rw [setSlot_slot h] at hs
  by_cases hd : d = c
  · rw [if_pos hd] at hs
    cases hs
  · rw [if_neg hd] at hs
    exact ⟨hd, hs⟩

theorem pendingGone_frame (hgone : PendingGone as n) (ha : ∀ c e, a ≠ .arrive c e)
    (hcqs : n'.transport.cqs = n.transport.cqs)
    (hslot : ∀ c smsg, n'.transport.slot c = some smsg → n.transport.slot c = some smsg) :
    PendingGone (as ++ [a]) n' := by
  intro c
  obtain ⟨gone, hsplit, hmem⟩ := hgone c
  refine ⟨gone, ?_, fun smsg h => hmem smsg (hslot c smsg h)⟩
  rw [arrivedAt_other ha, hcqs, hsplit]

/-- Taking the head of a queue, with at most the message taken newly pending. -/
theorem pendingGone_pop {c : BitVec 32} {e : Event} {rest : List Event}
    (hgone : PendingGone as n) (hq : n.transport.cqs c = e :: rest) (ha : ∀ c e, a ≠ .arrive c e)
    (hcqs : n'.transport.cqs = (n.transport.pop c rest).cqs)
    (hslot : ∀ d smsg, n'.transport.slot d = some smsg →
      n.transport.slot d = some smsg ∨ d = c ∧ e = .smsg smsg) :
    PendingGone (as ++ [a]) n' := by
  intro d
  obtain ⟨gone, hsplit, hmem⟩ := hgone d
  rw [arrivedAt_other ha, hcqs]
  by_cases hd : d = c
  · subst hd
    refine ⟨gone ++ [e], ?_, ?_⟩
    · rw [hsplit, hq, pop_cqs_self, List.append_assoc]
      rfl
    · intro smsg h
      rcases hslot d smsg h with h | ⟨-, rfl⟩
      · exact List.mem_append_left _ (hmem smsg h)
      · exact List.mem_append_right _ (List.mem_singleton_self _)
  · refine ⟨gone, ?_, ?_⟩
    · rw [hsplit, pop_cqs_of_ne hd]
    · intro smsg h
      rcases hslot d smsg h with h | ⟨hc, -⟩
      · exact hmem smsg h
      · exact absurd hc hd

theorem pendingGone_step (hgone : PendingGone as n) (hvalid : Valid n a) (h : Step n a n') :
    PendingGone (as ++ [a]) n' := by
  cases h with
  | cqCreate h =>
      obtain ⟨t', ht', hcqs, hslot, -⟩ := allocateCq_valid (t := n.transport) hvalid
      rw [h] at ht'
      cases ht'
      exact pendingGone_frame hgone (by simp) hcqs (fun c smsg hs => hslot c ▸ hs)
  | arrive c e =>
      intro d
      obtain ⟨gone, hsplit, hmem⟩ := hgone d
      refine ⟨gone, ?_, hmem⟩
      rw [arrivedAt_snoc, hsplit, List.append_assoc]
      show gone ++ _ = gone ++ Function.update n.transport.cqs c _ d
      congr 1
      by_cases hd : c = d
      · subst hd
        rw [Function.update_self]
        simp [arrivedAt]
      · rw [Function.update_of_ne (Ne.symm hd)]
        simp [arrivedAt, hd]
  | noEvent h => exact pendingGone_frame hgone (by simp) rfl (fun _ _ hs => hs)
  | event h => exact pendingGone_pop hgone h (by simp) rfl (fun _ _ hs => Or.inl hs)
  | next h hsmsg => exact pendingGone_pop hgone h (by simp) rfl (fun _ _ hs => Or.inl hs)
  | nextDropped h hdrop => exact pendingGone_pop hgone h (by simp) rfl (fun _ _ hs => Or.inl hs)
  | @nextWTag ep tag e rest smsg h hsmsg htag hin =>
      refine pendingGone_pop hgone h (by simp) rfl ?_
      intro d m hs
      obtain ⟨rfl, -⟩ := nextSmsg_eq_some.mp hsmsg
      have hs' : (if d = ep.cqId then some smsg else n.transport.slot d) = some m :=
        (setSlot_slot (t := n.transport.pop ep.cqId rest) hin (some smsg) d) ▸ hs
      by_cases hd : d = ep.cqId
      · rw [if_pos hd] at hs'
        cases hs'
        exact Or.inr ⟨hd, rfl⟩
      · rw [if_neg hd] at hs'
        exact Or.inl hs'
  | nextWTagDropped h hdrop =>
      exact pendingGone_pop hgone h (by simp) rfl (fun _ _ hs => Or.inl hs)
  | release hin hslot =>
      exact pendingGone_frame hgone (by simp) rfl (fun _ _ hs => (slot_of_cleared hin hs).2)
  | releaseNone hin hslot =>
      exact pendingGone_frame hgone (by simp) rfl (fun _ _ hs => (slot_of_cleared hin hs).2)

/-- The message at the head of a queue is not the one pending for it. -/
theorem head_not_pending {c : BitVec 32} {e : Event} {rest : List Event} {smsg : GniSmsgMessage}
    (hgone : PendingGone as n) (hdistinct : ArrivalsDistinct as)
    (hq : n.transport.cqs c = e :: rest) (hsmsg : e.nextSmsg = some smsg) :
    n.transport.slot c ≠ some smsg := by
  intro hslot
  obtain ⟨rfl, -⟩ := nextSmsg_eq_some.mp hsmsg
  obtain ⟨gone, hsplit, hmem⟩ := hgone c
  have hnodup := hdistinct c
  rw [hsplit, hq] at hnodup
  exact List.disjoint_of_nodup_append hnodup (hmem smsg hslot) (List.mem_cons_self)

/-! ## §3 — the endpoints that hold a message -/

theorem current_mem {ep : Ep} {smsg : GniSmsgMessage} (h : n.current ep = some smsg) :
    (ep, smsg) ∈ n.held := by
  obtain ⟨x, hx, rfl⟩ := Option.map_eq_some_iff.mp h
  have hep : x.1 = ep := by simpa using List.find?_some hx
  rw [← hep]
  exact List.mem_of_find?_eq_some hx

theorem current_eq_none {ep : Ep} (h : ∀ x ∈ n.held, x.1 ≠ ep) : n.current ep = none := by
  rw [Node.current, List.find?_eq_none.mpr (by simpa using h)]
  rfl

/-- What the proof carries: beside the promise itself, that a pending message is held by an endpoint
of its queue, that no two held messages belong to one queue, and where the pending messages come
from. -/
structure Holding (as : List Action) (n : Node) : Prop where
  kept : CurrentKept n
  held_of_pending : ∀ c smsg, n.transport.slot c = some smsg →
    ∃ x ∈ n.held, x.1.cqId = c ∧ x.2 = smsg
  alone : (n.held.map (·.1.cqId)).Nodup
  gone : PendingGone as n

theorem holding_start : Holding [] {} where
  kept := by
    constructor
    · intro x hx
      cases hx
    · intro r hr
      cases hr
  held_of_pending := by
    intro c smsg h
    obtain ⟨gone, hsplit, hmem⟩ := pendingGone_start c
    have hnil : gone = [] := (List.append_eq_nil_iff.mp hsplit.symm).1
    have hin := hmem smsg h
    rw [hnil] at hin
    cases hin
  alone := List.nodup_nil
  gone := pendingGone_start

/-- Steps that touch neither the table nor the held messages. -/
theorem Holding.frame (hold : Holding as n) (hgone : PendingGone (as ++ [a]) n')
    (hslot : ∀ c, n'.transport.slot c = n.transport.slot c) (hheld : n'.held = n.held)
    (hreleases : n'.releases = n.releases) : Holding (as ++ [a]) n' where
  kept := by
    constructor
    · intro x hx
      rw [hheld] at hx
      rw [hslot]
      exact hold.kept.pending x hx
    · rw [hreleases]
      exact hold.kept.exact_release
  held_of_pending := by
    intro c smsg h
    rw [hslot] at h
    rw [hheld]
    exact hold.held_of_pending c smsg h
  alone := by
    rw [hheld]
    exact hold.alone
  gone := hgone

/-- With an empty slot no endpoint of the queue holds a message. -/
theorem Holding.none_held (hold : Holding as n) {c : BitVec 32}
    (hslot : n.transport.slot c = none) : ∀ x ∈ n.held, x.1.cqId ≠ c := by
  intro x hx hc
  have hpending := hold.kept.pending x hx
  rw [hc, hslot] at hpending
  cases hpending

/-- The endpoint that holds a message is the only one of its queue that does. -/
theorem cqId_ne_of_mem_eraseP {held : List (Ep × GniSmsgMessage)} {ep : Ep}
    {smsg : GniSmsgMessage} (hmem : (ep, smsg) ∈ held)
    (halone : (held.map (·.1.cqId)).Nodup) :
    ∀ x ∈ held.eraseP (·.1 = ep), x.1.cqId ≠ ep.cqId := by
  obtain ⟨y, before, after, hbefore, hy, hsplit, herase⟩ :=
    List.exists_of_eraseP (p := (·.1 = ep)) hmem (by simp)
  have hyep : y.1 = ep := by simpa using hy
  intro x hx hc
  rw [herase] at hx
  rw [hsplit, List.map_append, List.map_cons, List.nodup_middle, ← List.map_append] at halone
  apply (List.nodup_cons.mp halone).1
  rw [hyep, ← hc]
  exact List.mem_map_of_mem hx

/-! ## §4 — one step -/

/-- A `GNI_SmsgGetNextWTag` that finds the slot empty. -/
theorem Holding.nextWTag {ep : Ep} {rest : List Event} {e : Event} {smsg : GniSmsgMessage}
    (hold : Holding as n) (hin : n.transport.InTable ep.cqId)
    (hslot : n.transport.slot ep.cqId = none)
    (hgone : PendingGone (as ++ [a])
      { n with
        transport := (n.transport.pop ep.cqId rest).setSlot ep.cqId (some smsg)
        returned := n.returned ++ [(ep.cqId, e)]
        held := (ep, smsg) :: n.held }) :
    Holding (as ++ [a])
      { n with
        transport := (n.transport.pop ep.cqId rest).setSlot ep.cqId (some smsg)
        returned := n.returned ++ [(ep.cqId, e)]
        held := (ep, smsg) :: n.held } := by
  have hother := hold.none_held hslot
  have hset : ∀ d, ((n.transport.pop ep.cqId rest).setSlot ep.cqId (some smsg)).slot d =
      if d = ep.cqId then some smsg else n.transport.slot d :=
    setSlot_slot (t := n.transport.pop ep.cqId rest) hin (some smsg)
  refine ⟨⟨?_, hold.kept.exact_release⟩, ?_, ?_, hgone⟩
  · intro x hx
    rcases List.mem_cons.mp hx with rfl | hx
    · show Transport.slot _ ep.cqId = some smsg
      rw [hset, if_pos rfl]
    · show Transport.slot _ x.1.cqId = some x.2
      rw [hset, if_neg (hother x hx)]
      exact hold.kept.pending x hx
  · intro d m hd
    have hd' : (if d = ep.cqId then some smsg else n.transport.slot d) = some m := hset d ▸ hd
    by_cases hc : d = ep.cqId
    · rw [if_pos hc] at hd'
      cases hd'
      exact ⟨(ep, smsg), List.mem_cons_self, hc.symm, rfl⟩
    · rw [if_neg hc] at hd'
      obtain ⟨x, hx, hxc, hxm⟩ := hold.held_of_pending d m hd'
      exact ⟨x, List.mem_cons_of_mem _ hx, hxc, hxm⟩
  · rw [List.map_cons, List.nodup_cons]
    refine ⟨?_, hold.alone⟩
    intro hmem
    obtain ⟨x, hx, hc⟩ := List.mem_map.mp hmem
    exact hother x hx hc

/-- A release of the message the endpoint holds. -/
theorem Holding.release {ep : Ep} {smsg : GniSmsgMessage} {r : Release} (hold : Holding as n)
    (hin : n.transport.InTable ep.cqId) (hmem : (ep, smsg) ∈ n.held) (hr : ReleaseExact r)
    (hgone : PendingGone (as ++ [a]) n')
    (hslot : ∀ d, n'.transport.slot d = (n.transport.setSlot ep.cqId none).slot d)
    (hheld : n'.held = n.held.eraseP (·.1 = ep)) (hreleases : n'.releases = n.releases ++ [r]) :
    Holding (as ++ [a]) n' := by
  have hother := cqId_ne_of_mem_eraseP hmem hold.alone
  refine ⟨⟨?_, ?_⟩, ?_, ?_, hgone⟩
  · intro x hx
    rw [hheld] at hx
    rw [hslot, setSlot_slot hin, if_neg (hother x hx)]
    exact hold.kept.pending x (List.mem_of_mem_eraseP hx)
  · intro r' hr'
    rw [hreleases] at hr'
    rcases List.mem_append.mp hr' with hr' | hr'
    · exact hold.kept.exact_release r' hr'
    · rw [List.mem_singleton.mp hr']
      exact hr
  · intro d m hd
    rw [hslot] at hd
    obtain ⟨hne, hd⟩ := slot_of_cleared hin hd
    obtain ⟨x, hx, hxc, hxm⟩ := hold.held_of_pending d m hd
    refine ⟨x, ?_, hxc, hxm⟩
    rw [hheld]
    apply (List.mem_eraseP_of_neg ?_).mpr hx
    have hne' : x.1 ≠ ep := fun heq => hne (by rw [← hxc, heq])
    simpa using hne'
  · rw [hheld]
    exact hold.alone.sublist (List.eraseP_sublist.map _)

/-- A release with nothing pending. -/
theorem Holding.releaseNone {ep : Ep} {r : Release} (hold : Holding as n)
    (hin : n.transport.InTable ep.cqId) (hslot : n.transport.slot ep.cqId = none)
    (hr : ReleaseExact r) (hgone : PendingGone (as ++ [a]) n')
    (hslot' : ∀ d, n'.transport.slot d = (n.transport.setSlot ep.cqId none).slot d)
    (hheld : n'.held = n.held.eraseP (·.1 = ep)) (hreleases : n'.releases = n.releases ++ [r]) :
    Holding (as ++ [a]) n' := by
  have herase : n.held.eraseP (·.1 = ep) = n.held := by
    apply List.eraseP_of_forall_not
    intro x hx
    have hne : x.1 ≠ ep := fun heq => hold.none_held hslot x hx (by rw [heq])
    simpa using hne
  have hsame : ∀ d, n'.transport.slot d = n.transport.slot d := by
    intro d
    rw [hslot', setSlot_slot hin]
    by_cases hd : d = ep.cqId
    · rw [if_pos hd, hd, hslot]
    · rw [if_neg hd]
  have hbefore : Holding (as ++ [a]) { n' with releases := n.releases } :=
    hold.frame hgone hsame (hheld.trans herase) rfl
  refine ⟨⟨hbefore.kept.pending, ?_⟩, hbefore.held_of_pending, hbefore.alone, hgone⟩
  intro r' hr'
  rw [hreleases] at hr'
  rcases List.mem_append.mp hr' with hr' | hr'
  · exact hold.kept.exact_release r' hr'
  · rw [List.mem_singleton.mp hr']
    exact hr

/-- Steps that meet the condition keep what the proof carries. -/
theorem holding_step (hold : Holding as n) (hvalid : Valid n a) (hfree : SlotFree n a)
    (h : Step n a n') : Holding (as ++ [a]) n' := by
  have hgone := pendingGone_step hold.gone hvalid h
  cases h with
  | cqCreate h =>
      obtain ⟨t', ht', -, hslot, -⟩ := allocateCq_valid (t := n.transport) hvalid
      rw [h] at ht'
      cases ht'
      exact hold.frame hgone hslot rfl rfl
  | arrive c e => exact hold.frame hgone (fun _ => rfl) rfl rfl
  | noEvent h => exact hold.frame hgone (fun _ => rfl) rfl rfl
  | event h => exact hold.frame hgone (fun _ => rfl) rfl rfl
  | next h hsmsg =>
      rw [SlotFree, nextSmsg_of_cons h, hsmsg] at hfree
      cases hfree
  | nextDropped h hdrop => exact hold.frame hgone (fun _ => rfl) rfl rfl
  | nextWTag h hsmsg htag hin =>
      rw [SlotFree, nextSmsg_of_cons h, hsmsg] at hfree
      exact hold.nextWTag hin (hfree htag) hgone
  | nextWTagDropped h hdrop => exact hold.frame hgone (fun _ => rfl) rfl rfl
  | @release ep smsg hin hslot =>
      rw [SlotFree, hslot] at hfree
      obtain ⟨m, hm⟩ := Option.isSome_iff_exists.mp (hfree.resolve_left (by simp))
      have hmem := current_mem hm
      have hsame : some m = some smsg := (hold.kept.pending _ hmem).symm.trans hslot
      cases hsame
      refine hold.release hin hmem ?_ hgone (fun _ => rfl) rfl rfl
      rw [ReleaseExact, hm]
      exact ⟨rfl, rfl, rfl⟩
  | releaseNone hin hslot =>
      refine hold.releaseNone hin hslot ?_ hgone (fun _ => rfl) rfl rfl
      have hnone : n.current _ = none :=
        current_eq_none fun x hx heq => hold.none_held hslot x hx (by rw [heq])
      rw [ReleaseExact, hnone]
      exact ⟨by simp, rfl, rfl⟩

/-- A step that leads to a state in which the promise holds met the condition. -/
theorem slotFree_of_kept (hold : Holding as n) (hdistinct : ArrivalsDistinct as)
    (h : Step n a n') (hkept : CurrentKept n') : SlotFree n a := by
  cases h with
  | cqCreate h => trivial
  | arrive c e => trivial
  | noEvent h => trivial
  | event h => trivial
  | next h hsmsg =>
      -- the message is current now, and the table still holds what it held before
      have hpending := hkept.pending _ List.mem_cons_self
      exact (head_not_pending hold.gone hdistinct h hsmsg hpending).elim
  | nextDropped h hdrop => rw [SlotFree, nextSmsg_of_cons h, hdrop]
  | @nextWTag ep tag e rest smsg h hsmsg htag hin =>
      intro _
      cases hslot : n.transport.slot ep.cqId with
      | none => rfl
      | some m =>
          -- the endpoint that holds `m` has lost it to the new message
          obtain ⟨x, hx, hxc, rfl⟩ := hold.held_of_pending _ m hslot
          have hpending := hkept.pending x (List.mem_cons_of_mem _ hx)
          have hnew := setSlot_slot (t := n.transport.pop ep.cqId rest) hin (some smsg) ep.cqId
          rw [if_pos rfl] at hnew
          rw [hxc] at hpending
          have hsame : some smsg = some x.2 := hnew.symm.trans hpending
          exact absurd (hsame ▸ hslot) (head_not_pending hold.gone hdistinct h hsmsg)
  | nextWTagDropped h hdrop =>
      intro hany
      rw [nextSmsg_of_cons h, Option.any_eq_true] at hany
      obtain ⟨smsg, hsmsg, htag⟩ := hany
      rw [hdrop smsg hsmsg] at htag
      cases htag
  | release hin hslot =>
      right
      have hexact := hkept.exact_release _ (List.mem_append_right _ (List.mem_singleton_self _))
      cases hcurrent : n.current _ with
      | some m => rfl
      | none =>
          rw [ReleaseExact, hcurrent] at hexact
          exact absurd rfl hexact.1
  | releaseNone hin hslot => exact Or.inl hslot

/-! ## §5 — whole runs -/

theorem arrivalsDistinct_closed (as : List Action) (a : Action)
    (h : ArrivalsDistinct (as ++ [a])) : ArrivalsDistinct as := by
  intro c
  have hc := h c
  rw [arrivedAt_snoc] at hc
  exact hc.of_append_left

/-- Deliveries of distinct objects are distinct at every queue. -/
theorem arrivalsDistinct_of_nodup (h : (arrivals as).Nodup) : ArrivalsDistinct as := by
  intro c
  refine List.Nodup.sublist ?_ h
  clear h
  induction as with
  | nil => exact List.Sublist.refl _
  | cons a as ih =>
      cases a with
      | arrive d e =>
          by_cases hd : d = c
          · simp only [arrivals, arrivedAt, List.filterMap_cons, if_pos hd]
            exact ih.cons_cons e
          · simp only [arrivals, arrivedAt, List.filterMap_cons, if_neg hd]
            exact ih.cons e
      | cqCreate newCq => exact ih
      | cqGetEvent d => exact ih
      | smsgGetNext ep => exact ih
      | smsgGetNextWTag ep tag => exact ih
      | smsgRelease ep => exact ih

/-- **When the current message is kept.** In a run on any number of endpoints and queues, every
message got is pending for its endpoint until released, and every release deletes exactly the
endpoint's own current message, if and only if no `GNI_SmsgGetNext` gets a message, no
`GNI_SmsgGetNextWTag` gets one while another is pending for the queue, and no endpoint releases what
another one got. -/
theorem current_kept_iff (as : List Action) (n : Node) (hrun : run step {} as = .ok n)
    (hvalid : StepsMeet step Valid {} as) (hdistinct : ArrivalsDistinct as) :
    EveryState step (fun _ n => CurrentKept n) {} as ↔ StepsMeet step SlotFree {} as := by
  refine everyState_iff_stepsMeet_of_invariant (J := Holding) (H := ArrivalsDistinct)
    arrivalsDistinct_closed holding_start ?_ ?_ ?_ hdistinct hrun hvalid
  · exact fun as n hold => hold.kept
  · exact fun as n a n' _ hold hV hC h => holding_step hold hV hC (Step_of_step h)
  · exact fun as n a n' hH hold _ h hP =>
      slotFree_of_kept hold (arrivalsDistinct_closed as a hH) (Step_of_step h) hP

/-- A message is got by its tag and released. -/
def getAndRelease : List Action :=
  [.cqCreate 2, .arrive 2 (.smsg (sampleSmsg 0 5)), .smsgGetNextWTag sampleGniEp 5,
    .smsgRelease sampleGniEp]

/-- A message is got with `GNI_SmsgGetNext` and released. -/
def getNextAndRelease : List Action :=
  [.cqCreate 2, .arrive 2 (.smsg (sampleSmsg 0 5)), .smsgGetNext sampleGniEp,
    .smsgRelease sampleGniEp]

/-- Two messages are got by two endpoints that share a queue. -/
def getAndGet : List Action :=
  [.cqCreate 2, .arrive 2 (.smsg (sampleSmsg 0 5)), .arrive 2 (.smsg (sampleSmsg 1 5)),
    .smsgGetNextWTag sampleGniEp 5, .smsgGetNextWTag ⟨1, 1, 2⟩ 5]

theorem current_kept_iff_sample :
    ∃ n, run step {} getAndRelease = .ok n ∧ StepsMeet step Valid {} getAndRelease ∧
      ArrivalsDistinct getAndRelease ∧
      EveryState step (fun _ n => CurrentKept n) {} getAndRelease := by
  have hdistinct : ArrivalsDistinct getAndRelease := arrivalsDistinct_of_nodup (by decide)
  exact ⟨_, rfl, by decide, hdistinct,
    (current_kept_iff _ _ rfl (by decide) hdistinct).mpr (by decide)⟩

/-- The message got by `GNI_SmsgGetNext` cannot be released, and a second get makes the first
message leave the table. -/
theorem current_not_kept :
    (∃ n, run step {} getNextAndRelease = .ok n ∧ StepsMeet step Valid {} getNextAndRelease ∧
      ArrivalsDistinct getNextAndRelease ∧
      ¬ EveryState step (fun _ n => CurrentKept n) {} getNextAndRelease) ∧
    (∃ n, run step {} getAndGet = .ok n ∧ StepsMeet step Valid {} getAndGet ∧
      ArrivalsDistinct getAndGet ∧
      ¬ EveryState step (fun _ n => CurrentKept n) {} getAndGet) := by
  refine ⟨⟨_, rfl, by decide, arrivalsDistinct_of_nodup (by decide), ?_⟩,
    ⟨_, rfl, by decide, arrivalsDistinct_of_nodup (by decide), ?_⟩⟩
  · intro hkept
    have hlast := hkept _ (List.prefix_refl _) _ rfl
    have hrelease := hlast.exact_release _ (List.mem_singleton_self _)
    exact absurd hrelease.1 (by decide)
  · intro hkept
    have hlast := hkept _ (List.prefix_refl _) _ rfl
    have hpending := hlast.pending (sampleGniEp, sampleSmsg 0 5) (by decide)
    revert hpending
    decide

end SstTransports.Ugni
