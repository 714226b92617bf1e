/-
# SstTransports.Util.Completes — a collective operation completes at every member.

Two facts about runs of sound plans make up completion.  A state from which nothing can happen that
brings the operation on is one in which every member has completed (`Sound.completes`): a member that
waits does so for a receive whose sender waits, behind a fence, for a receive of an earlier round, and
the rounds cannot decrease for ever.  And every event that brings the operation on lowers the work
that is left (`Sound.effective_le`): an item counts three as long as it waits, two while it is ready
and one while its transfer is under way.
-/
import Mathlib.Algebra.Order.BigOperators.Group.Finset
import SstTransports.Util.Network

namespace SstTransports.Util

open SstTransports.Lib

variable {β V : Type} [DecidableEq β]

/-! ## §1 — nothing is left undone -/

/-- The events that bring an operation on: not a refused send, not a message of another one. -/
def NetEvent.effective : NetEvent V → Bool
  | .progress _ ret => ret = .success
  | .other _ _ _ _ => false
  | _ => true

/-- No event that would bring the operation on can happen. -/
def Net.Stuck (handlers : Handlers V) (g : Group β V) (net : Net β V) : Prop :=
  ∀ ev : NetEvent V, ev.effective = true → ∀ net', net.step handlers g ev ≠ .ok net'

section Stuck

variable {handlers : Handlers V} {g : Group β V} {P : Nat → List (Step β V)} {net : Net β V}
  {e c : Nat → Nat} {r : Nat} {ep : CollEp β V}

theorem Inv.called (hst : net.Stuck handlers g) (hr : r < g.size) : ∃ ep, net.ep r = some ep := by
  cases hep : net.ep r with
  | some ep => exact ⟨ep, rfl⟩
  | none =>
      refine absurd ?_ (hst (.call r) rfl (net.setEp r (CollEp.entered (g.schedule r) (g.mem r))))
      simp only [Net.step, hep, if_pos hr]

theorem Inv.nothing_ready (hP : Sound handlers g P) (h : Inv handlers g P net e c)
    (hst : net.Stuck handlers g) (hep : net.ep r = some ep) : ep.readyQueue = [] := by
  by_contra hready
  obtain ⟨ep', m, hok⟩ := h.progress_ok hP hep hready .success
  exact hst (.progress r .success) rfl _ (by simp only [Net.step, hep, hok]; rfl)

/-- What is posted is a receive. -/
theorem Inv.posted_recv (h : Inv handlers g P net e c) (hst : net.Stuck handlers g)
    (hep : net.ep r = some ep) {i : Nat} {a : Step β V} (hi : i ∈ ep.posted)
    (ha : (P r)[i]? = some a) : a.work.isSend = false := by
  obtain ⟨hr, L, p, hl⟩ := h.active r ep hep
  obtain ⟨x, a', hfind, ha', hax⟩ := hl.find (k := i) (by simp [hi])
  rw [ha] at ha'
  cases ha'
  by_contra hsend
  rw [hax] at hsend
  obtain ⟨id, work, state, fence⟩ := x
  cases work with
  | send d t buf n =>
      rcases xferComp_ok [] hfind with ⟨_, ep', hok⟩ | hnot
      · exact hst (.sent r i) rfl _ (by simp only [Net.step, hep, hfind, hok]; rfl)
      · simp [CollEp.ofiCollHandleXferComp, hi, hfind] at hnot
  | recv => exact hsend rfl
  | reduce => exact hsend rfl
  | copy => exact hsend rfl
  | comp => exact hsend rfl

/-- A receive waits for a message that is not there. -/
theorem Inv.no_message (hP : Sound handlers g P) (h : Inv handlers g P net e c)
    (hst : net.Stuck handlers g) (hep : net.ep r = some ep) (hc : c r < e r) {a : Step β V}
    (ha : (P r)[c r]? = some a) {s t n : Nat} {buf : Ptr β} (hw : a.work = .recv s t buf n) :
    ours (g.tag s) (net.chan s r) = [] := by
  obtain ⟨hr, L, p, hl⟩ := h.active r ep hep
  obtain ⟨hcp, huniq⟩ : c r ∈ ep.posted ∧
      ∀ k ∈ ep.posted, ∀ a, (P r)[k]? = some a → a.work.isRecv = true → k = c r := by
    have := hl.pending
    grind
  obtain ⟨hs, rfl⟩ := hP.recvs r hr a (List.mem_of_getElem? ha) s t buf n hw
  obtain ⟨⟨id, work, state, fence⟩, a', hfind, ha', hax⟩ := hl.find (k := c r) (by simp [hcp])
  rw [ha] at ha'
  cases ha'
  rw [hw] at hax
  simp only at hax
  subst hax
  -- it is the only receive that is posted
  have hfirst : ep.firstPosted s (g.tag s) = some (c r) := by
    cases hf : ep.firstPosted s (g.tag s) with
    | none =>
        have := List.find?_eq_none.mp hf (c r) hcp
        simp [hfind] at this
    | some k =>
        have hk := List.mem_of_find?_eq_some hf
        have hpred := List.find?_some hf
        obtain ⟨⟨id', work', state', fence'⟩, b, hfind', hb, hbx⟩ := hl.find (k := k) (by simp [hk])
        refine congrArg some (huniq k hk b hb ?_)
        rw [hbx]
        cases work' <;> simp [hfind'] at hpred
        rfl
  cases htake : takeTag (g.tag s) (net.chan s r) with
  | none => exact takeTag_none htake
  | some m =>
      obtain ⟨data, rest⟩ := m
      rcases xferComp_ok data hfind with ⟨_, ep', hok⟩ | hnot
      · exact absurd (by simp only [Net.step, hep, hfind, hfirst, if_true, htake, hok]; rfl)
          (hst (.received r (c r)) rfl _)
      · simp [CollEp.ofiCollHandleXferComp, hcp, hfind] at hnot

/-- A member with something left in its queue waits for a message. -/
theorem Inv.waits_of_mem (hP : Sound handlers g P) (h : Inv handlers g P net e c)
    (hst : net.Stuck handlers g) (hep : net.ep r = some ep) {L : List (WorkItem β)} {p : Nat}
    (hl : Local handlers (P r) (g.mem r) ep L p (e r) (c r)) {x : WorkItem β} (hx : x ∈ L) :
    c r < e r ∧ ∃ a, (P r)[c r]? = some a ∧ a.work.isRecv = true := by
  have hready := h.nothing_ready hP hst hep
  -- something in the queue is under way
  obtain ⟨y, hy, hyc⟩ : ∃ y ∈ L, y.state ≠ .complete := by
    by_cases hxc : x.state = .complete
    · exact (hl.turn.lingering x hx hxc).2
    · exact ⟨x, hx, hxc⟩
  obtain ⟨hlt, hyS, hyw⟩ := hl.turn.shape.layout.item y hy
  have hyp : y.id ∈ ep.posted := by
    refine hl.turn.posted y hy ?_ ?_
    · have := hl.turn.turn
      grind
    · cases hs : y.state with
      | waiting => exact absurd hs hyw
      | processing => rfl
      | complete => exact absurd hs hyc
  rcases hl.pending with ⟨_, hnone⟩ | ⟨hce, _, ha, _⟩
  · exfalso
    obtain ⟨z, a, hfind, ha, haz⟩ := hl.find (k := y.id) (by simp [hyp])
    have hxf := hl.xfers y.id hyp a ha
    rw [h.posted_recv hst hep hyp ha, hnone y.id hyp a ha] at hxf
    cases hxf
  · exact ⟨hce, ha⟩

/-- A member that has not executed its whole plan waits behind a fence for a message. -/
theorem Inv.waits (hP : Sound handlers g P) (h : Inv handlers g P net e c)
    (hst : net.Stuck handlers g) (hr : r < g.size) (he : e r < (P r).length) :
    (c r < e r ∧ ∃ a, (P r)[c r]? = some a ∧ a.work.isRecv = true) ∧
      FenceAt (items (P r)) (e r - 1) := by
  obtain ⟨ep, hep⟩ := Inv.called hst hr
  obtain ⟨_, L, p, hl⟩ := h.active r ep hep
  have hready := h.nothing_ready hP hst hep
  obtain ⟨hep', hset⟩ : e r = p ∧ Settled (items (P r)) L p := by
    have := hl.turn.turn
    grind
  rcases hset with hlen | ⟨x, hx, hxp, hxf⟩
  · rw [length_items] at hlen
    omega
  · refine ⟨h.waits_of_mem hP hst hep hl hx, x.work, ?_⟩
    rw [show e r - 1 = x.id by omega, (hl.turn.shape.layout.item x hx).2.1, hxf]

theorem send_of_sentTo {mem : Mem β V} {dest : Nat} {Q : List (Step β V)} {m : Nat × List V}
    (h : m ∈ sentTo handlers dest mem Q) :
    ∃ (k : Nat) (b : Step β V), Q[k]? = some b ∧ b.work.isSend = true ∧ b.round = m.1 := by
  induction Q generalizing mem with
  | nil => cases h
  | cons a Q ih =>
      rcases List.mem_append.mp h with h | h
      · refine ⟨0, a, rfl, ?_⟩
        unfold Step.sends at h
        cases hw : a.work with
        | send d t buf n =>
            simp only [hw] at h
            split at h
            · rw [List.mem_singleton.mp h]
              exact ⟨rfl, rfl⟩
            · cases h
        | recv => simp [hw] at h
        | reduce => simp [hw] at h
        | copy => simp [hw] at h
        | comp => simp [hw] at h
      · obtain ⟨k, b, hb, hbs⟩ := ih h
        exact ⟨k + 1, b, by simpa using hb, hbs⟩

/-- The message for which a member waits is to be sent by one that has not got so far. -/
theorem Inv.sender_behind (hP : Sound handlers g P) (h : Inv handlers g P net e c)
    (hst : net.Stuck handlers g) (hr : r < g.size) (hc : c r < e r) {a : Step β V}
    (ha : (P r)[c r]? = some a) (hra : a.work.isRecv = true) :
    ∃ s < g.size, ∃ k b, e s ≤ k ∧ (P s)[k]? = some b ∧ b.work.isSend = true ∧ b.round = a.round := by
  obtain ⟨ep, hep⟩ := Inv.called hst hr
  cases hw : a.work with
  | recv s t buf n =>
      obtain ⟨hs, _⟩ := hP.recvs r hr a (List.mem_of_getElem? ha) s t buf n hw
      have hempty := h.no_message hP hst hep hc ha hw
      obtain ⟨ms, hms, hours⟩ := h.chan s hs r hr
      rw [hempty] at hours
      have hnil : ms = [] := by simpa using hours.symm
      subst hnil
      have htotal := hP.paired s hs r hr
      have hsplit : sentTo handlers r (g.mem s) (P s) =
          sentTo handlers r (g.mem s) ((P s).take (e s)) ++
            sentTo handlers r (memAfter handlers (g.mem s) ((P s).take (e s))) ((P s).drop (e s)) := by
        rw [← sentTo_append, List.take_append_drop]
      have hexp : expected s (P r) = expected s ((P r).take (c r)) ++ ((a.round, a.arrives) ::
          expected s ((P r).drop (c r + 1))) := by
        have hexpects : a.expects s = [(a.round, a.arrives)] := by
          simp [Step.expects, hw]
        rw [← List.singleton_append, ← hexpects, ← List.append_assoc, ← expected_succ ha,
          ← expected_append, List.take_append_drop]
      rw [hsplit, hms, List.append_nil, hexp] at htotal
      have hnext := List.append_cancel_left htotal
      obtain ⟨k, b, hb, hbs, hround⟩ := send_of_sentTo (m := (a.round, a.arrives))
        (by rw [hnext]; exact List.mem_cons_self)
      rw [List.getElem?_drop] at hb
      exact ⟨s, hs, e s + k, b, by omega, hb, hbs, hround⟩
  | send => simp [hw, CollWork.isRecv] at hra
  | reduce => simp [hw, CollWork.isRecv] at hra
  | copy => simp [hw, CollWork.isRecv] at hra
  | comp => simp [hw, CollWork.isRecv] at hra

/-- Nobody waits: the rounds for which members wait would decrease for ever. -/
theorem Inv.all_executed (hP : Sound handlers g P) (h : Inv handlers g P net e c)
    (hst : net.Stuck handlers g) (hr : r < g.size) : (P r).length ≤ e r := by
  by_contra hlt
  have descent : ∀ ρ r, r < g.size → e r < (P r).length →
      ∀ a, (P r)[c r]? = some a → a.round = ρ → False := by
    intro ρ
    induction ρ using Nat.strong_induction_on with
    | _ ρ ih =>
        intro r hr he a ha hρ
        obtain ⟨⟨hc, a', ha', hra⟩, _⟩ := h.waits hP hst hr he
        rw [ha] at ha'
        cases ha'
        obtain ⟨s, hs, k, b, hek, hb, hbs, hround⟩ := h.sender_behind hP hst hr hc ha hra
        have hks : k < (P s).length := (List.getElem?_eq_some_iff.mp hb).1
        obtain ⟨⟨hcs, as, has, hras⟩, hfence⟩ := h.waits hP hst hs (by omega)
        have hlt := hP.rounds s hs (c s) k as b has hb hras hbs
          ⟨e s - 1, by omega, by omega, hfence⟩
        exact ih as.round (by omega) s hs (by omega) as has rfl
  obtain ⟨⟨_, a, ha, _⟩, _⟩ := h.waits hP hst hr (by omega)
  exact descent a.round r hr (by omega) a ha rfl

/-- **No deadlock.**  In a state of a run from which nothing can bring the operation on, every member
has made its call, its completion function has been called, its queue is empty and its buffers are
those of the sequential execution. -/
theorem Sound.completes (hP : Sound handlers g P) {evs : List (NetEvent V)}
    (hacc : StepsMeet (Net.step handlers g) Accepts {} evs)
    (hrun : run (Net.step handlers g) {} evs = .ok net) (hst : net.Stuck handlers g)
    (hr : r < g.size) :
    ∃ ep, net.ep r = some ep ∧ ep.comps = 1 ∧ ep.workQueue = [] ∧
      ep.mem = memAfter handlers (g.mem r) (P r) := by
  obtain ⟨e, c, h⟩ := hP.inv hacc hrun
  obtain ⟨ep, hep⟩ := Inv.called hst hr
  obtain ⟨_, L, p, hl⟩ := h.active r ep hep
  have he : e r = (P r).length := by
    have hle := h.all_executed hP hst hr
    have hb := hl.turn.shape.layout.bound
    rw [length_items] at hb
    have := hl.turn.turn
    omega
  have hready := h.nothing_ready hP hst hep
  have hp : p = (P r).length := by
    have := hl.turn.turn
    grind
  have hL : L = [] := by
    by_contra hne
    obtain ⟨x, hx⟩ := List.exists_mem_of_ne_nil L hne
    have hlt := (h.waits_of_mem hP hst hep hl hx).1
    have := (he ▸ hl).pending_length (hP.short r hr) (hP.closed r hr)
    omega
  rw [he] at hl
  refine ⟨ep, hep, by rw [hl.comps, if_pos rfl], ?_, hl.finished (hP.short r hr) (hP.closed r hr)⟩
  rw [hl.turn.shape.queue, hL, hp, List.drop_eq_nil_of_le (by rw [length_queueOf, length_items])]
  rfl

/-- With empty queues nothing is left to do. -/
theorem Sound.stuck_of_empty (hP : Sound handlers g P) {evs : List (NetEvent V)}
    (hacc : StepsMeet (Net.step handlers g) Accepts {} evs)
    (hrun : run (Net.step handlers g) {} evs = .ok net)
    (hempty : ∀ r < g.size, ∃ ep, net.ep r = some ep ∧ ep.workQueue = [] ∧ ep.readyQueue = []) :
    net.Stuck handlers g := by
  obtain ⟨e, c, h⟩ := hP.inv hacc hrun
  have hep : ∀ r ep, net.ep r = some ep → ep.workQueue = [] ∧ ep.readyQueue = [] := by
    intro r ep hr
    obtain ⟨ep', hr', hq⟩ := hempty r (h.active r ep hr).1
    rw [hr] at hr'
    cases hr'
    exact hq
  intro ev heff net' hstep
  cases ev with
  | call r =>
      simp only [Net.step] at hstep
      split at hstep
      · cases hstep
      · rename_i hnone
        split at hstep
        · rename_i hr
          obtain ⟨ep, hsome, _⟩ := hempty r hr
          rw [hnone] at hsome
          cases hsome
        · cases hstep
  | progress r ret =>
      simp only [Net.step] at hstep
      split at hstep
      · cases hstep
      · rename_i ep hr
        simp [CollEp.ofiCollEpProgress, (hep r ep hr).2] at hstep
  | sent r i =>
      simp only [Net.step] at hstep
      split at hstep
      · cases hstep
      · rename_i ep hr
        simp [(hep r ep hr).1] at hstep
  | received r i =>
      simp only [Net.step] at hstep
      split at hstep
      · cases hstep
      · rename_i ep hr
        simp [(hep r ep hr).1] at hstep
  | other s d t data => cases heff

end Stuck

/-! ## §2 — the work that is left -/

/-- Three for an item that waits, two for one that is ready, one for a transfer under way. -/
def CollEp.work (ep : CollEp β V) : Nat :=
  3 * (ep.workQueue.filter (·.state = .waiting)).length + 2 * ep.readyQueue.length + ep.posted.length

/-- The work that is left to a member. -/
def Net.workOf (g : Group β V) (net : Net β V) (r : Nat) : Nat :=
  match net.ep r with
  | none => 3 * (g.schedule r).length + 1
  | some ep => ep.work

/-- The work that is left to the group. -/
def Net.work (g : Group β V) (net : Net β V) : Nat :=
  ∑ r ∈ Finset.range g.size, net.workOf g r

section Work

variable {handlers : Handlers V} {g : Group β V} {P : Nat → List (Step β V)} {net net' : Net β V}
  {e c : Nat → Nat} {r : Nat} {ep ep' : CollEp β V}

omit [DecidableEq β] in
/-- The work left to an endpoint, from how far it has got. -/
theorem Turn.work {S : List (CollWork β × Bool)} {L : List (WorkItem β)} {p n : Nat}
    (h : Turn S ep L p n) :
    ep.work + 3 * n + ep.readyQueue.length = 3 * S.length + ep.posted.length := by
  have hL : L.filter (·.state = .waiting) = [] := by
    refine List.filter_eq_nil_iff.mpr fun x hx => ?_
    simpa using (h.shape.layout.item x hx).2.2
  have hW : ((queueOf S).drop p).filter (·.state = .waiting) = (queueOf S).drop p := by
    refine List.filter_eq_self.mpr fun x hx => ?_
    have := List.mem_of_mem_drop hx
    simp only [queueOf, List.mem_mapIdx] at this
    obtain ⟨i, hi, rfl⟩ := this
    rfl
  have hwait : (ep.workQueue.filter (·.state = .waiting)).length = S.length - p := by
    rw [h.shape.queue, List.filter_append, hL, hW, List.nil_append, List.length_drop, length_queueOf]
  have hb := h.shape.layout.bound
  unfold CollEp.work
  rw [hwait]
  rcases h.turn with ⟨hr, rfl, _⟩ | ⟨hr, hp⟩
  · rw [hr]
    simp only [List.length_nil]
    omega
  · rw [hr]
    simp only [List.length_cons, List.length_nil]
    omega

omit [DecidableEq β] in
theorem length_ready_complete (ep : CollEp β V) (i : Nat) :
    ep.readyQueue.length ≤ (ep.complete i).readyQueue.length := by
  simp [CollEp.complete, CollEp.progressWork]

/-- A pass over a ready item lowers the work, unless the send goes back to the queue. -/
theorem Local.work_pass {Q : List (Step β V)} {mem : Mem β V} {L : List (WorkItem β)} {p n m : Nat}
    (h : Local handlers Q mem ep L p n m) {w : CollWork β} {ret : XferRet} {i : Nat} {rest : List Nat}
    {msg : Option (Message V)} (hr : ep.readyQueue = i :: rest)
    (hpass : Pass handlers ep i rest w ret ep' msg)
    (hacc : ret = .success ∨ ret = .eagain ∧ w.isSend = true)
    (hsup : (w.isSend || w.isRecv) = false → (w.effect handlers ep.mem).isSome = true) :
    ep'.work + (decide (ret = .success)).toNat ≤ ep.work := by
  obtain ⟨rfl, rfl⟩ : i = n ∧ rest = [] := by
    have := h.turn.turn
    grind
  have hw := h.turn.work
  rw [hr, List.length_singleton] at hw
  cases hpass with
  | handed hx =>
      obtain ⟨L', p', h'⟩ := h.turn.handed hr
      have hw' := h'.work
      have hp : ({ ep with readyQueue := [], posted := ep.posted ++ [i] } :
          CollEp β V).progressWork.posted.length = ep.posted.length + 1 := by
        simp [CollEp.progressWork]
      simp only [decide_true, Bool.toNat_true]
      omega
  | again hx =>
      refine Nat.le_of_eq ?_
      simp [CollEp.work, hr]
  | failed hx => simp at hacc
  | left ret hx =>
      exfalso
      rcases hx with ⟨hx, hret⟩ | ⟨hx, heff⟩
      · rcases hacc with hacc | ⟨_, hsend⟩
        · exact hret hacc
        · cases w <;> simp [CollWork.isSend, CollWork.isRecv] at hx hsend
      · have := hsup hx
        rw [heff] at this
        cases this
  | done ret mem' hx =>
      obtain ⟨L', p', h'⟩ := h.turn.done hr mem' (ep.comps + w.isComp.toNat)
      have hw' := h'.work
      have hp : (({ ep with readyQueue := [], mem := mem', comps := ep.comps + w.isComp.toNat } :
          CollEp β V).complete i).posted = ep.posted := rfl
      rw [hp] at hw'
      have : (decide (ret = .success)).toNat ≤ 1 := Bool.toNat_le _
      omega

/-- A completed transfer lowers the work. -/
theorem Turn.work_xferComp {S : List (CollWork β × Bool)} {L : List (WorkItem β)} {p n i : Nat}
    (h : Turn S ep L p n) (hs : Short S) {data : List V}
    (hcomp : ep.ofiCollHandleXferComp i data = .ok ep') : ep'.work < ep.work := by
  unfold CollEp.ofiCollHandleXferComp at hcomp
  split at hcomp
  · rename_i hi
    have lower : ∀ mem, (({ ep with posted := ep.posted.erase i, mem := mem } :
        CollEp β V).complete i).work < ep.work := by
      intro mem
      obtain ⟨L', p', h'⟩ := h.xferComp hs hi mem
      have hw := h.work
      have hw' := h'.work
      have hr := length_ready_complete { ep with posted := ep.posted.erase i, mem := mem } i
      have hp : (({ ep with posted := ep.posted.erase i, mem := mem } :
          CollEp β V).complete i).posted.length = ep.posted.length - 1 := by
        show (ep.posted.erase i).length = _
        exact List.length_erase_of_mem hi
      have hpos := List.length_pos_of_mem hi
      simp only at hr
      omega
    split at hcomp
    · cases hcomp
    · split at hcomp
      · cases hcomp
        exact lower _
      · cases hcomp
        exact lower _
  · cases hcomp

omit [DecidableEq β] in
/-- Only one member moves. -/
theorem work_le_of_ep (hr : r < g.size) (hne : ∀ q, q ≠ r → net'.ep q = net.ep q) {k : Nat}
    (hk : net'.workOf g r + k ≤ net.workOf g r) : net'.work g + k ≤ net.work g := by
  unfold Net.work
  have hmem : r ∈ Finset.range g.size := Finset.mem_range.mpr hr
  rw [← Finset.add_sum_erase _ (net'.workOf g) hmem, ← Finset.add_sum_erase _ (net.workOf g) hmem]
  have hrest : ∑ q ∈ (Finset.range g.size).erase r, net'.workOf g q =
      ∑ q ∈ (Finset.range g.size).erase r, net.workOf g q := by
    refine Finset.sum_congr rfl fun q hq => ?_
    unfold Net.workOf
    rw [hne q (Finset.ne_of_mem_erase hq)]
  omega

omit [DecidableEq β] in
theorem work_setEp (hr : r < g.size) (hep : net.ep r = some ep) {k : Nat}
    (hk : ep'.work + k ≤ ep.work) (hnet : net'.ep = (net.setEp r ep').ep) :
    net'.work g + k ≤ net.work g := by
  refine work_le_of_ep hr ?_ ?_
  · intro q hq
    simp [hnet, Net.setEp, Function.update_of_ne hq]
  · simpa [Net.workOf, hnet, Net.setEp, hep] using hk

/-- Every event that brings the operation on lowers the work that is left; no event adds work. -/
theorem Inv.work_step (hP : Sound handlers g P) (h : Inv handlers g P net e c) {ev : NetEvent V}
    (hacc : Accepts net ev) (hstep : net.step handlers g ev = .ok net') :
    net'.work g + ev.effective.toNat ≤ net.work g := by
  cases ev with
  | call r =>
      simp only [Net.step] at hstep
      split at hstep
      · cases hstep
      · rename_i hep
        split at hstep
        · rename_i hr
          cases hstep
          refine work_le_of_ep hr ?_ ?_
          · intro q hq
            simp [Net.setEp, Function.update_of_ne hq]
          · obtain ⟨L, p, hl⟩ := (Local.entered (hP.closed r hr) :
              ∃ L p, Local handlers (P r) (g.mem r) (CollEp.entered (items (P r)) (g.mem r)) L p 0 0)
            have hw := hl.turn.work
            have hposted : (CollEp.entered (items (P r)) (g.mem r)).posted = [] := rfl
            rw [hposted, List.length_nil, ← hP.schedule r hr] at hw
            simp only [Net.workOf, Net.setEp, Function.update_self, hep, NetEvent.effective,
              Bool.toNat_true]
            omega
        · cases hstep
  | progress r ret =>
      simp only [Net.step] at hstep
      split at hstep
      · cases hstep
      · rename_i ep hep
        split at hstep
        · cases hstep
        · rename_i ep' m hprog
          cases hstep
          obtain ⟨hr, L, p, hl⟩ := h.active r ep hep
          obtain ⟨i, rest, x, hready, hfind, hpass⟩ := pass_of_progress hprog
          obtain ⟨x', a, hfind', ha, hax⟩ := hl.find (k := i) (by simp [hready])
          rw [hfind] at hfind'
          cases hfind'
          refine work_setEp hr hep (hl.work_pass hready hpass ?_ ?_) (put_ep m)
          · rcases hacc with hacc | ⟨hacc, hsend⟩
            · exact .inl hacc
            · exact .inr ⟨hacc, by simpa [Net.nextIsSend, hep, hready, hfind] using hsend⟩
          · intro hx
            have hsup := hP.supported r hr a (List.mem_of_getElem? ha)
            rw [hax] at hsup
            exact hsup hx ep.mem
  | sent r i =>
      simp only [Net.step] at hstep
      split at hstep
      · cases hstep
      · rename_i ep hep
        split at hstep
        · split at hstep
          · cases hstep
          · rename_i ep' hcomp
            cases hstep
            obtain ⟨hr, L, p, hl⟩ := h.active r ep hep
            exact work_setEp hr hep (hl.turn.work_xferComp (hP.short r hr) hcomp) rfl
        · cases hstep
  | received r i =>
      simp only [Net.step] at hstep
      split at hstep
      · cases hstep
      · rename_i ep hep
        split at hstep
        · split at hstep
          · split at hstep
            · cases hstep
            · split at hstep
              · cases hstep
              · rename_i ep' hcomp
                cases hstep
                obtain ⟨hr, L, p, hl⟩ := h.active r ep hep
                exact work_setEp hr hep (hl.turn.work_xferComp (hP.short r hr) hcomp) rfl
          · cases hstep
        · cases hstep
  | other s d t data =>
      simp only [Net.step] at hstep
      split at hstep
      · cases hstep
      · cases hstep
        exact Nat.le_refl _

/-- **A bound on the length of an operation.**  However the events interleave, those that bring the
operation on are at most three for each item of the schedules and one for each member. -/
theorem Sound.effective_le (hP : Sound handlers g P) {evs : List (NetEvent V)}
    (hacc : StepsMeet (Net.step handlers g) Accepts {} evs)
    (hrun : run (Net.step handlers g) {} evs = .ok net) :
    evs.countP (·.effective) ≤ ∑ r ∈ Finset.range g.size, (3 * (g.schedule r).length + 1) := by
  have h : (∃ e c, Inv handlers g P net e c) ∧
      net.work g + evs.countP (·.effective) ≤ ({} : Net β V).work g := by
    refine run_induction_of_stepsMeet (H := fun _ => True)
      (P := fun evs net => (∃ e c, Inv handlers g P net e c) ∧
        net.work g + evs.countP (·.effective) ≤ ({} : Net β V).work g)
      (fun _ _ h => h) ⟨⟨_, _, Inv.start⟩, by simp⟩ ?_ trivial hrun hacc
    rintro as s ev s' _ ⟨⟨e, c, h⟩, hle⟩ hC hstep
    refine ⟨h.step hP hC hstep, ?_⟩
    have hw := h.work_step hP hC hstep
    rw [List.countP_append, List.countP_singleton]
    cases hev : ev.effective <;> simp only [hev, Bool.toNat_true, Bool.toNat_false] at hw ⊢ <;> simp <;>
      omega
  have hstart : ({} : Net β V).work g =
      ∑ r ∈ Finset.range g.size, (3 * (g.schedule r).length + 1) := rfl
  omega

end Work

/-! ## §3 — operations that compute something -/

/-- What is asked of a collective operation, in every run in which the provider accepts the transfers:
the members end with buffers of which `Q` holds. -/
structure Computes (handlers : Handlers V) (g : Group β V) (bound : Nat)
    (Q : Nat → Mem β V → Prop) : Prop where
  /-- no freed item is used and no null function called -/
  safe : ∀ evs, StepsMeet (Net.step handlers g) Accepts {} evs →
    run (Net.step handlers g) {} evs ≠ .error .fault
  /-- a completion function is called once, and when it is called the result is there -/
  result : ∀ evs net, StepsMeet (Net.step handlers g) Accepts {} evs →
    run (Net.step handlers g) {} evs = .ok net → ∀ r ep, net.ep r = some ep → ep.comps ≠ 0 →
      ep.comps = 1 ∧ Q r ep.mem
  /-- only so many events bring the operation on -/
  bounded : ∀ evs net, StepsMeet (Net.step handlers g) Accepts {} evs →
    run (Net.step handlers g) {} evs = .ok net → evs.countP (·.effective) ≤ bound
  /-- when none of them is possible any more, every member has completed -/
  complete : ∀ evs net, StepsMeet (Net.step handlers g) Accepts {} evs →
    run (Net.step handlers g) {} evs = .ok net → net.Stuck handlers g →
      ∀ r < g.size, ∃ ep, net.ep r = some ep ∧ ep.comps = 1 ∧ ep.workQueue = []

omit [DecidableEq β] in
/-- An event that brings the operation on is accepted. -/
theorem accepts_of_effective {net : Net β V} {ev : NetEvent V} (h : ev.effective = true) :
    Accepts net ev := by
  cases ev with
  | progress r ret => exact .inl (by simpa [NetEvent.effective] using h)
  | call r => trivial
  | sent r i => trivial
  | received r i => trivial
  | other s d t data => trivial

/-- Every run can be continued until every member has completed. -/
theorem Computes.continues {handlers : Handlers V} {g : Group β V} {bound : Nat}
    {Q : Nat → Mem β V → Prop} (h : Computes handlers g bound Q) (evs : List (NetEvent V)) {net : Net β V}
    (hacc : StepsMeet (Net.step handlers g) Accepts {} evs)
    (hrun : run (Net.step handlers g) {} evs = .ok net) :
    ∃ evs' net', StepsMeet (Net.step handlers g) Accepts {} (evs ++ evs') ∧
      run (Net.step handlers g) {} (evs ++ evs') = .ok net' ∧ ∀ r < g.size, ∃ ep,
        net'.ep r = some ep ∧ ep.comps = 1 ∧ Q r ep.mem := by
  generalize hk : bound - evs.countP (·.effective) = k
  induction k using Nat.strongRecOn generalizing evs net with
  | _ k ih =>
      by_cases hst : net.Stuck handlers g
      · refine ⟨[], net, by rwa [List.append_nil], by rwa [List.append_nil], fun r hr => ?_⟩
        obtain ⟨ep, hep, hc, _⟩ := h.complete evs net hacc hrun hst r hr
        exact ⟨ep, hep, h.result evs net hacc hrun r ep hep (by omega)⟩
      · simp only [Net.Stuck, not_forall, ne_eq, not_not, exists_prop] at hst
        obtain ⟨ev, heff, net', hstep⟩ := hst
        have hacc' : StepsMeet (Net.step handlers g) Accepts {} (evs ++ [ev]) :=
          (stepsMeet_snoc_of_run hrun).mpr ⟨hacc, accepts_of_effective heff⟩
        have hrun' : run (Net.step handlers g) {} (evs ++ [ev]) = .ok net' :=
          run_snoc_ok.mpr ⟨net, hrun, hstep⟩
        have hle := h.bounded _ _ hacc' hrun'
        have hcount : (evs ++ [ev]).countP (·.effective) = evs.countP (·.effective) + 1 := by
          simp [heff]
        obtain ⟨evs', net'', hacc'', hrun'', hall⟩ := ih (bound - (evs ++ [ev]).countP (·.effective))
          (by omega) (evs ++ [ev]) hacc' hrun' rfl
        rw [← List.append_cons] at hacc'' hrun''
        exact ⟨ev :: evs', net'', hacc'', hrun'', hall⟩

/-- Sound plans compute what their sequential execution leaves in the buffers. -/
theorem Sound.computes {handlers : Handlers V} {g : Group β V} {P : Nat → List (Step β V)}
    (hP : Sound handlers g P) {Q : Nat → Mem β V → Prop} {bound : Nat}
    (hbound : ∑ r ∈ Finset.range g.size, (3 * (P r).length + 1) ≤ bound)
    (hQ : ∀ r < g.size, Q r (memAfter handlers (g.mem r) (P r))) :
    Computes handlers g bound Q where
  safe := fun _ hacc => hP.no_fault hacc
  result := by
    intro evs net hacc hrun r ep hep hc
    obtain ⟨e, c, hinv⟩ := hP.inv hacc hrun
    obtain ⟨hone, hmem⟩ := hP.mem_of_comps hacc hrun hep hc
    refine ⟨hone, ?_⟩
    rw [hmem]
    exact hQ r (hinv.active r ep hep).1
  bounded := by
    intro evs net hacc hrun
    refine (hP.effective_le hacc hrun).trans (le_of_eq_of_le ?_ hbound)
    refine Finset.sum_congr rfl fun r hr => ?_
    rw [hP.schedule r (Finset.mem_range.mp hr), length_items]
  complete := by
    intro evs net hacc hrun hst r hr
    obtain ⟨ep, hep, hc, hq, _⟩ := hP.completes hacc hrun hst hr
    exact ⟨ep, hep, hc, hq⟩

end SstTransports.Util
