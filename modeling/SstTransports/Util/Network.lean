/-
# SstTransports.Util.Network — the members of a group running one collective operation.

Every member has an endpoint with its own schedule; the messages between two members wait in a
channel, in the order in which they were sent, until a receive with their tag takes them.  Members
make their call at different times, ready items are processed and transfers complete in any order,
sends may be refused with `-FI_EAGAIN`, and messages of other operations may be in the channels.

Plans for the members are sound together if what every member sends, executing its items one after the
other, is what the others expect.  Then, whatever the interleaving:

* a member whose completion function has been called has the buffers of the sequential execution
  (`Sound.mem_of_comps`);
* no freed item is used and no null function called (`Sound.no_fault`).

That the completion functions are called is the subject of `SstTransports.Util.Completes`.
-/
import SstTransports.Util.Plan

namespace SstTransports.Util

open SstTransports.Lib

variable {β V : Type} [DecidableEq β]

/-! ## §1 — the system -/

/-- The members of a group and what their calls schedule.  A member is at the place of its local rank,
which is its index in the address vector whatever the group (`util_coll_find_local_rank`): so the group
is that of the world or of its first endpoints.  With other members the schedules do not fit together.
An endpoint is in no other operation in the meantime, but there may be messages of others, with other
tags. -/
structure Group (β V : Type) where
  size : Nat
  /-- the tag of the messages that a member sends -/
  tag : Nat → Nat
  schedule : Nat → List (CollWork β × Bool)
  /-- the buffers of a member when it has made its call -/
  mem : Nat → Mem β V

/-- The endpoints, those that have made their call, and the channels with their messages. -/
structure Net (β V : Type) where
  ep : Nat → Option (CollEp β V) := fun _ => none
  chan : Nat → Nat → List (Nat × List V) := fun _ _ => []

/-- The first message with a tag, and the others. -/
def takeTag (tag : Nat) : List (Nat × List V) → Option (List V × List (Nat × List V))
  | [] => none
  | m :: rest =>
    if m.1 = tag then some (m.2, rest)
    else (takeTag tag rest).map fun x => (x.1, m :: x.2)

/-- The first posted receive for a tag of a member. -/
def CollEp.firstPosted (ep : CollEp β V) (src tag : Nat) : Option Nat :=
  ep.posted.find? fun k =>
    match ep.workQueue.find? (·.id = k) with
    | some ⟨_, .recv src' tag' _ _, _, _⟩ => src' = src && tag' = tag
    | _ => false

inductive NetEvent (V : Type) where
  /-- the member makes its call -/
  | call (r : Nat)
  /-- a pass of the progress loop; the provider's answer if it comes to a transfer -/
  | progress (r : Nat) (ret : XferRet)
  /-- a send completes -/
  | sent (r i : Nat)
  /-- a receive takes its message -/
  | received (r i : Nat)
  /-- a message of another operation -/
  | other (src dest tag : Nat) (data : List V)
  deriving DecidableEq

namespace Net

def setEp (net : Net β V) (r : Nat) (ep : CollEp β V) : Net β V :=
  { net with ep := Function.update net.ep r (some ep) }

def setChan (net : Net β V) (src dest : Nat) (c : List (Nat × List V)) : Net β V :=
  { net with chan := Function.update net.chan src (Function.update (net.chan src) dest c) }

/-- Give a message to the provider. -/
def put (net : Net β V) (src : Nat) : Option (Message V) → Net β V
  | none => net
  | some m => net.setChan src m.dest (net.chan src m.dest ++ [(m.tag, m.data)])

/-- One event. -/
def step (handlers : Handlers V) (g : Group β V) (net : Net β V) :
    NetEvent V → Except Stop (Net β V)
  | .call r =>
    match net.ep r with
    | some _ => .error .notDue
    | none =>
      if r < g.size then .ok (net.setEp r (CollEp.entered (g.schedule r) (g.mem r)))
      else .error .notDue
  | .progress r ret =>
    match net.ep r with
    | none => .error .notDue
    | some ep =>
      match ep.ofiCollEpProgress handlers ret with
      | .error e => .error e
      | .ok (ep', m) => .ok ((net.setEp r ep').put r m)
  | .sent r i =>
    match net.ep r with
    | none => .error .notDue
    | some ep =>
      match ep.workQueue.find? (·.id = i) with
      | some ⟨_, .send _ _ _ _, _, _⟩ =>
        match ep.ofiCollHandleXferComp i [] with
        | .error e => .error e
        | .ok ep' => .ok (net.setEp r ep')
      | _ => .error .notDue
  | .received r i =>
    match net.ep r with
    | none => .error .notDue
    | some ep =>
      match ep.workQueue.find? (·.id = i) with
      | some ⟨_, .recv src tag _ _, _, _⟩ =>
        if ep.firstPosted src tag = some i then
          match takeTag tag (net.chan src r) with
          | none => .error .notDue
          | some (data, rest) =>
            match ep.ofiCollHandleXferComp i data with
            | .error e => .error e
            | .ok ep' => .ok ((net.setEp r ep').setChan src r rest)
        else .error .notDue
      | _ => .error .notDue
  | .other src dest tag data =>
    if tag = g.tag src then .error .notDue
    else .ok (net.setChan src dest (net.chan src dest ++ [(tag, data)]))

end Net

/-- The run comes to a state in which every member's completion function has been called once and its
queues are empty. -/
def Net.finished (g : Group β V) : Except Stop (Net β V) → Bool
  | .ok net => (List.range g.size).all fun r => (net.ep r).any fun ep =>
      ep.comps = 1 && ep.workQueue.isEmpty && ep.readyQueue.isEmpty
  | .error _ => false

omit [DecidableEq β] in
theorem Net.exists_of_finished {g : Group β V} {x : Except Stop (Net β V)}
    (h : Net.finished g x = true) : ∃ net, x = .ok net ∧ ∀ r < g.size, ∃ ep, net.ep r = some ep ∧
      ep.comps = 1 ∧ ep.workQueue = [] ∧ ep.readyQueue = [] := by
  cases x with
  | error e => cases h
  | ok net =>
      refine ⟨net, rfl, fun r hr => ?_⟩
      simp only [finished, List.all_eq_true, List.mem_range, Option.any_eq_true] at h
      obtain ⟨ep, hep, hq⟩ := h r hr
      simp only [Bool.and_eq_true, decide_eq_true_eq, List.isEmpty_iff] at hq
      exact ⟨ep, hep, hq.1.1, hq.1.2, hq.2⟩

/-! ## §2 — sound plans -/

/-- Plans for the members of a group that fit together. -/
structure Sound (handlers : Handlers V) (g : Group β V) (P : Nat → List (Step β V)) : Prop where
  schedule : ∀ r < g.size, g.schedule r = items (P r)
  closed : ∀ r < g.size, Closed (items (P r))
  short : ∀ r < g.size, Short (items (P r))
  quiet : ∀ r < g.size, Quiet (P r)
  /-- transfers are with members and carry the sender's tag -/
  sends : ∀ r < g.size, ∀ a ∈ P r, ∀ d t buf n, a.work = .send d t buf n → d < g.size ∧ t = g.tag r
  recvs : ∀ r < g.size, ∀ a ∈ P r, ∀ s t buf n, a.work = .recv s t buf n → s < g.size ∧ t = g.tag s
  /-- what is sent is what is expected -/
  paired : ∀ s < g.size, ∀ r < g.size, sentTo handlers r (g.mem s) (P s) = expected s (P r)
  /-- a send behind a fence behind a receive belongs to a later round -/
  rounds : ∀ r < g.size, ∀ i j a b, (P r)[i]? = some a → (P r)[j]? = some b →
    a.work.isRecv = true → b.work.isSend = true → (∃ f, i ≤ f ∧ f < j ∧ FenceAt (items (P r)) f) →
    a.round < b.round
  supported : ∀ r < g.size, ∀ a ∈ P r, (a.work.isSend || a.work.isRecv) = false →
    ∀ m, (a.work.effect handlers m).isSome = true

/-- The data of the messages with a tag. -/
def ours (tag : Nat) (c : List (Nat × List V)) : List (List V) :=
  (c.filter fun m => m.1 = tag).map (·.2)

section Ours

variable {tag : Nat} {c : List (Nat × List V)}

theorem takeTag_some {data : List V} {rest : List (Nat × List V)}
    (h : takeTag tag c = some (data, rest)) : ours tag c = data :: ours tag rest := by
  induction c generalizing rest with
  | nil => cases h
  | cons m c ih =>
      unfold takeTag at h
      split at h
      · rename_i hm
        cases h
        simp [ours, hm]
      · rename_i hm
        obtain ⟨⟨d, c'⟩, hc, heq⟩ := Option.map_eq_some_iff.mp h
        cases heq
        have := ih hc
        simp only [ours] at this ⊢
        simp [hm, this]

theorem takeTag_none (h : takeTag tag c = none) : ours tag c = [] := by
  induction c with
  | nil => rfl
  | cons m c ih =>
      unfold takeTag at h
      split at h
      · cases h
      · rename_i hm
        have := ih (Option.map_eq_none_iff.mp h)
        simp only [ours] at this ⊢
        simpa [hm] using this

end Ours

/-- The members have executed the first `e` items of their plans and the receives before `c` have got
their messages; what was sent and not received is in the channels. -/
structure Inv (handlers : Handlers V) (g : Group β V) (P : Nat → List (Step β V)) (net : Net β V)
    (e c : Nat → Nat) : Prop where
  idle : ∀ r, net.ep r = none → e r = 0 ∧ c r = 0
  active : ∀ r ep, net.ep r = some ep →
    r < g.size ∧ ∃ L p, Local handlers (P r) (g.mem r) ep L p (e r) (c r)
  chan : ∀ s < g.size, ∀ r < g.size, ∃ ms,
    sentTo handlers r (g.mem s) ((P s).take (e s)) = expected s ((P r).take (c r)) ++ ms ∧
      ours (g.tag s) (net.chan s r) = ms.map (·.2)

/-- The next ready item of a member is a send. -/
def Net.nextIsSend (net : Net β V) (r : Nat) : Bool :=
  match net.ep r with
  | none => false
  | some ep =>
    match ep.readyQueue with
    | [] => false
    | i :: _ => (ep.workQueue.find? (·.id = i)).any (·.work.isSend)

/-- The provider does not refuse a transfer, or refuses a send with `-FI_EAGAIN`. -/
def Accepts (net : Net β V) : NetEvent V → Prop
  | .progress r ret => ret = .success ∨ ret = .eagain ∧ net.nextIsSend r = true
  | _ => True

instance (net : Net β V) : ∀ ev : NetEvent V, Decidable (Accepts net ev)
  | .progress r ret =>
    inferInstanceAs (Decidable (ret = .success ∨ ret = .eagain ∧ net.nextIsSend r = true))
  | .call _ => .isTrue trivial
  | .sent _ _ => .isTrue trivial
  | .received _ _ => .isTrue trivial
  | .other _ _ _ _ => .isTrue trivial

/-! ## §3 — one event -/

section Step

variable {handlers : Handlers V} {g : Group β V} {P : Nat → List (Step β V)} {net net' : Net β V}
  {e c : Nat → Nat} {r : Nat} {ep ep' : CollEp β V}

omit [DecidableEq β] in
theorem put_ep (m : Option (Message V)) : (net.put r m).ep = net.ep := by
  cases m <;> rfl

omit [DecidableEq β] in
theorem put_chan_ne (m : Option (Message V)) {s : Nat} (hs : s ≠ r) (q : Nat) :
    (net.put r m).chan s q = net.chan s q := by
  cases m with
  | none => rfl
  | some m => simp [Net.put, Net.setChan, Function.update_of_ne hs]

omit [DecidableEq β] in
/-- What a message adds to the channels of its sender. -/
theorem ours_put (m : Option (Message V)) (tag q : Nat) (hm : ∀ x ∈ m, x.tag = tag) :
    ours tag ((net.put r m).chan r q) =
      ours tag (net.chan r q) ++ (m.toList.filter fun x => x.dest = q).map (·.data) := by
  cases m with
  | none => simp [Net.put]
  | some m =>
      have ht : m.tag = tag := hm m rfl
      by_cases hq : m.dest = q
      · subst hq
        simp [Net.put, Net.setChan, ours, ht]
      · simp [Net.put, Net.setChan, ours, hq, Function.update_of_ne (Ne.symm hq)]

/-- A member goes on with its plan; what it sends is put into the channels. -/
theorem Inv.advance (h : Inv handlers g P net e c) (hep : net.ep r = some ep) (e' c' : Nat)
    (hl : ∃ L p, Local handlers (P r) (g.mem r) ep' L p e' c') (m : Option (Message V))
    (hm : ∀ x ∈ m, x.tag = g.tag r)
    (hsent : ∀ q, ∃ ms, sentTo handlers q (g.mem r) ((P r).take e') =
        sentTo handlers q (g.mem r) ((P r).take (e r)) ++ ms ∧
      (m.toList.filter fun x => x.dest = q).map (·.data) = ms.map (·.2))
    (hexp : ∀ s, expected s ((P r).take c') = expected s ((P r).take (c r))) :
    Inv handlers g P ((net.setEp r ep').put r m) (Function.update e r e')
      (Function.update c r c') := by
  obtain ⟨hr, _⟩ := h.active r ep hep
  refine ⟨?_, ?_, ?_⟩
  · intro q hq
    rw [put_ep] at hq
    have hne : q ≠ r := by
      rintro rfl
      simp [Net.setEp] at hq
    rw [Function.update_of_ne hne, Function.update_of_ne hne]
    refine h.idle q ?_
    simpa [Net.setEp, Function.update_of_ne hne] using hq
  · intro q epq hq
    rw [put_ep] at hq
    by_cases hne : q = r
    · subst hne
      simp only [Net.setEp, Function.update_self, Option.some.injEq] at hq
      subst hq
      simpa using ⟨hr, hl⟩
    · rw [Function.update_of_ne hne, Function.update_of_ne hne]
      refine h.active q epq ?_
      simpa [Net.setEp, Function.update_of_ne hne] using hq
  · intro s hs q hq
    obtain ⟨ms, hms, hours⟩ := h.chan s hs q hq
    have hexp' : expected s ((P q).take (Function.update c r c' q)) =
        expected s ((P q).take (c q)) := by
      by_cases hqr : q = r
      · subst hqr
        rw [Function.update_self, hexp]
      · rw [Function.update_of_ne hqr]
    rw [hexp']
    by_cases hsr : s = r
    · subst hsr
      obtain ⟨ms', hms', hdata⟩ := hsent q
      refine ⟨ms ++ ms', ?_, ?_⟩
      · rw [Function.update_self, hms', hms, List.append_assoc]
      · rw [ours_put m _ q hm, hdata, List.map_append, ← hours]
        rfl
    · rw [Function.update_of_ne hsr, put_chan_ne m hsr]
      exact ⟨ms, hms, hours⟩

/-- The item of the plan that a ready or posted number stands for. -/
theorem Local.find {Q : List (Step β V)} {mem : Mem β V} {L : List (WorkItem β)} {p n m k : Nat}
    (h : Local handlers Q mem ep L p n m) (hk : k ∈ ep.readyQueue ++ ep.posted) :
    ∃ x a, ep.workQueue.find? (·.id = k) = some x ∧ Q[k]? = some a ∧ a.work = x.work := by
  obtain ⟨x, _, hfind, _, hS, _⟩ := h.turn.shape.find (k := k) (by simpa using hk)
  rw [getElem?_items] at hS
  obtain ⟨a, ha, hw⟩ := Option.map_eq_some_iff.mp hS
  exact ⟨x, a, hfind, ha, (Prod.mk.inj hw).1⟩

/-- A pass of the progress loop. -/
theorem Inv.progress (hP : Sound handlers g P) (h : Inv handlers g P net e c)
    (hep : net.ep r = some ep) {ret : XferRet} {m : Option (Message V)}
    (hacc : Accepts net (.progress r ret)) (hprog : ep.ofiCollEpProgress handlers ret = .ok (ep', m)) :
    ∃ e' c', Inv handlers g P ((net.setEp r ep').put r m) e' c' := by
  obtain ⟨hr, L, p, hl⟩ := h.active r ep hep
  obtain ⟨i, rest, x, hready, hfind, hpass⟩ := pass_of_progress hprog
  obtain ⟨x', a, hfind', ha, hax⟩ := hl.find (k := i) (by simp [hready])
  rw [hfind] at hfind'
  cases hfind'
  obtain ⟨rfl, rfl⟩ : i = e r ∧ rest = [] := by
    have := hl.turn.turn
    grind
  have hmem : a ∈ P r := List.mem_of_getElem? ha
  have hs := hP.short r hr
  have hq := hP.quiet r hr
  have hcl := hP.closed r hr
  rw [← hax] at hpass
  cases hpass with
  | handed hw =>
      cases hwork : a.work with
      | send d t buf count =>
          obtain ⟨hdata, L', p', c', hl', hexp⟩ := hl.send hs hq hcl hready ha hwork
          obtain ⟨hd, ht⟩ := hP.sends r hr a hmem d t buf count hwork
          refine ⟨_, _, h.advance hep _ _ ⟨L', p', hl'⟩ _ ?_ ?_ hexp⟩
          · intro y hy
            simp only [CollWork.message, Option.mem_def, Option.some.injEq] at hy
            rw [← hy]
            exact ht
          · intro q
            refine ⟨a.sends (memAfter handlers (g.mem r) ((P r).take (e r))) q, sentTo_succ ha, ?_⟩
            by_cases hdq : d = q
            · simp [CollWork.message, Step.sends, hwork, hdq, hdata]
            · simp [CollWork.message, Step.sends, hwork, hdq]
      | recv s t buf count =>
          obtain ⟨hce, L', p', hl'⟩ := hl.recv hs hq hcl hready ha (by rw [hwork]; rfl)
          refine ⟨_, _, h.advance hep _ _ ⟨L', p', hl'⟩ _ (by simp [CollWork.message]) ?_ ?_⟩
          · intro q
            refine ⟨[], ?_, by simp [CollWork.message]⟩
            rw [sentTo_succ ha]
            simp [Step.sends, hwork]
          · intro s
            rw [hce]
      | reduce => simp [hwork, CollWork.isSend, CollWork.isRecv] at hw
      | copy => simp [hwork, CollWork.isSend, CollWork.isRecv] at hw
      | comp => simp [hwork, CollWork.isSend, CollWork.isRecv] at hw
  | again hw =>
      refine ⟨_, _, h.advance hep (e r) (c r) ⟨L, p, ?_⟩ none (by simp) ?_ ?_⟩
      · have hsame : ({ ep with readyQueue := [] ++ [e r] } : CollEp β V) = ep := by
          rw [List.nil_append, ← hready]
        rw [hsame]
        exact hl
      · exact fun q => ⟨[], by simp, rfl⟩
      · exact fun s => rfl
  | failed hw => simp [Accepts] at hacc
  | left ret hw =>
      exfalso
      rcases hw with ⟨hw, hret⟩ | ⟨hw, heff⟩
      · rcases hacc with hacc | ⟨_, hacc⟩
        · exact hret hacc
        · simp only [Net.nextIsSend, hep, hready, hfind, Option.any_some, ← hax] at hacc
          cases hwork : a.work <;> simp [hwork, CollWork.isSend, CollWork.isRecv] at hw hacc
      · have := hP.supported r hr a hmem hw ep.mem
        rw [heff] at this
        cases this
  | done ret m hw =>
      obtain ⟨hce, L', p', hl'⟩ := hl.exec hs hq hcl hready ha hw
      refine ⟨_, _, h.advance hep _ _ ⟨L', p', hl'⟩ none (by simp) ?_ ?_⟩
      · intro q
        refine ⟨[], ?_, rfl⟩
        rw [sentTo_succ ha]
        cases hwork : a.work <;> simp [Step.sends, hwork, CollWork.effect] at hw ⊢
      · intro s
        rw [expected_succ ha, hce]
        cases hwork : a.work <;> simp [Step.expects, hwork, CollWork.effect] at hw ⊢

/-- A send completes. -/
theorem Inv.sent (hP : Sound handlers g P) (h : Inv handlers g P net e c)
    (hep : net.ep r = some ep) {i : Nat} {x : WorkItem β} (hfind : ep.workQueue.find? (·.id = i) = some x)
    (hx : x.work.isSend = true) (hcomp : ep.ofiCollHandleXferComp i [] = .ok ep') :
    ∃ e' c', Inv handlers g P (net.setEp r ep') e' c' := by
  obtain ⟨hr, L, p, hl⟩ := h.active r ep hep
  unfold CollEp.ofiCollHandleXferComp at hcomp
  split at hcomp
  · rename_i hi
    obtain ⟨x', a, hfind', ha, hax⟩ := hl.find (k := i) (by simp [hi])
    rw [hfind] at hfind'
    cases hfind'
    obtain ⟨L', p', hl'⟩ := hl.sent (hP.short r hr) hi ha (by rw [hax]; exact hx)
    have hep' : ep' = { ep with posted := ep.posted.erase i }.complete i := by
      cases hwork : x.work <;> simp [hwork, CollWork.isSend] at hx
      simp only [hfind, hwork, Except.ok.injEq] at hcomp
      exact hcomp.symm
    rw [hep']
    exact ⟨_, _, h.advance hep _ _ ⟨L', p', hl'⟩ none (by simp) (fun q => ⟨[], by simp, rfl⟩)
      (fun s => rfl)⟩
  · cases hcomp

/-- What arrives is what the plan says. -/
theorem Inv.arrives (hP : Sound handlers g P) (h : Inv handlers g P net e c) {s : Nat}
    (hs : s < g.size) (hr : r < g.size) {a : Step β V} (ha : (P r)[c r]? = some a)
    {t n : Nat} {buf : Ptr β} (hw : a.work = .recv s t buf n) {data : List V}
    {rest : List (Nat × List V)} (htake : takeTag (g.tag s) (net.chan s r) = some (data, rest)) :
    data = a.arrives ∧ ∃ ms, sentTo handlers r (g.mem s) ((P s).take (e s)) =
        expected s ((P r).take (c r)) ++ a.expects s ++ ms ∧ ours (g.tag s) rest = ms.map (·.2) := by
  obtain ⟨ms, hms, hours⟩ := h.chan s hs r hr
  rw [takeTag_some htake] at hours
  cases ms with
  | nil => cases hours
  | cons m ms =>
      simp only [List.map_cons, List.cons.injEq] at hours
      -- the whole plan of the sender against the whole plan of the receiver
      have htotal := hP.paired s hs r hr
      have hsplit : sentTo handlers r (g.mem s) (P s) =
          sentTo handlers r (g.mem s) ((P s).take (e s)) ++
            sentTo handlers r (memAfter handlers (g.mem s) ((P s).take (e s))) ((P s).drop (e s)) := by
        rw [← sentTo_append, List.take_append_drop]
      have hexp : expected s (P r) = expected s ((P r).take (c r)) ++ (a.expects s ++
          expected s ((P r).drop (c r + 1))) := by
        rw [← List.append_assoc, ← expected_succ ha, ← expected_append, List.take_append_drop]
      have hexpects : a.expects s = [(a.round, a.arrives)] := by
        simp [Step.expects, hw]
      rw [hsplit, hms, hexp, hexpects, List.append_assoc] at htotal
      have htail := List.append_cancel_left htotal
      simp only [List.cons_append, List.nil_append, List.cons.injEq] at htail
      refine ⟨by rw [hours.1, htail.1], ms, ?_, hours.2⟩
      rw [hms, hexpects, htail.1, List.append_assoc]
      rfl

/-- A receive takes its message. -/
theorem Inv.received (hP : Sound handlers g P) (h : Inv handlers g P net e c)
    (hep : net.ep r = some ep) {i s t n : Nat} {buf : Ptr β} {x : WorkItem β}
    (hfind : ep.workQueue.find? (·.id = i) = some x) (hx : x.work = .recv s t buf n)
    {data : List V} {rest : List (Nat × List V)} (htake : takeTag t (net.chan s r) = some (data, rest))
    (hcomp : ep.ofiCollHandleXferComp i data = .ok ep') :
    ∃ e' c', Inv handlers g P ((net.setEp r ep').setChan s r rest) e' c' := by
  obtain ⟨hr, L, p, hl⟩ := h.active r ep hep
  unfold CollEp.ofiCollHandleXferComp at hcomp
  split at hcomp
  · rename_i hi
    obtain ⟨x', a, hfind', ha, hax⟩ := hl.find (k := i) (by simp [hi])
    rw [hfind] at hfind'
    cases hfind'
    rw [hx] at hax
    obtain ⟨hs, ht⟩ := hP.recvs r hr a (List.mem_of_getElem? ha) s t buf n hax
    subst ht
    have hrecv : a.work.isRecv = true := by rw [hax]; rfl
    obtain ⟨hce, rfl⟩ : c r < e r ∧ i = c r := by
      rcases hl.pending with ⟨_, hp⟩ | ⟨hce, _, _, huniq⟩
      · rw [hp i hi a ha] at hrecv
        cases hrecv
      · exact ⟨hce, huniq i hi a ha hrecv⟩
    obtain ⟨rfl, ms, hms, hours⟩ := h.arrives hP hs hr ha hax htake
    obtain ⟨L', p', hl'⟩ := hl.received (hP.short r hr) (hP.quiet r hr) hce ha hax
    have hexp := (hl.memAfter_pending (hP.short r hr) (hP.quiet r hr) hce ha).2
    have hep' : ep' = { ep with posted := ep.posted.erase (c r),
                                mem := ep.mem.write buf (a.arrives.take n) }.complete (c r) := by
      simp only [hfind, hx, Except.ok.injEq] at hcomp
      exact hcomp.symm
    rw [hep']
    refine ⟨e, Function.update c r (e r), ⟨?_, ?_, ?_⟩⟩
    · intro q hq
      have hne : q ≠ r := by
        rintro rfl
        simp [Net.setEp, Net.setChan] at hq
      rw [Function.update_of_ne hne]
      refine h.idle q ?_
      simpa [Net.setEp, Net.setChan, Function.update_of_ne hne] using hq
    · intro q epq hq
      by_cases hne : q = r
      · subst hne
        simp only [Net.setEp, Net.setChan, Function.update_self, Option.some.injEq] at hq
        subst hq
        simpa using ⟨hr, L', p', hl'⟩
      · rw [Function.update_of_ne hne]
        refine h.active q epq ?_
        simpa [Net.setEp, Net.setChan, Function.update_of_ne hne] using hq
    · intro s' hs' q hq
      by_cases hqr : q = r
      · subst hqr
        rw [Function.update_self, hexp s']
        by_cases hss : s' = s
        · subst hss
          exact ⟨ms, hms, by simpa [Net.setChan] using hours⟩
        · obtain ⟨ms', hms', hours'⟩ := h.chan s' hs' q hq
          have hnone : a.expects s' = [] := by
            simp [Step.expects, hax, Ne.symm hss]
          refine ⟨ms', by rw [hnone, List.append_nil]; exact hms', ?_⟩
          simpa [Net.setChan, Net.setEp, Function.update_of_ne hss] using hours'
      · rw [Function.update_of_ne hqr]
        obtain ⟨ms', hms', hours'⟩ := h.chan s' hs' q hq
        refine ⟨ms', hms', ?_⟩
        by_cases hss : s' = s
        · subst hss
          simpa [Net.setChan, Net.setEp, Function.update_of_ne hqr] using hours'
        · simpa [Net.setChan, Net.setEp, Function.update_of_ne hss] using hours'
  · cases hcomp

/-- A member makes its call. -/
theorem Inv.call (hP : Sound handlers g P) (h : Inv handlers g P net e c) (hep : net.ep r = none)
    (hr : r < g.size) :
    Inv handlers g P (net.setEp r (CollEp.entered (g.schedule r) (g.mem r))) e c := by
  obtain ⟨he, hc⟩ := h.idle r hep
  refine ⟨?_, ?_, h.chan⟩
  · intro q hq
    have hne : q ≠ r := by
      rintro rfl
      simp [Net.setEp] at hq
    refine h.idle q ?_
    simpa [Net.setEp, Function.update_of_ne hne] using hq
  · intro q epq hq
    by_cases hne : q = r
    · subst hne
      simp only [Net.setEp, Function.update_self, Option.some.injEq] at hq
      subst hq
      rw [hP.schedule q hr, he, hc]
      exact ⟨hr, Local.entered (hP.closed q hr)⟩
    · refine h.active q epq ?_
      simpa [Net.setEp, Function.update_of_ne hne] using hq

/-- A message of another operation. -/
theorem Inv.other (h : Inv handlers g P net e c) {s d t : Nat} {data : List V} (ht : t ≠ g.tag s) :
    Inv handlers g P (net.setChan s d (net.chan s d ++ [(t, data)])) e c := by
  refine ⟨h.idle, h.active, ?_⟩
  intro s' hs' q hq
  obtain ⟨ms, hms, hours⟩ := h.chan s' hs' q hq
  refine ⟨ms, hms, ?_⟩
  rw [← hours]
  by_cases hss : s' = s
  · subst hss
    by_cases hqd : q = d
    · subst hqd
      simp [Net.setChan, ours, ht]
    · simp [Net.setChan, Function.update_of_ne hqd]
  · simp [Net.setChan, Function.update_of_ne hss]

/-- **Every event keeps the plans.** -/
theorem Inv.step (hP : Sound handlers g P) (h : Inv handlers g P net e c) {ev : NetEvent V}
    (hacc : Accepts net ev) (hstep : net.step handlers g ev = .ok net') :
    ∃ e' c', Inv handlers g P net' e' c' := by
  cases ev with
  | call r =>
      simp only [Net.step] at hstep
      split at hstep
      · cases hstep
      · rename_i hep
        split at hstep
        · rename_i hr
          cases hstep
          exact ⟨e, c, h.call hP hep hr⟩
        · cases hstep
  | progress r ret =>
      simp only [Net.step] at hstep
      split at hstep
      · cases hstep
      · rename_i ep hep
        split at hstep
        · cases hstep
        · rename_i ep' m hprog
          cases hstep
          exact h.progress hP hep hacc hprog
  | sent r i =>
      simp only [Net.step] at hstep
      split at hstep
      · cases hstep
      · rename_i ep hep
        split at hstep
        · rename_i hfind
          split at hstep
          · cases hstep
          · rename_i ep' hcomp
            cases hstep
            exact h.sent hP hep hfind rfl hcomp
        · cases hstep
  | received r i =>
      simp only [Net.step] at hstep
      split at hstep
      · cases hstep
      · rename_i ep hep
        split at hstep
        · rename_i hfind
          split at hstep
          · split at hstep
            · cases hstep
            · rename_i htake
              split at hstep
              · cases hstep
              · rename_i ep' hcomp
                cases hstep
                exact h.received hP hep hfind rfl htake hcomp
          · cases hstep
        · cases hstep
  | other s d t data =>
      simp only [Net.step] at hstep
      split at hstep
      · cases hstep
      · rename_i ht
        cases hstep
        exact ⟨e, c, h.other ht⟩

end Step

/-! ## §4 — what holds in every run -/

section Runs

variable {handlers : Handlers V} {g : Group β V} {P : Nat → List (Step β V)} {net : Net β V}
  {e c : Nat → Nat} {r : Nat} {ep : CollEp β V} {evs : List (NetEvent V)}

theorem Inv.start : Inv handlers g P {} (fun _ => 0) (fun _ => 0) where
  idle := fun _ _ => ⟨rfl, rfl⟩
  active := by simp
  chan := fun s _ r _ => ⟨[], by simp [sentTo, expected], rfl⟩

/-- Runs in which the provider accepts the transfers follow the plans. -/
theorem Sound.inv (hP : Sound handlers g P)
    (hacc : StepsMeet (Net.step handlers g) Accepts {} evs)
    (hrun : run (Net.step handlers g) {} evs = .ok net) : ∃ e c, Inv handlers g P net e c := by
  refine run_induction_of_stepsMeet (H := fun _ => True) (P := fun _ net => ∃ e c, Inv handlers g P net e c)
    (fun _ _ h => h) ⟨_, _, Inv.start⟩ ?_ trivial hrun hacc
  rintro as s ev s' _ ⟨e, c, h⟩ hC hstep
  exact h.step hP hC hstep

/-- A member that has executed its whole plan has all its messages. -/
theorem Local.pending_length {Q : List (Step β V)} {mem : Mem β V} {L : List (WorkItem β)}
    {p m : Nat} (h : Local handlers Q mem ep L p Q.length m) (hs : Short (items Q))
    (hcl : Closed (items Q)) : m = Q.length := by
  have hp : p = Q.length := by
    have hb := h.turn.shape.layout.bound
    rw [length_items] at hb
    have := h.turn.turn
    omega
  rcases h.pending with ⟨hm, _⟩ | ⟨hlt, _, ⟨a, ha, hra⟩, _⟩
  · exact hm
  · -- a waiting receive is behind the last fence, where there is only the completion item
    exfalso
    obtain ⟨⟨x, hx, hid⟩, hle⟩ := h.window hs hlt
    by_cases hlast : m + 1 = Q.length
    · have hcomp := (hcl.comp m (a.work, a.fence) (by rw [getElem?_items, ha]; rfl)).mpr
        (by rw [length_items]; exact hlast)
      simp only at hcomp
      simp [hcomp, CollWork.isRecv] at hra
    · exact h.turn.shape.layout.noFence x hx m (by omega) (by omega)
        (hcl.fenced m (by rw [length_items]; omega))

theorem Local.finished {Q : List (Step β V)} {mem : Mem β V} {L : List (WorkItem β)} {p m : Nat}
    (h : Local handlers Q mem ep L p Q.length m) (hs : Short (items Q)) (hcl : Closed (items Q)) :
    ep.mem = memAfter handlers mem Q := by
  have hm := h.pending_length hs hcl
  funext b j
  rw [h.data b j (by omega), List.take_length]

/-- **The result of a completed operation.**  Whatever the interleaving, when the completion function
of a member is called it is called once, and the member's buffers are those of the sequential
execution of its plan. -/
theorem Sound.mem_of_comps (hP : Sound handlers g P)
    (hacc : StepsMeet (Net.step handlers g) Accepts {} evs)
    (hrun : run (Net.step handlers g) {} evs = .ok net) (hep : net.ep r = some ep)
    (hc : ep.comps ≠ 0) : ep.comps = 1 ∧ ep.mem = memAfter handlers (g.mem r) (P r) := by
  obtain ⟨e, c, h⟩ := hP.inv hacc hrun
  obtain ⟨hr, L, p, hl⟩ := h.active r ep hep
  have hcomps := hl.comps
  by_cases he : e r = (P r).length
  · rw [if_pos he] at hcomps
    rw [he] at hl
    exact ⟨hcomps, hl.finished (hP.short r hr) (hP.closed r hr)⟩
  · rw [if_neg he] at hcomps
    exact absurd hcomps hc

/-- A member with a ready item can go on, whatever the provider answers. -/
theorem Inv.progress_ok (hP : Sound handlers g P) (h : Inv handlers g P net e c)
    (hep : net.ep r = some ep) (hready : ep.readyQueue ≠ []) (ret : XferRet) :
    ∃ ep' m, ep.ofiCollEpProgress handlers ret = .ok (ep', m) := by
  obtain ⟨hr, L, p, hl⟩ := h.active r ep hep
  obtain ⟨i, rest, hi⟩ := List.exists_cons_of_ne_nil hready
  obtain ⟨x, a, hfind, ha, hax⟩ := hl.find (k := i) (by simp [hi])
  have hsup := hP.supported r hr a (List.mem_of_getElem? ha)
  rw [hax] at hsup
  unfold CollEp.ofiCollEpProgress
  simp only [hi, hfind]
  cases hwork : x.work with
  | send d t buf n => cases ret <;> exact ⟨_, _, rfl⟩
  | recv s t buf n => cases ret <;> exact ⟨_, _, rfl⟩
  | reduce a b n op =>
      have heff := hsup (by rw [hwork]; rfl) ep.mem
      simp only [hwork, CollWork.effect] at heff
      cases hop : op.reduces with
      | false => simp [hop] at heff
      | true =>
          cases hh : handlers op with
          | none => simp [hop, hh] at heff
          | some f =>
              simp only [CollEp.utilCollProcReduceItem, hop, hh, if_true]
              exact ⟨_, _, rfl⟩
  | copy a b n => exact ⟨_, _, rfl⟩
  | comp => exact ⟨_, _, rfl⟩

/-- A transfer that completes is one that was posted, and its item is there. -/
theorem xferComp_ok {i : Nat} {x : WorkItem β} (data : List V)
    (hfind : ep.workQueue.find? (·.id = i) = some x) :
    i ∈ ep.posted ∧ (∃ ep', ep.ofiCollHandleXferComp i data = .ok ep') ∨
      ep.ofiCollHandleXferComp i data = .error .notDue := by
  unfold CollEp.ofiCollHandleXferComp
  by_cases hi : i ∈ ep.posted
  · refine .inl ⟨hi, ?_⟩
    simp only [if_pos hi, hfind]
    cases x.work <;> exact ⟨_, rfl⟩
  · rw [if_neg hi]
    exact .inr rfl

/-- No freed item is used and no null function called. -/
theorem Inv.step_ne_fault (hP : Sound handlers g P) (h : Inv handlers g P net e c)
    (ev : NetEvent V) : net.step handlers g ev ≠ .error .fault := by
  intro hstep
  cases ev with
  | call r =>
      simp only [Net.step] at hstep
      split at hstep
      · cases hstep
      · split at hstep <;> cases hstep
  | progress r ret =>
      simp only [Net.step] at hstep
      split at hstep
      · cases hstep
      · rename_i ep hep
        by_cases hready : ep.readyQueue = []
        · simp [CollEp.ofiCollEpProgress, hready] at hstep
        · obtain ⟨ep', m, hok⟩ := h.progress_ok hP hep hready ret
          rw [hok] at hstep
          cases hstep
  | sent r i =>
      simp only [Net.step] at hstep
      split at hstep
      · cases hstep
      · split at hstep
        · rename_i hfind
          rcases xferComp_ok [] hfind with ⟨_, ep', hok⟩ | hnot
          · rw [hok] at hstep
            cases hstep
          · rw [hnot] at hstep
            cases hstep
        · cases hstep
  | received r i =>
      simp only [Net.step] at hstep
      split at hstep
      · cases hstep
      · split at hstep
        · rename_i hfind
          split at hstep
          · split at hstep
            · cases hstep
            · rename_i data rest _
              rcases xferComp_ok data hfind with ⟨_, ep', hok⟩ | hnot
              · rw [hok] at hstep
                cases hstep
              · rw [hnot] at hstep
                cases hstep
          · cases hstep
        · cases hstep
  | other s d t data =>
      simp only [Net.step] at hstep
      split at hstep <;> cases hstep

theorem Sound.no_fault (hP : Sound handlers g P)
    (hacc : StepsMeet (Net.step handlers g) Accepts {} evs) :
    run (Net.step handlers g) {} evs ≠ .error .fault := by
  refine run_ne_error_of_stepsMeet (J := fun net => ∃ e c, Inv handlers g P net e c) ?_ ?_
    ⟨_, _, Inv.start⟩ hacc
  · rintro net ev ⟨e, c, h⟩ _
    exact h.step_ne_fault hP ev
  · rintro net ev net' ⟨e, c, h⟩ hC hstep
    exact h.step hP hC hstep

end Runs

end SstTransports.Util
