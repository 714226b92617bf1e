/-
# SstTransports.Util.Plan — a schedule against the plan of its execution.

A plan annotates the items of a schedule: each receive with the data that is to arrive and each
transfer with a round.  Executing the items one after the other then has a meaning of its own,
`memAfter`, and says what is sent to whom, `sentTo`.

The endpoint does not execute them one after the other: the items of one fence group overlap.
`Local` says how far it may be from the sequential execution (the buffer of the one receive that is
still waiting may differ), and the lemmas after it carry `Local` over everything that can happen at
an endpoint.
-/
import SstTransports.Util.Progress

namespace SstTransports.Util

open SstTransports.Lib

variable {β V : Type}

/-! ## §1 — annotated schedules -/

/-- An item with the round of a transfer and the data that a receive is to get. -/
structure Step (β V : Type) where
  work : CollWork β
  fence : Bool
  round : Nat := 0
  arrives : List V := []

/-- What an item makes of the buffers when the items are executed one after the other. -/
def Step.apply [DecidableEq β] (handlers : Handlers V) (a : Step β V) (mem : Mem β V) : Mem β V :=
  match a.work with
  | .recv _ _ buf count => mem.write buf (a.arrives.take count)
  | w => (w.effect handlers mem).getD mem

/-- The buffers after some items. -/
def memAfter [DecidableEq β] (handlers : Handlers V) (mem : Mem β V) (P : List (Step β V)) :
    Mem β V :=
  P.foldl (fun m a => a.apply handlers m) mem

/-- What an item sends to a member, with its round. -/
def Step.sends (mem : Mem β V) (dest : Nat) (a : Step β V) : List (Nat × List V) :=
  match a.work with
  | .send d _ buf count => if d = dest then [(a.round, mem.read buf count)] else []
  | _ => []

/-- What an item expects from a member, with its round. -/
def Step.expects (src : Nat) (a : Step β V) : List (Nat × List V) :=
  match a.work with
  | .recv s _ _ _ => if s = src then [(a.round, a.arrives)] else []
  | _ => []

/-- The messages to a member, in order. -/
def sentTo [DecidableEq β] (handlers : Handlers V) (dest : Nat) :
    Mem β V → List (Step β V) → List (Nat × List V)
  | _, [] => []
  | mem, a :: P => a.sends mem dest ++ sentTo handlers dest (a.apply handlers mem) P

/-- The messages that are expected from a member, in order. -/
def expected (src : Nat) (P : List (Step β V)) : List (Nat × List V) :=
  P.flatMap (Step.expects src)

section Annotated

variable {P Q : List (Step β V)} {a : Step β V} {src dest e : Nat}

theorem expected_append : expected src (P ++ Q) = expected src P ++ expected src Q := by
  simp [expected]

theorem take_succ_of (ha : P[e]? = some a) : P.take (e + 1) = P.take e ++ [a] := by
  rw [List.take_add_one, ha]
  rfl

theorem expected_succ (ha : P[e]? = some a) :
    expected src (P.take (e + 1)) = expected src (P.take e) ++ a.expects src := by
  rw [take_succ_of ha, expected_append]
  simp [expected]

variable [DecidableEq β] {handlers : Handlers V} {mem : Mem β V}

theorem memAfter_append : memAfter handlers mem (P ++ Q) =
    memAfter handlers (memAfter handlers mem P) Q := by
  simp [memAfter]

theorem sentTo_append : sentTo handlers dest mem (P ++ Q) =
    sentTo handlers dest mem P ++ sentTo handlers dest (memAfter handlers mem P) Q := by
  induction P generalizing mem with
  | nil => rfl
  | cons a P ih => simp [sentTo, ih, memAfter]

theorem memAfter_succ (ha : P[e]? = some a) :
    memAfter handlers mem (P.take (e + 1)) = a.apply handlers (memAfter handlers mem (P.take e)) := by
  rw [take_succ_of ha, memAfter_append]
  rfl

theorem sentTo_succ (ha : P[e]? = some a) :
    sentTo handlers dest mem (P.take (e + 1)) =
      sentTo handlers dest mem (P.take e) ++ a.sends (memAfter handlers mem (P.take e)) dest := by
  rw [take_succ_of ha, sentTo_append]
  simp [sentTo]

end Annotated

/-! ## §2 — whose turn it is -/

/-- Of the schedule the first `e` items have been executed; the next one is ready, or nothing can be
started. -/
structure Turn (S : List (CollWork β × Bool)) (ep : CollEp β V) (L : List (WorkItem β))
    (p e : Nat) : Prop where
  shape : Shape S ep [] L p
  turn : ep.readyQueue = [] ∧ e = p ∧ Settled S L p ∨ ep.readyQueue = [e] ∧ p = e + 1
  posted : ∀ x ∈ L, x.id < e → x.state = .processing → x.id ∈ ep.posted
  lingering : ∀ x ∈ L, x.state = .complete → x.fence = true ∧ ∃ y ∈ L, y.state ≠ .complete

/-- In a schedule with short groups no two items in a row are without a fence. -/
def Short (S : List (CollWork β × Bool)) : Prop :=
  ∀ i w w', S[i]? = some (w, false) → S[i + 1]? = some w' → w'.2 = true

section Turn

variable {handlers : Handlers V} {S : List (CollWork β × Bool)} {ep ep' : CollEp β V}
  {L : List (WorkItem β)} {p e i : Nat}

/-- A walk after which it is again somebody's turn.  If an item is ready already, it is a fence, and
nothing is started behind it. -/
theorem Turn.of_progressWork (ep : CollEp β V) (hl : Layout S L p)
    (hq : ep.workQueue = L ++ (queueOf S).drop p)
    (held : ∀ k ∈ ep.readyQueue ++ (ep.posted ++ []), ∃ x ∈ L, x.id = k ∧ x.state = .processing)
    (nodup : (ep.readyQueue ++ (ep.posted ++ [])).Nodup)
    (hturn : ep.readyQueue = [] ∧ e = p ∨ ep.readyQueue = [e] ∧ p = e + 1 ∧ FenceAt S e)
    (hposted : ∀ x ∈ L, x.id < e → x.state = .processing → x.id ∈ ep.posted) :
    ∃ L' p', Turn S ep.progressWork L' p' e := by
  have linger : ∀ x ∈ clean L, x.state = .complete →
      x.fence = true ∧ ∃ y ∈ clean L, y.state ≠ .complete := by
    intro x hx hc
    obtain ⟨hf, y, hy, hyc⟩ := (Layout.mem_clean hx).2 hc
    exact ⟨hf, y, Layout.mem_clean_of_not_complete hy hyc, hyc⟩
  rcases progressWork_cases hl hq with ⟨heq, hset⟩ | ⟨w, hw, hany, heq⟩
  · rw [heq]
    refine ⟨clean L, p, ⟨hl.clean, rfl, Shape.held_clean held, nodup⟩, ?_, ?_, linger⟩
    · rcases hturn with ⟨hr, he⟩ | ⟨hr, hp, _⟩
      · exact .inl ⟨hr, he, hset⟩
      · exact .inr ⟨hr, hp⟩
    · exact fun x hx => hposted x (Layout.mem_clean hx).1
  · rcases hturn with ⟨hr, rfl⟩ | ⟨hr, hp, hf⟩
    · rw [heq]
      refine ⟨_, e + 1, Shape.started ep hl held nodup hw hany, .inr ⟨by simp [hr], rfl⟩, ?_, ?_⟩
      · intro x hx hlt
        rcases List.mem_append.mp hx with hx | hx
        · exact hposted x (Layout.mem_clean hx).1 hlt
        · obtain rfl := List.mem_singleton.mp hx
          exact absurd hlt (Nat.lt_irrefl e)
      · intro x hx hc
        rcases List.mem_append.mp hx with hx | hx
        · obtain ⟨hf, y, hy, hyc⟩ := linger x hx hc
          exact ⟨hf, y, List.mem_append_left _ hy, hyc⟩
        · obtain rfl := List.mem_singleton.mp hx
          cases hc
    · -- the ready fence is in the queue, so nothing was started
      obtain ⟨x, hx, rfl, hst⟩ := held e (by simp [hr])
      obtain ⟨w', hw'⟩ := hf
      have hxS := (hl.item x hx).2.1
      rw [hw'] at hxS
      have hxf : x.fence = true := (Prod.mk.inj (Option.some.inj hxS)).2.symm
      have hxc := Layout.mem_clean_of_not_complete hx (by simp [hst])
      exact absurd hxf (List.any_eq_false.mp hany x hxc)

/-- The same after an item was set to complete. -/
theorem Turn.of_complete (ep : CollEp β V) (hl : Layout S L p)
    (hq : ep.workQueue = L ++ (queueOf S).drop p) (hip : i < p)
    (hi : i ∉ ep.readyQueue ++ (ep.posted ++ []))
    (held : ∀ k ∈ ep.readyQueue ++ (ep.posted ++ []), ∃ x ∈ L, x.id = k ∧ x.state = .processing)
    (nodup : (ep.readyQueue ++ (ep.posted ++ [])).Nodup)
    (hturn : ep.readyQueue = [] ∧ e = p ∨ ep.readyQueue = [e] ∧ p = e + 1 ∧ FenceAt S e)
    (hposted : ∀ x ∈ L, x.id < e → x.id ≠ i → x.state = .processing → x.id ∈ ep.posted) :
    ∃ L' p', Turn S (ep.complete i) L' p' e := by
  have hq' : mark i ep.workQueue = mark i L ++ (queueOf S).drop p := by
    rw [hq, mark_append, mark_drop hip]
  refine Turn.of_progressWork { ep with workQueue := mark i ep.workQueue } (hl.mark i) hq' ?_ nodup
    hturn ?_
  · intro k hk
    obtain ⟨x, hx, rfl, hst⟩ := held k hk
    exact ⟨x, mem_mark_of_ne hx (by rintro rfl; exact hi hk), rfl, hst⟩
  · intro y hy hlt hst
    obtain ⟨x, hx, hid, _, _, hxst⟩ := mem_mark hy
    rw [hid] at hlt ⊢
    by_cases hxi : x.id = i
    · rw [hxst, if_pos hxi] at hst
      cases hst
    · rw [hxst, if_neg hxi] at hst
      exact hposted x hx hlt hxi hst

/-- What the schedule has behind a posted item while another one is ready. -/
theorem Turn.fence_of_posted (h : Turn S ep L p e) (hs : Short S) (hr : ep.readyQueue = [e])
    (hi : i ∈ ep.posted) : i < e ∧ FenceAt S e := by
  have hp : p = e + 1 := by
    rcases h.turn with ⟨hr', _⟩ | ⟨_, hp⟩
    · rw [hr] at hr'
      cases hr'
    · exact hp
  obtain ⟨x, hx, hxi, _⟩ := h.shape.held i (by simp [hi])
  have hne : i ≠ e := by
    have := h.shape.nodup
    grind
  have hlt := (h.shape.layout.item x hx).1
  have hie : i < e := by omega
  refine ⟨hie, ?_⟩
  have hlen := h.shape.layout.bound
  have hprev : ¬ FenceAt S (e - 1) := h.shape.layout.noFence x hx (e - 1) (by omega) (by omega)
  have hfalse : S[e - 1]? = some (S[e - 1].1, false) := by
    rw [List.getElem?_eq_getElem (by omega)]
    refine congrArg some (Prod.ext rfl ?_)
    by_contra hf
    refine hprev ⟨S[e - 1].1, ?_⟩
    rw [List.getElem?_eq_getElem (by omega)]
    exact congrArg some (Prod.ext rfl (by simpa using hf))
  have hnext : S[e - 1 + 1]? = some S[e] := by
    rw [show e - 1 + 1 = e by omega]
    exact List.getElem?_eq_getElem (by omega)
  refine ⟨S[e].1, ?_⟩
  rw [List.getElem?_eq_getElem (by omega)]
  exact congrArg some (Prod.ext rfl (hs (e - 1) _ _ hfalse hnext))

theorem Turn.lt_of_posted (h : Turn S ep L p e) (hi : i ∈ ep.posted) : i < e := by
  have hlt : i < p := h.shape.lt (by simp [hi])
  rcases h.turn with ⟨_, rfl, _⟩ | ⟨hr, hp⟩
  · exact hlt
  · have := h.shape.nodup
    grind

/-- The ready item is handed to the provider. -/
theorem Turn.handed (h : Turn S ep L p e) (hr : ep.readyQueue = [e]) :
    ∃ L' p', Turn S { ep with readyQueue := [], posted := ep.posted ++ [e] }.progressWork
      L' p' (e + 1) := by
  have hp : p = e + 1 := by
    have := h.turn
    grind
  have held := h.shape.held
  have hnd := h.shape.nodup
  rw [hr] at held hnd
  refine Turn.of_progressWork { ep with readyQueue := [], posted := ep.posted ++ [e] }
    h.shape.layout h.shape.queue (fun k hk => held k (by grind)) (by grind) (.inl ⟨rfl, hp.symm⟩) ?_
  intro x hx hlt hst
  by_cases hxe : x.id = e
  · simp [hxe]
  · exact List.mem_append_left _ (h.posted x hx (by omega) hst)

/-- The ready item is complete at once. -/
theorem Turn.done (h : Turn S ep L p e) (hr : ep.readyQueue = [e]) (mem : Mem β V) (comps : Nat) :
    ∃ L' p', Turn S ({ ep with readyQueue := [], mem := mem, comps := comps }.complete e)
      L' p' (e + 1) := by
  have hp : p = e + 1 := by
    have := h.turn
    grind
  have held := h.shape.held
  have hnd := h.shape.nodup
  rw [hr] at held hnd
  refine Turn.of_complete { ep with readyQueue := [], mem := mem, comps := comps }
    h.shape.layout h.shape.queue (by omega) (by grind) (fun k hk => held k (by grind)) (by grind)
    (.inl ⟨rfl, hp.symm⟩) ?_
  intro x hx hlt hne hst
  exact h.posted x hx (by omega) hst

/-- A posted transfer completes. -/
theorem Turn.xferComp (h : Turn S ep L p e) (hs : Short S) (hi : i ∈ ep.posted) (mem : Mem β V) :
    ∃ L' p', Turn S ({ ep with posted := ep.posted.erase i, mem := mem }.complete i) L' p' e := by
  have hie := h.lt_of_posted hi
  have hip : i < p := h.shape.lt (by simp [hi])
  have hnd := h.shape.nodup
  refine Turn.of_complete { ep with posted := ep.posted.erase i, mem := mem }
    h.shape.layout h.shape.queue hip (by grind [List.Nodup.mem_erase_iff])
    (fun k hk => h.shape.held k (by grind)) (by grind [List.Nodup.erase]) ?_ ?_
  · rcases h.turn with ⟨hr, he, _⟩ | ⟨hr, hp⟩
    · exact .inl ⟨hr, he⟩
    · exact .inr ⟨hr, hp, (h.fence_of_posted hs hr hi).2⟩
  · intro x hx hlt hne hst
    exact (List.mem_erase_of_ne hne).mpr (h.posted x hx hlt hst)

end Turn

/-! ## §3 — one member against its plan -/

/-- The schedule without the annotations. -/
def items (P : List (Step β V)) : List (CollWork β × Bool) :=
  P.map fun a => (a.work, a.fence)

/-- The elements that a receive writes. -/
def Step.target (a : Step β V) (b : β) (j : Nat) : Prop :=
  match a.work with
  | .recv _ _ buf count =>
    b = buf.buf ∧ buf.off ≤ j ∧ j < buf.off + (a.arrives.take count).length
  | _ => False

/-- Behind a receive that is not a fence comes a send from other elements. -/
def Quiet (P : List (Step β V)) : Prop :=
  ∀ i a b, P[i]? = some a → P[i + 1]? = some b → a.work.isRecv = true → a.fence = false →
    ∃ d t buf count, b.work = .send d t buf count ∧
      ∀ j < count, ¬ a.target buf.buf (buf.off + j)

/-- A member that has executed the first `e` items of its plan.  All of them are done if `c = e`;
otherwise the receive at `c` is waiting for its message. -/
structure Local [DecidableEq β] (handlers : Handlers V) (P : List (Step β V)) (mem : Mem β V)
    (ep : CollEp β V) (L : List (WorkItem β)) (p e c : Nat) : Prop where
  turn : Turn (items P) ep L p e
  xfers : ∀ k ∈ ep.posted, ∀ a, P[k]? = some a → (a.work.isSend || a.work.isRecv) = true
  pending : c = e ∧ (∀ k ∈ ep.posted, ∀ a, P[k]? = some a → a.work.isRecv = false) ∨
    c < e ∧ c ∈ ep.posted ∧ (∃ a, P[c]? = some a ∧ a.work.isRecv = true) ∧
      ∀ k ∈ ep.posted, ∀ a, P[k]? = some a → a.work.isRecv = true → k = c
  data : ∀ b j, (∀ a, c < e → P[c]? = some a → ¬ a.target b j) →
    ep.mem b j = memAfter handlers mem (P.take e) b j
  comps : ep.comps = if e = P.length then 1 else 0

section Local

variable {P : List (Step β V)} {a : Step β V} {i : Nat}

theorem getElem?_items : (items P)[i]? = P[i]?.map fun a => (a.work, a.fence) := by
  simp [items]

theorem length_items : (items P).length = P.length := by
  simp [items]

theorem items_append (P Q : List (Step β V)) : items (P ++ Q) = items P ++ items Q := by
  simp [items]

theorem fenceAt_items (ha : P[i]? = some a) : FenceAt (items P) i ↔ a.fence = true := by
  unfold FenceAt
  rw [getElem?_items, ha]
  simp

variable [DecidableEq β] {handlers : Handlers V} {mem : Mem β V} {ep : CollEp β V}
  {L : List (WorkItem β)} {p e c : Nat}

/-- The buffers do not change by handing a send over. -/
theorem Step.apply_of_isSend (ha : a.work.isSend = true) (m : Mem β V) : a.apply handlers m = m := by
  unfold Step.apply
  cases hw : a.work <;> simp [hw, CollWork.isSend, CollWork.effect] at ha ⊢

theorem Step.apply_of_effect {m m' : Mem β V} (ha : a.work.effect handlers m = some m') :
    a.apply handlers m = m' := by
  unfold Step.apply
  split
  · rename_i hw
    rw [hw] at ha
    cases ha
  · rw [ha]
    rfl

/-- Outside of what a receive writes nothing changes. -/
theorem Step.apply_frame (ha : a.work.isRecv = true) (m : Mem β V) {b : β} {j : Nat}
    (h : ¬ a.target b j) : a.apply handlers m b j = m b j := by
  unfold Step.apply
  cases hw : a.work with
  | recv src tag buf count => exact Mem.write_frame m buf _ (by simpa [Step.target, hw] using h)
  | send => simp [hw, CollWork.isRecv] at ha
  | reduce => simp [hw, CollWork.isRecv] at ha
  | copy => simp [hw, CollWork.isRecv] at ha
  | comp => simp [hw, CollWork.isRecv] at ha

/-- A receive that is waiting is the last item executed, or the one before. -/
theorem Local.window (h : Local handlers P mem ep L p e c) (hs : Short (items P)) (hc : c < e) :
    (∃ x ∈ L, x.id = c) ∧ p ≤ c + 2 := by
  have hcp : c ∈ ep.posted := by
    have := h.pending
    grind
  obtain ⟨x, hx, hid, _⟩ := h.turn.shape.held c (by simp [hcp])
  refine ⟨⟨x, hx, hid⟩, ?_⟩
  by_contra hlt
  have hbound := h.turn.shape.layout.bound
  rw [length_items] at hbound
  have h₀ : ¬ FenceAt (items P) c :=
    h.turn.shape.layout.noFence x hx c (by omega) (by omega)
  have h₁ : ¬ FenceAt (items P) (c + 1) :=
    h.turn.shape.layout.noFence x hx (c + 1) (by omega) (by omega)
  have e₀ : P[c]? = some P[c] := List.getElem?_eq_getElem (by omega)
  have e₁ : P[c + 1]? = some P[c + 1] := List.getElem?_eq_getElem (by omega)
  rw [fenceAt_items e₀] at h₀
  rw [fenceAt_items e₁] at h₁
  refine h₁ (hs c P[c].work (P[c + 1].work, P[c + 1].fence) ?_ ?_)
  · rw [getElem?_items, e₀]
    simp only [Option.map_some]
    exact congrArg some (Prod.ext rfl (by simpa using h₀))
  · rw [getElem?_items, e₁]
    rfl

/-- What is ready while a receive is waiting is a send from other elements. -/
theorem Local.ready_send (h : Local handlers P mem ep L p e c) (hs : Short (items P))
    (hq : Quiet P) (hr : ep.readyQueue = [e]) (ha : P[e]? = some a) (hc : c < e) :
    ∃ a', P[c]? = some a' ∧ ∃ d t buf count, a.work = .send d t buf count ∧
      ∀ j < count, ¬ a'.target buf.buf (buf.off + j) := by
  obtain ⟨⟨x, hx, hid⟩, hp⟩ := h.window hs hc
  have hpe : p = e + 1 := by
    have := h.turn.turn
    grind
  have hce : e = c + 1 := by omega
  obtain ⟨a', ha', hrecv⟩ : ∃ a', P[c]? = some a' ∧ a'.work.isRecv = true := by
    have := h.pending
    grind
  have hnf : ¬ FenceAt (items P) c := h.turn.shape.layout.noFence x hx c (by omega) (by omega)
  rw [fenceAt_items ha'] at hnf
  rw [hce] at ha
  exact ⟨a', ha', hq c a' a ha' ha hrecv (by simpa using hnf)⟩

theorem Local.comps_zero (h : Local handlers P mem ep L p e c) (ha : P[e]? = some a) :
    ep.comps = 0 := by
  have := (List.getElem?_eq_some_iff.mp ha).1
  rw [h.comps, if_neg (by omega)]

theorem Local.xfers_handed (h : Local handlers P mem ep L p e c) (ha : P[e]? = some a)
    (hw : (a.work.isSend || a.work.isRecv) = true) :
    ∀ k ∈ ep.posted ++ [e], ∀ x, P[k]? = some x → (x.work.isSend || x.work.isRecv) = true := by
  intro k hk x hx
  rcases List.mem_append.mp hk with hk | hk
  · exact h.xfers k hk x hx
  · obtain rfl := List.mem_singleton.mp hk
    rw [ha] at hx
    cases hx
    exact hw

/-- A send is handed over with the data of the sequential execution. -/
theorem Local.send (h : Local handlers P mem ep L p e c) (hs : Short (items P)) (hq : Quiet P)
    (hcl : Closed (items P)) (hr : ep.readyQueue = [e]) (ha : P[e]? = some a)
    {d t count : Nat} {buf : Ptr β} (hw : a.work = .send d t buf count) :
    ep.mem.read buf count = (memAfter handlers mem (P.take e)).read buf count ∧
      ∃ L' p' c', Local handlers P mem
        { ep with readyQueue := [], posted := ep.posted ++ [e] }.progressWork L' p' (e + 1) c' ∧
        ∀ src, expected src (P.take c') = expected src (P.take c) := by
  have hsend : a.work.isSend = true := by rw [hw]; rfl
  have hrecv : a.work.isRecv = false := by rw [hw]; rfl
  have hmem : memAfter handlers mem (P.take (e + 1)) = memAfter handlers mem (P.take e) := by
    rw [memAfter_succ ha, Step.apply_of_isSend hsend]
  have hcomps : ep.comps = if e + 1 = P.length then 1 else 0 := by
    have hne : ¬ e + 1 = P.length := by
      rw [← length_items, ← hcl.comp e (a.work, a.fence) (by rw [getElem?_items, ha]; rfl), hw]
      simp
    rw [h.comps_zero ha, if_neg hne]
  obtain ⟨L', p', hturn⟩ := h.turn.handed hr
  have hxf := h.xfers_handed ha (by rw [hsend]; rfl)
  rcases h.pending with ⟨rfl, hp⟩ | ⟨hce, hp, ⟨a', ha', hra'⟩, huniq⟩
  · refine ⟨Mem.read_congr fun i _ => h.data _ _ (by omega), L', p', c + 1,
      ⟨hturn, hxf, .inl ⟨rfl, ?_⟩, ?_, hcomps⟩, ?_⟩
    · intro k hk a'' hk'
      rcases List.mem_append.mp hk with hk | hk
      · exact hp k hk a'' hk'
      · obtain rfl := List.mem_singleton.mp hk
        rw [ha] at hk'
        cases hk'
        exact hrecv
    · intro b j _
      rw [hmem]
      exact h.data b j (by omega)
    · intro src
      rw [expected_succ ha]
      simp [Step.expects, hw]
  · obtain ⟨a'', ha'', d', t', buf', count', hw', hdis⟩ := h.ready_send hs hq hr ha hce
    rw [ha'] at ha''
    cases ha''
    rw [hw] at hw'
    cases hw'
    refine ⟨Mem.read_congr fun i hi => h.data _ _ ?_, L', p', c,
      ⟨hturn, hxf, .inr ⟨by omega, List.mem_append_left _ hp, ⟨a', ha', hra'⟩, ?_⟩, ?_, hcomps⟩,
      fun src => rfl⟩
    · intro x _ hx
      rw [ha'] at hx
      cases hx
      exact hdis i hi
    · intro k hk x hx hxr
      rcases List.mem_append.mp hk with hk | hk
      · exact huniq k hk x hx hxr
      · obtain rfl := List.mem_singleton.mp hk
        rw [ha] at hx
        cases hx
        rw [hrecv] at hxr
        cases hxr
    · intro b j hb
      rw [hmem]
      exact h.data b j fun x hlt => hb x (by omega)

/-- If what is ready is no send, no receive is waiting. -/
theorem Local.all_done (h : Local handlers P mem ep L p e c) (hs : Short (items P)) (hq : Quiet P)
    (hr : ep.readyQueue = [e]) (ha : P[e]? = some a) (hw : a.work.isSend = false) :
    c = e ∧ (∀ k ∈ ep.posted, ∀ x, P[k]? = some x → x.work.isRecv = false) ∧
      ep.mem = memAfter handlers mem (P.take e) := by
  rcases h.pending with ⟨rfl, hp⟩ | ⟨hce, _⟩
  · refine ⟨rfl, hp, ?_⟩
    funext b j
    exact h.data b j (by omega)
  · obtain ⟨_, _, d, t, buf, count, hw', _⟩ := h.ready_send hs hq hr ha hce
    rw [hw'] at hw
    cases hw

/-- A receive is handed over and waits. -/
theorem Local.recv (h : Local handlers P mem ep L p e c) (hs : Short (items P)) (hq : Quiet P)
    (hcl : Closed (items P)) (hr : ep.readyQueue = [e]) (ha : P[e]? = some a)
    (hw : a.work.isRecv = true) :
    c = e ∧ ∃ L' p', Local handlers P mem
      { ep with readyQueue := [], posted := ep.posted ++ [e] }.progressWork L' p' (e + 1) e := by
  have hsend : a.work.isSend = false := by
    cases hx : a.work <;> simp [hx, CollWork.isRecv, CollWork.isSend] at hw ⊢
  obtain ⟨rfl, hp, hmem⟩ := h.all_done hs hq hr ha hsend
  refine ⟨rfl, ?_⟩
  obtain ⟨L', p', hturn⟩ := h.turn.handed hr
  refine ⟨L', p', hturn, h.xfers_handed ha (by rw [hw, Bool.or_true]),
    .inr ⟨Nat.lt_succ_self c, by simp [CollEp.progressWork], ⟨a, ha, hw⟩, ?_⟩, ?_, ?_⟩
  · intro k hk x hx hxr
    rcases List.mem_append.mp hk with hk | hk
    · rw [hp k hk x hx] at hxr
      cases hxr
    · exact List.mem_singleton.mp hk
  · intro b j hb
    rw [memAfter_succ ha, Step.apply_frame hw _ (hb a (Nat.lt_succ_self c) ha), ← hmem]
    rfl
  · have hne : ¬ c + 1 = P.length := by
      rw [← length_items, ← hcl.comp c (a.work, a.fence) (by rw [getElem?_items, ha]; rfl)]
      intro hx
      simp only [] at hx
      simp [hx, CollWork.isRecv] at hw
    rw [if_neg hne]
    exact h.comps_zero ha

/-- An item that is no transfer is executed. -/
theorem Local.exec (h : Local handlers P mem ep L p e c) (hs : Short (items P)) (hq : Quiet P)
    (hcl : Closed (items P)) (hr : ep.readyQueue = [e]) (ha : P[e]? = some a) {m : Mem β V}
    (hw : a.work.effect handlers ep.mem = some m) :
    c = e ∧ ∃ L' p', Local handlers P mem
      ({ ep with readyQueue := [], mem := m, comps := ep.comps + a.work.isComp.toNat }.complete e)
      L' p' (e + 1) (e + 1) := by
  have hsend : a.work.isSend = false := by
    cases hx : a.work <;> simp [hx, CollWork.effect, CollWork.isSend] at hw ⊢
  obtain ⟨rfl, hp, hmem⟩ := h.all_done hs hq hr ha hsend
  refine ⟨rfl, ?_⟩
  obtain ⟨L', p', hturn⟩ := h.turn.done hr m (ep.comps + a.work.isComp.toNat)
  refine ⟨L', p', hturn, h.xfers, .inl ⟨rfl, hp⟩, ?_, ?_⟩
  · intro b j _
    rw [memAfter_succ ha, ← hmem, Step.apply_of_effect hw]
    rfl
  · have hlast := hcl.comp c (a.work, a.fence) (by rw [getElem?_items, ha]; rfl)
    rw [length_items] at hlast
    show ep.comps + a.work.isComp.toNat = _
    rw [h.comps_zero ha]
    by_cases hx : a.work = .comp
    · rw [if_pos (hlast.mp hx), hx]
      rfl
    · rw [if_neg fun hl => hx (hlast.mpr hl)]
      cases hy : a.work <;> simp [hy, CollWork.isComp] at hx ⊢

/-- A send completes. -/
theorem Local.sent (h : Local handlers P mem ep L p e c) (hs : Short (items P))
    (hi : i ∈ ep.posted) (ha : P[i]? = some a) (hw : a.work.isSend = true) :
    ∃ L' p', Local handlers P mem ({ ep with posted := ep.posted.erase i }.complete i) L' p' e c := by
  have hrecv : a.work.isRecv = false := by
    cases hx : a.work <;> simp [hx, CollWork.isRecv, CollWork.isSend] at hw ⊢
  obtain ⟨L', p', hturn⟩ := h.turn.xferComp hs hi ep.mem
  refine ⟨L', p', hturn, fun k hk => h.xfers k (List.mem_of_mem_erase hk), ?_, h.data, h.comps⟩
  rcases h.pending with ⟨hce, hp⟩ | ⟨hce, hp, ⟨a', ha', hra'⟩, huniq⟩
  · exact .inl ⟨hce, fun k hk => hp k (List.mem_of_mem_erase hk)⟩
  · refine .inr ⟨hce, ?_, ⟨a', ha', hra'⟩, fun k hk => huniq k (List.mem_of_mem_erase hk)⟩
    refine (List.mem_erase_of_ne ?_).mpr hp
    rintro rfl
    rw [ha] at ha'
    cases ha'
    rw [hrecv] at hra'
    cases hra'

/-- The sequential execution up to a receive that is waiting, and the receive. -/
theorem Local.memAfter_pending (h : Local handlers P mem ep L p e c) (hs : Short (items P))
    (hq : Quiet P) (hc : c < e) (ha : P[c]? = some a) :
    memAfter handlers mem (P.take e) = a.apply handlers (memAfter handlers mem (P.take c)) ∧
      ∀ src, expected src (P.take e) = expected src (P.take c) ++ a.expects src := by
  obtain ⟨⟨x, hx, hid⟩, hp⟩ := h.window hs hc
  have hep : e ≤ p := by
    have := h.turn.turn
    grind
  by_cases he : e = c + 1
  · subst he
    exact ⟨memAfter_succ ha, fun src => expected_succ ha⟩
  · -- the item behind the receive is a send
    have he' : e = c + 2 := by omega
    have hbound := h.turn.shape.layout.bound
    rw [length_items] at hbound
    have hb : P[c + 1]? = some P[c + 1] := List.getElem?_eq_getElem (by omega)
    have hnf : ¬ FenceAt (items P) c := h.turn.shape.layout.noFence x hx c (by omega) (by omega)
    rw [fenceAt_items ha] at hnf
    obtain ⟨a', ha', hra⟩ : ∃ a', P[c]? = some a' ∧ a'.work.isRecv = true := by
      have := h.pending
      grind
    rw [ha] at ha'
    cases ha'
    obtain ⟨d, t, buf, count, hw, _⟩ := hq c a _ ha hb hra (by simpa using hnf)
    subst he'
    refine ⟨?_, fun src => ?_⟩
    · rw [memAfter_succ hb, Step.apply_of_isSend (by rw [hw]; rfl), memAfter_succ ha]
    · rw [expected_succ hb, expected_succ ha]
      simp [Step.expects, hw]

/-- The receive that is waiting gets its message. -/
theorem Local.received (h : Local handlers P mem ep L p e c) (hs : Short (items P)) (hq : Quiet P)
    (hc : c < e) (ha : P[c]? = some a) {src tag count : Nat} {buf : Ptr β}
    (hw : a.work = .recv src tag buf count) :
    ∃ L' p', Local handlers P mem
      ({ ep with posted := ep.posted.erase c,
                 mem := ep.mem.write buf (a.arrives.take count) }.complete c) L' p' e e := by
  obtain ⟨hcp, huniq⟩ : c ∈ ep.posted ∧
      ∀ k ∈ ep.posted, ∀ a, P[k]? = some a → a.work.isRecv = true → k = c := by
    have := h.pending
    grind
  obtain ⟨L', p', hturn⟩ := h.turn.xferComp hs hcp (ep.mem.write buf (a.arrives.take count))
  refine ⟨L', p', hturn, fun k hk => h.xfers k (List.mem_of_mem_erase hk), .inl ⟨rfl, ?_⟩, ?_,
    h.comps⟩
  · intro k hk x hx
    by_contra hxr
    have hkc := huniq k (List.mem_of_mem_erase hk) x hx (by simpa using hxr)
    have hnd := (List.nodup_append.mp h.turn.shape.nodup).2.1
    rw [List.append_nil] at hnd
    exact (hnd.mem_erase_iff.mp hk).1 hkc
  · intro b j _
    rw [(h.memAfter_pending hs hq hc ha).1]
    have happly : a.apply handlers (memAfter handlers mem (P.take c)) =
        (memAfter handlers mem (P.take c)).write buf (a.arrives.take count) := by
      simp [Step.apply, hw]
    rw [happly]
    show ep.mem.write buf (a.arrives.take count) b j = _
    refine Mem.write_congr fun hout => ?_
    rw [h.data b j, (h.memAfter_pending hs hq hc ha).1, happly, Mem.write_frame _ _ _ hout]
    intro x _ hx
    rw [ha] at hx
    cases hx
    simpa [Step.target, hw] using hout

/-- A member that has just made its call. -/
theorem Local.entered (hcl : Closed (items P)) :
    ∃ L p, Local handlers P mem (CollEp.entered (items P) mem) L p 0 0 := by
  obtain ⟨L, p, hturn⟩ := Turn.of_progressWork (e := 0)
    { workQueue := queueOf (items P), mem := mem } (Layout.nil (items P)) rfl (by simp) (by simp)
    (.inl ⟨rfl, rfl⟩) (by simp)
  refine ⟨L, p, hturn, by simp [CollEp.entered, CollEp.progressWork],
    .inl ⟨rfl, by simp [CollEp.entered, CollEp.progressWork]⟩, fun b j _ => rfl, ?_⟩
  have hne : ¬ 0 = P.length := by
    have := hcl.nonempty
    rw [← length_items]
    exact fun h => this (List.length_eq_zero_iff.mp h.symm)
  rw [if_neg hne]
  rfl

end Local

end SstTransports.Util
