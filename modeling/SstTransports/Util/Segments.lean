/-
# SstTransports.Util.Segments — plans put together from parts.

A schedule is built part by part: what happens before the main rounds, each round, what happens after
them, the completion item.  What is asked of a whole plan (`Closed`, `Short`, `Quiet`, the order of the
rounds) follows from the same for its parts, since every part ends with a fence.
-/
import SstTransports.Util.Network

namespace SstTransports.Util

variable {β V : Type}

/-! ## §1 — fence groups -/

/-- A list of items made of fence groups of one or two items.  If a receive is in front, the fence
behind it is a send from other elements. -/
inductive Groups : List (Step β V) → Prop where
  | nil : Groups []
  | single {a : Step β V} {l : List (Step β V)} (hf : a.fence = true) (hl : Groups l) :
      Groups (a :: l)
  | pair {a b : Step β V} {l : List (Step β V)} (ha : a.fence = false) (hb : b.fence = true)
      (hq : a.work.isRecv = true → ∃ d t buf count, b.work = .send d t buf count ∧
        ∀ j < count, ¬ a.target buf.buf (buf.off + j))
      (hl : Groups l) : Groups (a :: b :: l)

namespace Groups

variable {l l' : List (Step β V)}

theorem append (h : Groups l) (h' : Groups l') : Groups (l ++ l') := by
  induction h with
  | nil => exact h'
  | single hf _ ih => exact .single hf ih
  | pair ha hb hq _ ih => exact .pair ha hb hq ih

/-- Items that are all fences. -/
theorem of_fences (h : ∀ a ∈ l, a.fence = true) : Groups l := by
  induction l with
  | nil => exact .nil
  | cons a l ih =>
      exact .single (h a List.mem_cons_self) (ih fun b hb => h b (List.mem_cons_of_mem _ hb))

theorem flatMap {ι : Type} {f : ι → List (Step β V)} (hf : ∀ i, Groups (f i)) (is : List ι) :
    Groups (is.flatMap f) := by
  induction is with
  | nil => exact .nil
  | cons i is ih => exact (hf i).append ih

theorem short (h : Groups l) : Short (items l) := by
  induction h with
  | nil =>
      intro i w w' hw
      simp [items] at hw
  | single hf _ ih =>
      intro i w w' hw hw'
      cases i with
      | zero => simp [items, hf] at hw
      | succ i => exact ih i w w' hw hw'
  | pair ha hb _ _ ih =>
      intro i w w' hw hw'
      rcases i with _ | _ | i
      · simp only [items, List.map_cons, Nat.zero_add, List.getElem?_cons_succ,
          List.getElem?_cons_zero, Option.some.injEq] at hw'
        rw [← hw']
        exact hb
      · simp [items, hb] at hw
      · exact ih i w w' hw hw'

theorem quiet (h : Groups l) : Quiet l := by
  induction h with
  | nil =>
      intro i a b ha
      simp at ha
  | single hf _ ih =>
      intro i a b ha hb hr hfa
      cases i with
      | zero =>
          cases ha
          rw [hf] at hfa
          cases hfa
      | succ i => exact ih i a b ha hb hr hfa
  | pair hfa hfb hq _ ih =>
      intro i a b ha hb hr hf
      rcases i with _ | _ | i
      · cases ha
        cases hb
        exact hq hr
      · cases ha
        rw [hfb] at hf
        cases hf
      · exact ih i a b ha hb hr hf

/-- The last item is a fence. -/
theorem last_fence (h : Groups l) : ∀ i, i + 1 = l.length → FenceAt (items l) i := by
  induction h with
  | nil =>
      intro i hi
      cases hi
  | @single a l hf hl ih =>
      intro i hi
      cases i with
      | zero => exact ⟨a.work, by simp [items, hf]⟩
      | succ i => exact ih i (by simpa using hi)
  | @pair a b l ha hb _ hl ih =>
      intro i hi
      rcases i with _ | _ | i
      · simp at hi
      · exact ⟨b.work, by simp [items, hb]⟩
      · exact ih i (by simpa using hi)

/-- A plan that ends in its only completion item. -/
theorem closed (h : Groups l) (hc : ∀ a ∈ l, a.work ≠ .comp) {a : Step β V} (ha : a.work = .comp) :
    Closed (items (l ++ [a])) where
  nonempty := by simp [items]
  comp := by
    intro i w hw
    rw [getElem?_items] at hw
    obtain ⟨b, hb, rfl⟩ := Option.map_eq_some_iff.mp hw
    have hi := (List.getElem?_eq_some_iff.mp hb).1
    rw [length_items]
    simp only [List.length_append, List.length_singleton] at hi ⊢
    by_cases hil : i < l.length
    · rw [List.getElem?_append_left hil] at hb
      constructor
      · intro hx
        exact absurd hx (hc b (List.mem_of_getElem? hb))
      · intro hx
        omega
    · obtain rfl : i = l.length := by omega
      simp only [List.getElem?_concat_length, Option.some.injEq] at hb
      subst hb
      exact ⟨fun _ => rfl, fun _ => ha⟩
  fenced := by
    intro i hi
    rw [length_items, List.length_append, List.length_singleton] at hi
    obtain ⟨w, hw⟩ := h.last_fence i (by omega)
    refine ⟨w, ?_⟩
    rw [← hw, getElem?_items, getElem?_items, List.getElem?_append_left (by omega)]

end Groups

/-! ## §2 — rounds -/

/-- A send behind a fence behind a receive belongs to a later round. -/
def RoundsOk (P : List (Step β V)) : Prop :=
  ∀ i j a b, P[i]? = some a → P[j]? = some b → a.work.isRecv = true → b.work.isSend = true →
    (∃ f, i ≤ f ∧ f < j ∧ FenceAt (items P) f) → a.round < b.round

theorem RoundsOk.append {P Q : List (Step β V)} (hP : RoundsOk P) (hQ : RoundsOk Q)
    (h : ∀ a ∈ P, ∀ b ∈ Q, a.work.isRecv = true → b.work.isSend = true → a.round < b.round) :
    RoundsOk (P ++ Q) := by
  rintro i j a b ha hb hra hsb ⟨f, hif, hfj, w, hw⟩
  rw [getElem?_items] at hw
  by_cases hj : j < P.length
  · rw [List.getElem?_append_left (by omega)] at ha hb hw
    exact hP i j a b ha hb hra hsb ⟨f, hif, hfj, w, by rw [getElem?_items]; exact hw⟩
  · rw [List.getElem?_append_right (by omega)] at hb
    by_cases hi : i < P.length
    · rw [List.getElem?_append_left hi] at ha
      exact h a (List.mem_of_getElem? ha) b (List.mem_of_getElem? hb) hra hsb
    · rw [List.getElem?_append_right (by omega)] at ha hw
      exact hQ (i - P.length) (j - P.length) a b ha hb hra hsb
        ⟨f - P.length, by omega, by omega, w, by rw [getElem?_items]; exact hw⟩

theorem RoundsOk.of_lt {P : List (Step β V)} (h : ∀ a ∈ P, ∀ b ∈ P, a.work.isRecv = true →
    b.work.isSend = true → a.round < b.round) : RoundsOk P :=
  fun _ _ a b ha hb hra hsb _ => h a (List.mem_of_getElem? ha) b (List.mem_of_getElem? hb) hra hsb

theorem RoundsOk.of_no_recv {P : List (Step β V)} (h : ∀ a ∈ P, a.work.isRecv = false) :
    RoundsOk P := by
  intro i j a b ha _ hra
  rw [h a (List.mem_of_getElem? ha)] at hra
  cases hra

theorem RoundsOk.of_no_send {P : List (Step β V)} (h : ∀ a ∈ P, a.work.isSend = false) :
    RoundsOk P := by
  intro i j a b _ hb _ hsb
  rw [h b (List.mem_of_getElem? hb)] at hsb
  cases hsb

/-- A receive and a send in one fence group. -/
theorem RoundsOk.pair {a b : Step β V} (ha : a.fence = false) (hb : b.work.isRecv = false) :
    RoundsOk [a, b] := by
  rintro i j x y hx hy hrx hsy ⟨f, hif, hfj, hf⟩
  rcases i with _ | _ | i
  · have hj := (List.getElem?_eq_some_iff.mp hy).1
    obtain rfl : f = 0 := by
      simp only [List.length_cons, List.length_nil] at hj
      omega
    rw [fenceAt_items (a := a) rfl, ha] at hf
    cases hf
  · cases hx
    rw [hb] at hrx
    cases hrx
  · simp at hx

/-- A send and a receive in one fence group. -/
theorem RoundsOk.swap {a b : Step β V} (ha : a.work.isRecv = false) :
    RoundsOk [a, b] := by
  rintro i j x y hx hy hrx _ ⟨f, hif, hfj, _⟩
  rcases i with _ | _ | i
  · cases hx
    rw [ha] at hrx
    cases hrx
  · have hj := (List.getElem?_eq_some_iff.mp hy).1
    simp only [List.length_cons, List.length_nil] at hj
    omega
  · simp at hx

theorem RoundsOk.flatMap {F : Nat → List (Step β V)} (hF : ∀ i, RoundsOk (F i)) (n : Nat)
    (hlt : ∀ i j, i < j → j < n → ∀ a ∈ F i, ∀ b ∈ F j, a.work.isRecv = true →
      b.work.isSend = true → a.round < b.round) : RoundsOk ((List.range n).flatMap F) := by
  induction n with
  | zero => exact .of_no_recv (by simp)
  | succ n ih =>
      rw [List.range_succ, List.flatMap_append]
      refine (ih fun i j hij hj => hlt i j hij (by omega)).append (by simpa using hF n) ?_
      intro a ha b hb
      obtain ⟨i, hi, ha⟩ := List.mem_flatMap.mp ha
      exact hlt i n (List.mem_range.mp hi) (by omega) a ha b (by simpa using hb)

/-! ## §3 — items of a plan -/

/-- A send of the member `r` in an operation. -/
def sendStep (cid r dest : Nat) (buf : Ptr β) (count : Nat) (fence : Bool) (round : Nat) : Step β V :=
  ⟨.send dest (utilCollFormTag cid r) buf count, fence, round, []⟩

/-- A receive that is to get some data. -/
def recvStep (cid src : Nat) (buf : Ptr β) (count : Nat) (fence : Bool) (round : Nat)
    (arrives : List V) : Step β V :=
  ⟨.recv src (utilCollFormTag cid src) buf count, fence, round, arrives⟩

def copyStep (inBuf outBuf : Ptr β) (count : Nat) : Step β V :=
  ⟨.copy inBuf outBuf count, true, 0, []⟩

/-- The completion item. -/
def compStep : Step β V := ⟨.comp, true, 0, []⟩

/-- The schedule of a call that ends with `util_coll_sched_comp`. -/
theorem schedule_comp {op op' : CollOperation β} {P : List (Step β V)}
    (h : op' = op.schedule (items P)) (hq : op.workQueue = []) :
    (op'.utilCollSchedComp.workQueue.map fun x => (x.work, x.fence)) =
      items (P ++ [(compStep : Step β V)]) := by
  have hcomp : op'.utilCollSchedComp = op'.schedule [(.comp, true)] := rfl
  rw [hcomp, h, CollOperation.schedule_append, CollOperation.schedule_workQueue _ _ hq, map_queueOf,
    items_append]
  rfl

section Items

variable {mem : Mem β V}

@[simp]
theorem sends_sendStep (cid r dest : Nat) (buf : Ptr β) (count : Nat) (fence : Bool) (round q : Nat) :
    (sendStep cid r dest buf count fence round).sends mem q =
      if dest = q then [(round, mem.read buf count)] else [] := rfl

@[simp]
theorem sends_recvStep (cid src : Nat) (buf : Ptr β) (count : Nat) (fence : Bool) (round q : Nat)
    (vs : List V) : (recvStep cid src buf count fence round vs).sends mem q = [] := rfl

@[simp]
theorem sends_copyStep (a b : Ptr β) (count q : Nat) : (copyStep a b count).sends mem q = [] := rfl

@[simp]
theorem expects_recvStep (cid src : Nat) (buf : Ptr β) (count : Nat) (fence : Bool) (round q : Nat)
    (vs : List V) : (recvStep cid src buf count fence round vs).expects q =
      if src = q then [(round, vs)] else [] := rfl

@[simp]
theorem expects_sendStep (cid r dest : Nat) (buf : Ptr β) (count : Nat) (fence : Bool) (round q : Nat) :
    (sendStep cid r dest buf count fence round : Step β V).expects q = [] := rfl

@[simp]
theorem expects_copyStep (a b : Ptr β) (count q : Nat) :
    (copyStep a b count : Step β V).expects q = [] := rfl

variable [DecidableEq β] {handlers : Handlers V}

@[simp]
theorem apply_sendStep (cid r dest : Nat) (buf : Ptr β) (count : Nat) (fence : Bool) (round : Nat) :
    (sendStep cid r dest buf count fence round).apply handlers mem = mem := rfl

theorem apply_recvStep (cid src : Nat) (buf : Ptr β) {count : Nat} (fence : Bool) (round : Nat)
    {vs : List V} (h : vs.length = count) :
    (recvStep cid src buf count fence round vs).apply handlers mem = mem.write buf vs := by
  simp [Step.apply, recvStep, ← h]

theorem apply_copyStep (a b : Ptr β) (count : Nat) :
    (copyStep a b count).apply handlers mem = mem.write b (mem.read a count) := rfl

@[simp]
theorem memAfter_compStep : memAfter handlers mem [compStep] = mem := rfl

end Items

/-! ## §4 — whole plans -/

section Whole

variable [DecidableEq β]

/-- An item of the member `r`: a transfer with a member of the group, under the tag of the sender and in
one of the rounds from `lo` to `hi`, or local work that can be done. -/
def Within (handlers : Handlers V) (g : Group β V) (r lo hi : Nat) (a : Step β V) : Prop :=
  match a.work with
  | .send d t _ _ => d < g.size ∧ t = g.tag r ∧ lo ≤ a.round ∧ a.round ≤ hi
  | .recv s t _ _ => s < g.size ∧ t = g.tag s ∧ lo ≤ a.round ∧ a.round ≤ hi
  | .comp => False
  | w => ∀ m, (w.effect handlers m).isSome = true

variable {handlers : Handlers V} {g : Group β V} {r lo hi lo' hi' : Nat} {a b : Step β V}

theorem Within.mono (h : Within handlers g r lo hi a) (hlo : lo' ≤ lo) (hhi : hi ≤ hi') :
    Within handlers g r lo' hi' a := by
  unfold Within at h ⊢
  split at h
  · exact ⟨h.1, h.2.1, by omega, by omega⟩
  · exact ⟨h.1, h.2.1, by omega, by omega⟩
  · exact h
  · exact h

theorem Within.round_mem (h : Within handlers g r lo hi a)
    (hx : (a.work.isSend || a.work.isRecv) = true) : lo ≤ a.round ∧ a.round ≤ hi := by
  unfold Within at h
  cases hw : a.work <;> simp only [hw, CollWork.isSend, CollWork.isRecv, Bool.or_false,
    Bool.false_eq_true] at h hx
  · exact h.2.2
  · exact h.2.2

theorem Within.round_lt (ha : Within handlers g r lo hi a) (hb : Within handlers g r lo' hi' b)
    (hlt : hi < lo') (hra : a.work.isRecv = true) (hsb : b.work.isSend = true) :
    a.round < b.round := by
  have := (ha.round_mem (by simp [hra])).2
  have := (hb.round_mem (by simp [hsb])).1
  omega

/-- A body of fence groups with rounds, followed by the completion item. -/
theorem Sound.of_body {body : Nat → List (Step β V)} (hi : Nat)
    (hsched : ∀ r < g.size, g.schedule r = items (body r ++ [compStep]))
    (hgroups : ∀ r < g.size, Groups (body r)) (hrounds : ∀ r < g.size, RoundsOk (body r))
    (hwithin : ∀ r < g.size, ∀ a ∈ body r, Within handlers g r 0 hi a)
    (hpaired : ∀ s < g.size, ∀ r < g.size, sentTo handlers r (g.mem s) (body s ++ [compStep]) =
      expected s (body r ++ [compStep])) :
    Sound handlers g fun r => body r ++ [compStep] := by
  have hgroups' : ∀ r < g.size, Groups (body r ++ [compStep]) := fun r hr =>
    (hgroups r hr).append (.single rfl .nil)
  have hcases : ∀ r < g.size, ∀ a ∈ body r ++ [compStep], a.work = .comp ∨ Within handlers g r 0 hi a := by
    intro r hr a ha
    rcases List.mem_append.mp ha with ha | ha
    · exact .inr (hwithin r hr a ha)
    · obtain rfl := List.mem_singleton.mp ha
      exact .inl rfl
  constructor
  · exact hsched
  · intro r hr
    refine (hgroups r hr).closed (fun a ha hc => ?_) rfl
    have := hwithin r hr a ha
    simp [Within, hc] at this
  · exact fun r hr => (hgroups' r hr).short
  · exact fun r hr => (hgroups' r hr).quiet
  · intro r hr a ha d t buf n hw
    rcases hcases r hr a ha with hc | hin
    · simp [hw] at hc
    · simp only [Within, hw] at hin
      exact ⟨hin.1, hin.2.1⟩
  · intro r hr a ha s t buf n hw
    rcases hcases r hr a ha with hc | hin
    · simp [hw] at hc
    · simp only [Within, hw] at hin
      exact ⟨hin.1, hin.2.1⟩
  · exact hpaired
  · intro r hr
    refine (hrounds r hr).append (.of_no_recv ?_) ?_
    · intro a ha
      obtain rfl := List.mem_singleton.mp ha
      rfl
    · intro a _ b hb _ hsb
      obtain rfl := List.mem_singleton.mp hb
      cases hsb
  · intro r hr a ha hw m
    rcases hcases r hr a ha with hc | hin
    · rw [hc]
      rfl
    · unfold Within at hin
      split at hin
      · rename_i hs
        rw [hs] at hw
        cases hw
      · rename_i hs
        rw [hs] at hw
        cases hw
      · exact hin.elim
      · exact hin m

end Whole

end SstTransports.Util
