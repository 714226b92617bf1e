/-
# SstTransports.Util.Barrier — nobody leaves before everybody has come.

The barrier is an allreduce of one element.  That it is a barrier has nothing to do with the value: what
counts is whom a member has heard of, over any number of others, when its completion function is
called.  After round `i` these are the members of its block of `2 ^ i` numbers (`called_of_heard`),
and after the last round all of them.
-/
import SstTransports.Util.Allreduce

namespace SstTransports.Util

open SstTransports.Lib

/-! ## §1 — hearing of others -/

section Causes

variable {β V : Type} [DecidableEq β] {handlers : Handlers V} {g : Group β V}
  {P : Nat → List (Step β V)} {net : Net β V} {e c : Nat → Nat} {r s : Nat}

/-- Behind a message that has been received is a send that has been executed. -/
theorem Inv.heard (h : Inv handlers g P net e c) (hs : s < g.size) (hr : r < g.size) {i t n : Nat}
    {buf : Ptr β} {a : Step β V} (hi : i < c r) (ha : (P r)[i]? = some a)
    (hw : a.work = .recv s t buf n) :
    ∃ k b, k < e s ∧ (P s)[k]? = some b ∧ b.work.isSend = true ∧ b.round = a.round := by
  obtain ⟨ms, hms, _⟩ := h.chan s hs r hr
  have hmem : (a.round, a.arrives) ∈ expected s ((P r).take (c r)) := by
    refine List.mem_flatMap.mpr ⟨a, List.mem_of_getElem? (i := i) ?_, ?_⟩
    · rw [List.getElem?_take_of_lt hi]
      exact ha
    · simp [Step.expects, hw]
  have hsent : (a.round, a.arrives) ∈ sentTo handlers r (g.mem s) ((P s).take (e s)) := by
    rw [hms]
    exact List.mem_append_left _ hmem
  obtain ⟨k, b, hb, hbs, hround⟩ := send_of_sentTo hsent
  have hk : k < e s := by
    have := (List.getElem?_eq_some_iff.mp hb).1
    rw [List.length_take] at this
    omega
  rw [List.getElem?_take_of_lt hk] at hb
  exact ⟨k, b, hk, hb, hbs, hround⟩

/-- A member that has executed something has made its call. -/
theorem Inv.called_of_lt (h : Inv handlers g P net e c) {k : Nat} (hk : k < e s) :
    net.ep s ≠ none := by
  intro hnone
  have := (h.idle s hnone).1
  omega

/-- Behind a fence all messages before it have been received. -/
theorem Inv.past_fence (h : Inv handlers g P net e c) (hP : Sound handlers g P) {f k : Nat}
    (hk : k < e s) (hfk : f < k) (hf : FenceAt (items (P s)) f) : f < c s := by
  obtain ⟨ep, hep⟩ := Option.ne_none_iff_exists'.mp (h.called_of_lt hk)
  obtain ⟨hs, L, p, hl⟩ := h.active s ep hep
  rcases hl.pending with ⟨hc, _⟩ | ⟨hce, _⟩
  · omega
  · obtain ⟨⟨x, hx, hid⟩, _⟩ := hl.window (hP.short s hs) hce
    have hp : e s ≤ p := by
      have := hl.turn.turn
      omega
    by_contra hle
    exact hl.turn.shape.layout.noFence x hx f (by omega) (by omega) hf

end Causes

/-! ## §2 — the rounds of an allreduce -/

namespace Allreduce

variable {V : Type} {A : Allreduce V} {handlers : Handlers V} {f : V → V → V}
  {mem : Nat → Mem AllreduceBuf V} {net : Net AllreduceBuf V} {e c : Nat → Nat} {r s id : Nat}

/-- The number under which a member, perhaps through another one, takes part in the rounds. -/
def idOf (A : Allreduce V) (x : Nat) : Nat := if x < 2 * A.rem then x / 2 else x - A.rem

/-- The messages of the rounds up to `i` have been received. -/
def Received (A : Allreduce V) (f : V → V → V) (c : Nat → Nat) (s i : Nat) : Prop :=
  ∀ j a, (A.plan f s)[j]? = some a → a.work.isRecv = true → a.round ≤ i → j < c s

/-- The plan is cut after the rounds before `i`. -/
theorem plan_cut (h : A.Valid) (hh : handlers A.op = some f) (hop : A.op.reduces = true)
    (mem : Nat → Mem AllreduceBuf V) (hs : s < A.size) {i : Nat} (hi : i ≤ A.size.log2) :
    ∃ Q R, A.plan f s = Q ++ R ∧ Groups Q ∧ (∀ a ∈ Q, Within handlers (A.group mem) s 0 i a) ∧
      ∀ b ∈ R, b.work = .comp ∨ Within handlers (A.group mem) s (i + 1) (A.size.log2 + 1) b := by
  have hpre : ∀ a ∈ A.pre s, Within handlers (A.group mem) s 0 i a := fun a ha =>
    (within_pre h hh hop hs a ha).mono (by omega) (by omega)
  have hpost : ∀ b ∈ A.post f s ++ [⟨.comp, true, 0, []⟩], b.work = .comp ∨
      Within handlers (A.group mem) s (i + 1) (A.size.log2 + 1) b := by
    intro b hb
    rcases List.mem_append.mp hb with hb | hb
    · exact .inr ((within_post h hs b hb).mono (by omega) (by omega))
    · obtain rfl := List.mem_singleton.mp hb
      exact .inl rfl
  cases hid : A.newId s with
  | none =>
      refine ⟨A.pre s, A.post f s ++ [⟨.comp, true, 0, []⟩], ?_, groups_pre s, hpre, hpost⟩
      simp [plan, body, rounds, hid]
  | some id =>
      obtain ⟨k, hk⟩ := Nat.exists_eq_add_of_le hi
      have hin : ∀ j < A.size.log2, ∀ a ∈ A.round f s id j,
          Within handlers (A.group mem) s (j + 1) (j + 1) a :=
        fun j hj => within_round h hh hop hj (newId_lt h hs hid)
      refine ⟨A.pre s ++ (List.range i).flatMap (A.round f s id),
        ((List.range k).map (i + ·)).flatMap (A.round f s id) ++
          (A.post f s ++ [⟨.comp, true, 0, []⟩]), ?_,
        (groups_pre s).append (.flatMap (groups_round f s id) _), ?_, ?_⟩
      · simp [plan, body, rounds, hid, hk, List.range_add, List.append_assoc]
      · intro a ha
        rcases List.mem_append.mp ha with ha | ha
        · exact hpre a ha
        · obtain ⟨j, hj, ha⟩ := List.mem_flatMap.mp ha
          have hj := List.mem_range.mp hj
          exact (hin j (by omega) a ha).mono (by omega) (by omega)
      · intro b hb
        rcases List.mem_append.mp hb with hb | hb
        · obtain ⟨j, hj, hb⟩ := List.mem_flatMap.mp hb
          obtain ⟨l, hl, rfl⟩ := List.mem_map.mp hj
          have hl := List.mem_range.mp hl
          exact .inr ((hin _ (by omega) b hb).mono (by omega) (by omega))
        · exact hpost b hb

/-- A member that sends in round `i + 1` has the messages of the rounds before. -/
theorem received_of_sent (h : A.Valid) (hh : handlers A.op = some f) (hop : A.op.reduces = true)
    (hinv : Inv handlers (A.group mem) (A.plan f) net e c) (hs : s < A.size) {i k : Nat}
    (hi : i ≤ A.size.log2) {b : Step AllreduceBuf V} (hk : k < e s) (hb : (A.plan f s)[k]? = some b)
    (hsend : b.work.isSend = true) (hround : b.round = i + 1) : A.Received f c s i := by
  obtain ⟨Q, R, hcut, hQ, hfirst, hrest⟩ := plan_cut h hh hop mem hs hi
  have hkQ : Q.length ≤ k := by
    by_contra hlt
    rw [hcut, List.getElem?_append_left (by omega)] at hb
    have := (hfirst b (List.mem_of_getElem? hb)).round_mem (by simp [hsend])
    omega
  intro j a ha hrecv hle
  have hjQ : j < Q.length := by
    by_contra hge
    rw [hcut, List.getElem?_append_right (by omega)] at ha
    rcases hrest a (List.mem_of_getElem? ha) with hcomp | hin
    · simp [hcomp, CollWork.isRecv] at hrecv
    · have := hin.round_mem (by simp [hrecv])
      omega
  have hfence : FenceAt (items (A.plan f s)) (Q.length - 1) := by
    obtain ⟨w, hw⟩ := hQ.last_fence (Q.length - 1) (by omega)
    refine ⟨w, ?_⟩
    rw [hcut, items_append, List.getElem?_append_left (by rw [length_items]; omega)]
    exact hw
  have := hinv.past_fence (sound mem h hh hop) hk (by omega) hfence
  omega

/-- The sender of a message that has been received has made its call, and has itself the messages of the
rounds before. -/
theorem received_of_heard (h : A.Valid) (hh : handlers A.op = some f) (hop : A.op.reduces = true)
    (hinv : Inv handlers (A.group mem) (A.plan f) net e c) (hs : s < A.size) (hr : r < A.size)
    {i : Nat} {p : Ptr AllreduceBuf} {fence : Bool} {vs : List V} (hrecv : A.Received f c r i)
    (ha : A.recv s p fence i vs ∈ A.plan f r) :
    net.ep s ≠ none ∧ ∀ j, i = j + 1 → j ≤ A.size.log2 → A.Received f c s j := by
  obtain ⟨k, hk⟩ := List.mem_iff_getElem?.mp ha
  obtain ⟨k', b, hk', hb, hsend, hround⟩ :=
    hinv.heard hs hr (hrecv k _ hk rfl (Nat.le_refl i)) hk rfl
  refine ⟨hinv.called_of_lt hk', ?_⟩
  rintro j rfl hj
  exact received_of_sent h hh hop hinv hs hj hk' hb hsend hround

/-- The member that takes part in the rounds for another one. -/
theorem eq_or_pred_of_idOf {x : Nat} (hid : A.newId s = some id) (hx : A.idOf x = id) :
    x = s ∨ x + 1 = s ∧ s < 2 * A.rem ∧ s % 2 = 1 := by
  unfold newId at hid
  unfold idOf at hx
  split at hid
  · split at hid
    · cases hid
    · cases hid
      split at hx <;> omega
  · cases hid
    split at hx <;> omega

/-- **Whom a member has heard of.**  With the messages of the rounds up to `i`, all members of its block
of `2 ^ i` numbers have made their call. -/
theorem called_of_heard (h : A.Valid) (hh : handlers A.op = some f) (hop : A.op.reduces = true)
    (hinv : Inv handlers (A.group mem) (A.plan f) net e c) (i : Nat) (hi : i ≤ A.size.log2) :
    ∀ s id, s < A.size → A.newId s = some id → net.ep s ≠ none → A.Received f c s i →
      ∀ x < A.size, A.idOf x / 2 ^ i = id / 2 ^ i → net.ep x ≠ none := by
  induction i with
  | zero =>
      intro s id hs hid hcall hrecv x hx hblock
      simp only [Nat.pow_zero, Nat.div_one] at hblock
      rcases eq_or_pred_of_idOf hid hblock with rfl | ⟨hpred, hfirst, hodd⟩
      · exact hcall
      · -- the even one has given its value away
        have hmem : A.recv x tmpPtr true 0 (A.data x) ∈ A.plan f s := by
          have hpre : A.recv (s - 1) tmpPtr true 0 (A.data (s - 1)) ∈ A.pre s := by
            simp [pre, hfirst, hodd]
          rw [show s - 1 = x by omega] at hpre
          simp [plan, body, hpre]
        exact (received_of_heard h hh hop hinv hx hs hrecv hmem).1
  | succ i ih =>
      intro s id hs hid hcall hrecv x hx hblock
      have hlow : A.Received f c s i := fun j a ha hra hle => hrecv j a ha hra (by omega)
      have hlt := newId_lt h hs hid
      have hother : id ^^^ 2 ^ i < 2 ^ A.size.log2 := xor_lt (by omega) hlt
      -- the partner of the round has the other half of the block
      have hmem : A.recv (A.rankOf (id ^^^ 2 ^ i)) tmpPtr false (i + 1) (A.value f i (id ^^^ 2 ^ i)) ∈
          A.plan f s := by
        have hround : A.recv (A.rankOf (id ^^^ 2 ^ i)) tmpPtr false (i + 1)
            (A.value f i (id ^^^ 2 ^ i)) ∈ A.rounds f s := by
          simp only [rounds, hid]
          exact List.mem_flatMap.mpr ⟨i, List.mem_range.mpr (by omega), List.mem_cons_self⟩
        simp [plan, body, hround]
      obtain ⟨hcall', hrecv'⟩ :=
        received_of_heard h hh hop hinv (rankOf_lt h hother) hs hrecv hmem
      have hhalf : A.idOf x / 2 ^ i = id / 2 ^ i ∨ A.idOf x / 2 ^ i = (id ^^^ 2 ^ i) / 2 ^ i := by
        have hdiv : ∀ n, n / 2 ^ (i + 1) = n / 2 ^ i / 2 := by
          intro n
          rw [Nat.pow_succ, Nat.div_div_eq_div_mul]
        rw [hdiv, hdiv] at hblock
        rw [Nat.xor_div_two_pow, Nat.div_self (Nat.two_pow_pos i)]
        generalize A.idOf x / 2 ^ i = m at *
        generalize id / 2 ^ i = n at *
        rcases Nat.mod_two_eq_zero_or_one n with hn | hn
        · rw [Nat.xor_one_of_even (Nat.even_iff.mpr hn)]
          omega
        · rw [Nat.xor_one_of_odd (Nat.odd_iff.mpr hn)]
          omega
      rcases hhalf with hhalf | hhalf
      · exact ih (by omega) s id hs hid hcall hlow x hx hhalf
      · exact ih (by omega) _ _ (rankOf_lt h hother) (newId_rankOf _) hcall'
          (hrecv' i rfl (by omega)) x hx hhalf

/-- **Nobody completes before everybody has called.** -/
theorem called_of_comps (h : A.Valid) (hh : handlers A.op = some f) (hop : A.op.reduces = true)
    {evs : List (NetEvent V)}
    (hacc : StepsMeet (Net.step handlers (A.group mem)) Accepts {} evs)
    (hrun : run (Net.step handlers (A.group mem)) {} evs = .ok net) {ep : CollEp AllreduceBuf V}
    (hep : net.ep r = some ep) (hc : ep.comps ≠ 0) : ∀ x < A.size, net.ep x ≠ none := by
  have hP := A.sound mem h hh hop
  obtain ⟨e, c, hinv⟩ := hP.inv hacc hrun
  obtain ⟨hr, L, p, hl⟩ := hinv.active r ep hep
  have hr : r < A.size := hr
  obtain ⟨hs, hrem⟩ := h.size_eq
  have hall : A.Received f c r (A.size.log2 + 1) := by
    have he : e r = (A.plan f r).length := by
      by_contra hne
      have := hl.comps
      rw [if_neg hne] at this
      exact hc this
    have hcr := (he ▸ hl).pending_length (hP.short r hr) (hP.closed r hr)
    intro j a ha _ _
    have := (List.getElem?_eq_some_iff.mp ha).1
    omega
  have hblock : ∀ x id, x < A.size → id < 2 ^ A.size.log2 →
      A.idOf x / 2 ^ A.size.log2 = id / 2 ^ A.size.log2 := by
    intro x id hx hid
    have : A.idOf x < 2 ^ A.size.log2 := by
      unfold idOf
      split <;> omega
    rw [Nat.div_eq_of_lt this, Nat.div_eq_of_lt hid]
  intro x hx
  cases hid : A.newId r with
  | some id =>
      exact called_of_heard h hh hop hinv _ (Nat.le_refl _) r id hr hid (by rw [hep]; simp)
        (fun j a ha hra hle => hall j a ha hra (by omega)) x hx (hblock x id hx (newId_lt h hr hid))
  | none =>
      -- the result came from the odd one behind
      obtain ⟨hfirst, heven⟩ := newId_eq_none.mp hid
      have hmem : A.recv (r + 1) resultPtr true (A.size.log2 + 1) (A.value f A.size.log2 (r / 2)) ∈
          A.plan f r := by
        simp [plan, body, post, hfirst, heven]
      have hlt : r + 1 < A.size := by omega
      have hid' : A.newId (r + 1) = some ((r + 1) / 2) := by
        unfold newId
        rw [if_pos (by omega), if_neg (by omega)]
      obtain ⟨hcall, hrecv⟩ := received_of_heard h hh hop hinv hlt hr hall hmem
      exact called_of_heard h hh hop hinv _ (Nat.le_refl _) (r + 1) _ hlt hid' hcall
        (hrecv _ rfl (Nat.le_refl _)) x hx (hblock x _ hx (newId_lt h hlt hid'))

/-! ## §3 — the barrier -/

/-- What the members reduce in `ofi_ep_barrier`: each the complement of its rank. -/
def barrier (size cid : Nat) : Allreduce (BitVec 64) where
  size := size
  cid := cid
  count := 1
  op := .band
  data := fun r => [~~~ BitVec.ofNat 64 r]

theorem barrier_valid {size cid : Nat} (hpos : size ≠ 0) (hbound : size < 2 ^ 31) :
    (barrier size cid).Valid :=
  ⟨hpos, hbound, Nat.one_lt_two_pow (by decide), fun _ _ => rfl⟩

/-- **The barrier.**  Whatever the interleaving, when the barrier of one member completes every member of
the group has made its call. -/
theorem barrier_holds {size cid : Nat} (hpos : size ≠ 0) (hbound : size < 2 ^ 31)
    {mem : Nat → Mem AllreduceBuf (BitVec 64)} {evs : List (NetEvent (BitVec 64))}
    {net : Net AllreduceBuf (BitVec 64)}
    (hacc : StepsMeet (Net.step (ofiAtomicWriteHandlers false) ((barrier size cid).group mem)) Accepts {}
      evs)
    (hrun : run (Net.step (ofiAtomicWriteHandlers false) ((barrier size cid).group mem)) {} evs = .ok net)
    {r : Nat} {ep : CollEp AllreduceBuf (BitVec 64)} (hep : net.ep r = some ep) (hc : ep.comps ≠ 0) :
    ∀ x < size, net.ep x ≠ none :=
  called_of_comps (barrier_valid hpos hbound) rfl rfl hacc hrun hep hc

theorem barrier_holds_three : ∃ evs net ep,
    run (Net.step (ofiAtomicWriteHandlers false) ((barrier 3 7).group fun _ _ _ => 0)) {} evs =
      .ok net ∧ net.ep 0 = some ep ∧ ep.comps = 1 ∧ ∀ x < 3, net.ep x ≠ none := by
  have hA : Computes (ofiAtomicWriteHandlers false) ((barrier 3 7).group fun _ _ _ => 0) _ _ :=
    computes (barrier_valid (by decide) (by decide)) rfl rfl fun _ _ _ => 0
  obtain ⟨evs, net, hacc, hrun, hall⟩ := hA.continues [] trivial rfl
  obtain ⟨ep, hep, hc, _⟩ := hall 0 (by decide)
  exact ⟨evs, net, ep, hrun, hep, hc, barrier_holds (by decide) (by decide) hacc hrun hep (by omega)⟩

end Allreduce

end SstTransports.Util
