/-
# SstTransports.Lib.Matcher — the reference matcher: two queues and first match.

Receives and messages meet in a matcher.  A receive accepts a message by the message's key alone
(`accepts r (key m)`), and may accept many keys.  An arriving message takes the earliest pending
receive that accepts it, or waits; a posted receive takes the earliest waiting message it accepts,
or waits.

`Ordered` is what this discipline is for.  Nothing that could meet is kept waiting on both sides,
and for each key the messages with that key are paired in arrival order and the receives they are
paired with are in posting order (`ordered_exec`).
-/
import Mathlib.Data.List.Induction

namespace SstTransports.Lib

variable {ρ μ κ : Type*}

/-- Receives that wait in posting order, messages that wait in arrival order, and the pairs formed
so far in the order of their forming. -/
structure Matcher (ρ μ : Type*) where
  pending : List ρ := []
  unexpected : List μ := []
  paired : List (μ × ρ) := []

namespace Matcher

inductive Event (ρ μ : Type*)
  | post (r : ρ)
  | arrive (m : μ)

/-- The receives posted by a sequence of events. -/
def posts (es : List (Event ρ μ)) : List ρ :=
  es.filterMap fun
    | .post r => some r
    | .arrive _ => none

/-- The messages arriving in a sequence of events. -/
def arrived (es : List (Event ρ μ)) : List μ :=
  es.filterMap fun
    | .post _ => none
    | .arrive m => some m

@[simp] theorem posts_append (es es' : List (Event ρ μ)) :
    posts (es ++ es') = posts es ++ posts es' :=
  List.filterMap_append

@[simp] theorem arrived_append (es es' : List (Event ρ μ)) :
    arrived (es ++ es') = arrived es ++ arrived es' :=
  List.filterMap_append

variable (accepts : ρ → κ → Bool) (key : μ → κ)

def arrive (q : Matcher ρ μ) (m : μ) : Matcher ρ μ :=
  match q.pending.find? (accepts · (key m)) with
  | some r =>
    { q with
      pending := q.pending.eraseP (accepts · (key m))
      paired := q.paired ++ [(m, r)] }
  | none => { q with unexpected := q.unexpected ++ [m] }

def post (q : Matcher ρ μ) (r : ρ) : Matcher ρ μ :=
  match q.unexpected.find? (fun m => accepts r (key m)) with
  | some m =>
    { q with
      unexpected := q.unexpected.eraseP (fun m => accepts r (key m))
      paired := q.paired ++ [(m, r)] }
  | none => { q with pending := q.pending ++ [r] }

def handle (q : Matcher ρ μ) : Event ρ μ → Matcher ρ μ
  | .post r => q.post accepts key r
  | .arrive m => q.arrive accepts key m

def exec (q : Matcher ρ μ) (es : List (Event ρ μ)) : Matcher ρ μ :=
  es.foldl (handle accepts key) q

/-! ## §1 — the four steps -/

section Steps

variable {accepts key} {q : Matcher ρ μ}

/-- A list with a first element that passes, split there. -/
theorem eraseP_split {α : Type*} {p : α → Bool} {pre post : List α} {x : α}
    (hpre : ∀ y ∈ pre, p y = false) (hx : p x = true) :
    (pre ++ x :: post).eraseP p = pre ++ post := by
  rw [List.eraseP_append_right _ (by simpa using hpre), List.eraseP_cons_of_pos hx]

theorem find?_split {α : Type*} {p : α → Bool} {pre post : List α} {x : α}
    (hpre : ∀ y ∈ pre, p y = false) (hx : p x = true) :
    (pre ++ x :: post).find? p = some x := by
  rw [List.find?_append, List.find?_eq_none.mpr (by simpa using hpre),
    List.find?_cons_of_pos hx, Option.none_or]

theorem arrive_of_match {m : μ} {pre post : List ρ} {r : ρ} (split : q.pending = pre ++ r :: post)
    (hpre : ∀ y ∈ pre, accepts y (key m) = false) (hr : accepts r (key m) = true) :
    q.arrive accepts key m =
      { q with pending := pre ++ post, paired := q.paired ++ [(m, r)] } := by
  simp only [arrive, split, find?_split hpre hr, eraseP_split hpre hr]

theorem arrive_of_miss {m : μ} (h : ∀ r ∈ q.pending, accepts r (key m) = false) :
    q.arrive accepts key m = { q with unexpected := q.unexpected ++ [m] } := by
  have hfind : q.pending.find? (accepts · (key m)) = none :=
    List.find?_eq_none.mpr (by simpa using h)
  simp only [arrive, hfind]

theorem post_of_match {r : ρ} {pre post : List μ} {m : μ} (split : q.unexpected = pre ++ m :: post)
    (hpre : ∀ y ∈ pre, accepts r (key y) = false) (hm : accepts r (key m) = true) :
    q.post accepts key r =
      { q with unexpected := pre ++ post, paired := q.paired ++ [(m, r)] } := by
  simp only [Matcher.post, split, find?_split hpre hm, eraseP_split hpre hm]

theorem post_of_miss {r : ρ} (h : ∀ m ∈ q.unexpected, accepts r (key m) = false) :
    q.post accepts key r = { q with pending := q.pending ++ [r] } := by
  have hfind : q.unexpected.find? (fun m => accepts r (key m)) = none :=
    List.find?_eq_none.mpr (by simpa using h)
  simp only [Matcher.post, hfind]

/-- Either no element passes, or there is a first one. -/
theorem first_or_none {α : Type*} (p : α → Bool) (l : List α) :
    (∀ x ∈ l, p x = false) ∨
      ∃ pre x post, l = pre ++ x :: post ∧ (∀ y ∈ pre, p y = false) ∧ p x = true := by
  cases h : l.find? p with
  | none => exact Or.inl (by simpa using List.find?_eq_none.mp h)
  | some x =>
      obtain ⟨hx, pre, post, hsplit, hpre⟩ := List.find?_eq_some_iff_append.mp h
      exact Or.inr ⟨pre, x, post, hsplit, by simpa using hpre, hx⟩

/-- An arrival that some pending receive accepts takes one of them. -/
theorem arrive_of_exists {m : μ} (h : ∃ r ∈ q.pending, accepts r (key m) = true) :
    (q.arrive accepts key m).pending.length + 1 = q.pending.length ∧
      (q.arrive accepts key m).unexpected = q.unexpected := by
  rcases first_or_none (accepts · (key m)) q.pending with hmiss | ⟨pre, r, post, split, hpre, hr⟩
  · obtain ⟨r, hr, hacc⟩ := h
    rw [hmiss r hr] at hacc
    cases hacc
  · rw [arrive_of_match split hpre hr, split]
    simp only [List.length_append, List.length_cons, and_true]
    omega

/-- A post that accepts some waiting message takes one of them. -/
theorem post_of_exists {r : ρ} (h : ∃ m ∈ q.unexpected, accepts r (key m) = true) :
    (q.post accepts key r).unexpected.length + 1 = q.unexpected.length ∧
      (q.post accepts key r).pending = q.pending := by
  rcases first_or_none (fun m => accepts r (key m)) q.unexpected with
    hmiss | ⟨pre, m, post, split, hpre, hm⟩
  · obtain ⟨m, hm, hacc⟩ := h
    rw [hmiss m hm] at hacc
    cases hacc
  · rw [post_of_match split hpre hm, split]
    simp only [List.length_append, List.length_cons, and_true]
    omega

end Steps

/-! ## §2 — what the discipline guarantees -/

variable [DecidableEq κ]

/-- The pairs formed for messages of one key. -/
def pairedAt (q : Matcher ρ μ) (k : κ) : List (μ × ρ) := q.paired.filter fun x => key x.1 = k

/-- The state of a matcher after the receives `R` were posted and the messages `M` arrived. -/
structure Ordered (q : Matcher ρ μ) (R : List ρ) (M : List μ) : Prop where
  /-- No pending receive accepts an unexpected message. -/
  apart : ∀ r ∈ q.pending, ∀ m ∈ q.unexpected, accepts r (key m) = false
  /-- The messages of a key are paired in arrival order; the rest of them wait. -/
  messages : ∀ k, (q.pairedAt key k).map Prod.fst ++ q.unexpected.filter (fun m => key m = k) =
    M.filter fun m => key m = k
  /-- The receives they are paired with, and then the pending ones that would take the next message
  of that key, are in posting order. -/
  receives : ∀ k, ((q.pairedAt key k).map Prod.snd ++ q.pending.filter (accepts · k)).Sublist R

variable {accepts key} {q : Matcher ρ μ} {R : List ρ} {M : List μ}

theorem pairedAt_snoc (q : Matcher ρ μ) (pending : List ρ) (unexpected : List μ) (m : μ) (r : ρ)
    (k : κ) :
    ({ pending, unexpected, paired := q.paired ++ [(m, r)] } : Matcher ρ μ).pairedAt key k =
      q.pairedAt key k ++ if key m = k then [(m, r)] else [] := by
  simp only [pairedAt, List.filter_append, List.filter_cons, List.filter_nil, decide_eq_true_eq]

theorem filter_split_first {α : Type*} {p : α → Bool} {pre : List α} {x : α}
    (hpre : ∀ y ∈ pre, p y = false) (hx : p x = true) (post : List α) :
    (pre ++ x :: post).filter p = x :: post.filter p ∧ (pre ++ post).filter p = post.filter p := by
  have hnil : pre.filter p = [] := List.filter_eq_nil_iff.mpr (by simpa using hpre)
  simp [hnil, hx]

theorem Ordered.arrive (h : q.Ordered accepts key R M) (m : μ) :
    (q.arrive accepts key m).Ordered accepts key R (M ++ [m]) := by
  rcases first_or_none (accepts · (key m)) q.pending with hmiss | ⟨pre, r, post, split, hpre, hr⟩
  · rw [arrive_of_miss hmiss]
    refine ⟨?_, ?_, h.receives⟩
    · intro r hr m' hm'
      rcases List.mem_append.mp hm' with hm' | hm'
      · exact h.apart r hr m' hm'
      · rw [List.mem_singleton.mp hm']
        exact hmiss r hr
    · intro k
      rw [List.filter_append, List.filter_append, ← List.append_assoc, ← h.messages k]
      rfl
  · rw [arrive_of_match split hpre hr]
    -- a message of the same key would have met `r`
    have hnone : q.unexpected.filter (fun m' => key m' = key m) = [] := by
      apply List.filter_eq_nil_iff.mpr
      intro m' hm'
      have hrej := h.apart r (by simp [split]) m' hm'
      simp only [decide_eq_true_eq]
      intro hkey
      rw [hkey, hr] at hrej
      cases hrej
    refine ⟨?_, ?_, ?_⟩
    · intro r' hr' m' hm'
      refine h.apart r' ?_ m' hm'
      rw [split]
      rcases List.mem_append.mp hr' with hr' | hr'
      · exact List.mem_append_left _ hr'
      · exact List.mem_append_right _ (List.mem_cons_of_mem r hr')
    · intro k
      rw [pairedAt_snoc, List.filter_append, ← h.messages k]
      by_cases hk : key m = k
      · subst hk
        simp [hnone]
      · simp [hk]
    · intro k
      rw [pairedAt_snoc]
      have hold := h.receives k
      by_cases hk : key m = k
      · subst hk
        obtain ⟨hbefore, hafter⟩ := filter_split_first hpre hr post
        rw [split, hbefore] at hold
        simpa [hafter] using hold
      · refine List.Sublist.trans ?_ hold
        have hsub : (pre ++ post).Sublist q.pending := by
          rw [split]
          exact (List.Sublist.refl pre).append (List.sublist_cons_self r post)
        simp only [hk, if_false, List.append_nil]
        exact (List.Sublist.refl ((q.pairedAt key k).map Prod.snd)).append (hsub.filter _)

theorem Ordered.post (h : q.Ordered accepts key R M) (r : ρ) :
    (q.post accepts key r).Ordered accepts key (R ++ [r]) M := by
  rcases first_or_none (fun m => accepts r (key m)) q.unexpected with
    hmiss | ⟨pre, m, post, split, hpre, hm⟩
  · rw [post_of_miss hmiss]
    refine ⟨?_, h.messages, ?_⟩
    · intro r' hr' m hm
      rcases List.mem_append.mp hr' with hr' | hr'
      · exact h.apart r' hr' m hm
      · rw [List.mem_singleton.mp hr']
        exact hmiss m hm
    · intro k
      rw [List.filter_append, ← List.append_assoc]
      exact (h.receives k).append List.filter_sublist
  · rw [post_of_match split hpre hm]
    refine ⟨?_, ?_, ?_⟩
    · intro r' hr' m' hm'
      refine h.apart r' hr' m' ?_
      rw [split]
      rcases List.mem_append.mp hm' with hm' | hm'
      · exact List.mem_append_left _ hm'
      · exact List.mem_append_right _ (List.mem_cons_of_mem m hm')
    · intro k
      rw [pairedAt_snoc, ← h.messages k]
      by_cases hk : key m = k
      · subst hk
        -- messages of the same key before `m` would have been accepted before it
        have hfirst : ∀ y ∈ pre, (decide (key y = key m)) = false := by
          intro y hy
          have hrej := hpre y hy
          simp only [decide_eq_false_iff_not]
          intro hkey
          rw [hkey, hm] at hrej
          cases hrej
        obtain ⟨hbefore, hafter⟩ :=
          filter_split_first (x := m) hfirst (by simp) post
        rw [split, hbefore, hafter]
        simp
      · rw [split]
        simp [hk]
    · intro k
      rw [pairedAt_snoc]
      by_cases hk : key m = k
      · subst hk
        -- a pending receive that accepts this key would have met `m`
        have hnone : q.pending.filter (accepts · (key m)) = [] := by
          apply List.filter_eq_nil_iff.mpr
          intro r' hr'
          simpa using h.apart r' hr' m (by simp [split])
        have hold := h.receives (key m)
        rw [hnone, List.append_nil] at hold
        simpa [hnone] using hold.append (List.Sublist.refl [r])
      · have hold := h.receives k
        simpa [hk] using hold.trans (List.sublist_append_left R [r])

/-- **First match keeps order.** After any sequence of posts and arrivals the matcher is ordered. -/
theorem ordered_exec (es : List (Event ρ μ)) :
    (exec accepts key {} es).Ordered accepts key (posts es) (arrived es) := by
  induction es using List.reverseRecOn with
  | nil => exact ⟨by simp [exec], by simp [exec, pairedAt, arrived], by simp [exec, pairedAt, posts]⟩
  | append_singleton es e ih =>
      simp only [exec, List.foldl_append, List.foldl_cons, List.foldl_nil] at ih ⊢
      cases e with
      | post r => simpa [posts, arrived, handle] using ih.post r
      | arrive m => simpa [posts, arrived, handle] using ih.arrive m

end Matcher

end SstTransports.Lib
