/-
# SstTransports.Fabric.Matching — what the tagged scans find, and what they miss.

A receive queue is to bring together what can meet, and to do it in order.

* `no_missed_rendezvous_iff`: no pending receive and waiting message that match are ever kept apart,
  exactly if no tagged scan of the run overlooks its only matches.  The scans advance their iterator
  twice a round and look at every other element.
* `first_match_iff`: the tagged half of the queue is the reference matcher of
  `SstTransports.Lib.Matcher`, in every state of a run, exactly if each tagged arrival finds its
  first match at a position the scan looks at and each tagged post finds some message waiting and
  none of them matching.  The second half of this is so narrow because a tagged post enqueues twice
  when nothing waits and takes nothing off the list when it matches.

Where the queue is the reference matcher, messages with equal tags are delivered in arrival order to
receives in posting order.
-/
import SstTransports.Fabric.Provenance
import SstTransports.Lib.Matcher

namespace SstTransports.Fabric

open SstTransports.Lib

variable {sumi : Sumi}

/-! ## §1 — no missed rendezvous -/

/-- Nothing that could meet is kept waiting on both sides. -/
structure NoMissedRendezvous (s : State) : Prop where
  untagged : s.recvs = [] ∨ s.unexpRecvs = []
  tagged : ∀ r ∈ s.taggedRecvs, ∀ m ∈ s.unexpTaggedRecvs,
    m.tag &&& ~~~r.node.tagIgnore ≠ r.node.tag &&& ~~~r.node.tagIgnore

/-- If something in the list a tagged action scans matches, something at a position the scan looks
at does. -/
def ScanSeesMatch (s : State) : Action → Prop
  | .postRecv p => p.tagged = true →
      (∃ m ∈ s.unexpTaggedRecvs, p.accepts m = true) →
      ∃ m ∈ everyOther s.unexpTaggedRecvs, p.accepts m = true
  | .incoming msg => msg.isTaggedSend = true →
      (∃ r ∈ s.taggedRecvs, r.accepts msg = true) →
      ∃ r ∈ everyOther s.taggedRecvs, r.accepts msg = true

instance (s : State) (a : Action) : Decidable (ScanSeesMatch s a) :=
  match a with
  | .postRecv p => inferInstanceAs (Decidable (p.tagged = true →
      (∃ m ∈ s.unexpTaggedRecvs, p.accepts m = true) →
      ∃ m ∈ everyOther s.unexpTaggedRecvs, p.accepts m = true))
  | .incoming msg => inferInstanceAs (Decidable (msg.isTaggedSend = true →
      (∃ r ∈ s.taggedRecvs, r.accepts msg = true) →
      ∃ r ∈ everyOther s.taggedRecvs, r.accepts msg = true))

/-- No pending tagged receive accepts a waiting tagged message. -/
def Apart (s : State) : Prop :=
  ∀ r ∈ s.taggedRecvs, ∀ m ∈ s.unexpTaggedRecvs, r.accepts m = false

theorem noMissedRendezvous_iff {s : State} :
    NoMissedRendezvous s ↔ (s.recvs = [] ∨ s.unexpRecvs = []) ∧ Apart s := by
  have hacc : ∀ (r : Pending TaggedRecv) (m : FabricMessage), r.accepts m = false ↔
      m.tag &&& ~~~r.node.tagIgnore ≠ r.node.tag &&& ~~~r.node.tagIgnore := by
    intro r m
    simp [Pending.accepts, matchesTag]
  simp only [Apart, hacc]
  exact ⟨fun h => ⟨h.untagged, h.tagged⟩, fun h => ⟨h.1, h.2⟩⟩

theorem untaggedRendezvous_step {s s' : State} {a : Action}
    (h : s.recvs = [] ∨ s.unexpRecvs = []) (hs : Step sumi s a s') :
    s'.recvs = [] ∨ s'.unexpRecvs = [] := by
  cases hs with
  | postTaggedEmpty p tagged empty => exact h
  | postTaggedMatch p tagged pre msg post split even accepts live skipped => simpa using h
  | postTaggedMiss p tagged nonempty even miss => exact h
  | postUntaggedEmpty p untagged empty => exact Or.inr empty
  | postUntaggedMatch p untagged msg rest split live =>
      have hrecvs : s.recvs = [] := h.resolve_right (by simp [split])
      exact Or.inl (by simpa using hrecvs)
  | incomingOther msg live other => exact h
  | incomingTaggedMatch msg live tagged pre r post split even accepts skipped => simpa using h
  | incomingTaggedMiss msg live tagged even miss => exact h
  | incomingUntaggedEmpty msg live untagged empty => exact Or.inl empty
  | incomingUntaggedMatch msg live untagged r rest split =>
      have hunexp : s.unexpRecvs = [] := h.resolve_left (by simp [split])
      exact Or.inr (by simpa using hunexp)

/-- A step keeps what can meet from waiting on both sides exactly if its scan sees a match when
there is one. -/
theorem apart_step_iff {s s' : State} {a : Action} (h : Apart s) (hs : Step sumi s a s') :
    Apart s' ↔ ScanSeesMatch s a := by
  cases hs with
  | postTaggedEmpty p tagged empty =>
      refine iff_of_true ?_ ?_
      · intro r _ m hm
        simp [empty] at hm
      · rintro _ ⟨m, hm, _⟩
        simp [empty] at hm
  | postTaggedMatch p tagged pre msg post split even accepts live skipped =>
      refine iff_of_true ?_ ?_
      · intro r hr m hm
        exact h r (by simpa using hr) m (by simpa using hm)
      · intro _ _
        refine ⟨msg, ?_, accepts⟩
        rw [split]
        exact mem_everyOther_middle even
  | postTaggedMiss p tagged nonempty even miss =>
      -- the new node is kept apart exactly if no waiting message matches it
      constructor
      · rintro hapart - ⟨m, hm, hacc⟩
        have hrej := hapart (p.taggedRecv s.posts.length) (by simp) m hm
        rw [taggedRecv_accepts, hacc] at hrej
        cases hrej
      · intro hsees r hr m hm
        rcases List.mem_append.mp hr with hr | hr
        · exact h r hr m hm
        · rw [List.mem_singleton.mp hr, taggedRecv_accepts]
          by_contra hacc
          obtain ⟨m', hm', hacc'⟩ := hsees tagged ⟨m, hm, by simpa using hacc⟩
          rw [(miss m' hm').2] at hacc'
          cases hacc'
  | postUntaggedEmpty p untagged empty =>
      exact iff_of_true h fun htagged => by simp [untagged] at htagged
  | postUntaggedMatch p untagged msg rest split live =>
      refine iff_of_true ?_ fun htagged => by simp [untagged] at htagged
      intro r hr m hm
      exact h r (by simpa using hr) m (by simpa using hm)
  | incomingOther msg live other =>
      exact iff_of_true h fun htagged => by
        simp [isPostedSend_of_isTaggedSend htagged] at other
  | incomingTaggedMatch msg live tagged pre r post split even accepts skipped =>
      refine iff_of_true ?_ ?_
      · intro q hq m hm
        refine h q ?_ m (by simpa using hm)
        rw [split]
        rcases List.mem_append.mp hq with hq | hq
        · exact List.mem_append_left _ hq
        · exact List.mem_append_right _ (List.mem_cons_of_mem r hq)
      · intro _ _
        refine ⟨r, ?_, accepts⟩
        rw [split]
        exact mem_everyOther_middle even
  | incomingTaggedMiss msg live tagged even miss =>
      constructor
      · rintro hapart - ⟨r, hr, hacc⟩
        have hrej := hapart r hr msg (by simp)
        rw [hacc] at hrej
        cases hrej
      · intro hsees r hr m hm
        rcases List.mem_append.mp hm with hm | hm
        · exact h r hr m hm
        · rw [List.mem_singleton.mp hm]
          by_contra hacc
          obtain ⟨r', hr', hacc'⟩ := hsees tagged ⟨r, hr, by simpa using hacc⟩
          rw [miss r' hr'] at hacc'
          cases hacc'
  | incomingUntaggedEmpty msg live untagged empty =>
      exact iff_of_true h fun htagged => by
        simp [isTaggedSend_of_isUntaggedSend untagged] at htagged
  | incomingUntaggedMatch msg live untagged r rest split =>
      refine iff_of_true ?_ fun htagged => by
        simp [isTaggedSend_of_isUntaggedSend untagged] at htagged
      intro q hq m hm
      exact h q (by simpa using hq) m (by simpa using hm)

theorem noMissedRendezvous_step_iff {s s' : State} {a : Action} (h : NoMissedRendezvous s)
    (hs : Step sumi s a s') : NoMissedRendezvous s' ↔ ScanSeesMatch s a := by
  obtain ⟨huntagged, hapart⟩ := noMissedRendezvous_iff.mp h
  rw [noMissedRendezvous_iff, apart_step_iff hapart hs]
  exact and_iff_right (untaggedRendezvous_step huntagged hs)

/-- **No missed rendezvous, exactly.** Along a run no pair that could meet is kept waiting on both
sides if and only if every tagged scan of the run that has a match has one at a position it looks
at. -/
theorem no_missed_rendezvous_iff (sumi : Sumi) (as : List Action) (s : State)
    (h : run (step sumi) {} as = .ok s) :
    EveryState (step sumi) (fun _ t => NoMissedRendezvous t) {} as ↔
      StepsMeet (step sumi) ScanSeesMatch {} as := by
  have hstart : NoMissedRendezvous {} := ⟨Or.inl rfl, fun r hr => by simp at hr⟩
  refine everyState_iff_stepsMeet hstart ?_ h
  intro as s a s' hrun hall hstep
  exact noMissedRendezvous_step_iff (hall as (List.prefix_refl as) s hrun) (step_inv hstep)

/-- The receive for tag 6 finds neither of the two waiting messages, and matches neither. -/
def seenRun : List Action :=
  [.incoming (sampleTaggedSend 0 5), .incoming (sampleTaggedSend 1 7),
    .postRecv (sampleTaggedPost 16 6), .incoming (sampleSend 2)]

theorem seenRun_no_missed_rendezvous :
    EveryState (step copyingSumi) (fun _ t => NoMissedRendezvous t) {} seenRun :=
  (no_missed_rendezvous_iff copyingSumi seenRun _ rfl).mpr (by decide)

/-- The second of two waiting messages is the only one that matches. -/
def missedRun : List Action :=
  [.incoming (sampleTaggedSend 0 1), .incoming (sampleTaggedSend 1 2),
    .postRecv (sampleTaggedPost 16 2)]

theorem missedRun_missed :
    ∃ s, run (step copyingSumi) {} missedRun = .ok s ∧ ¬ NoMissedRendezvous s := by
  refine ⟨_, rfl, ?_⟩
  intro h
  exact h.tagged ((sampleTaggedPost 16 2).taggedRecv 0) (by decide) (sampleTaggedSend 1 2)
    (by decide) (by decide)

/-! ## §2 — the reference matcher of a run -/

abbrev TagMatcher := Matcher (Pending TaggedRecv) FabricMessage

abbrev TagEvent := Matcher.Event (Pending TaggedRecv) FabricMessage

/-- A tagged receive accepts a tag that agrees with its own outside the ignored bits. -/
def acceptsTag (r : Pending TaggedRecv) (tag : BitVec 64) : Bool :=
  (tag &&& ~~~r.node.tagIgnore) == (r.node.tag &&& ~~~r.node.tagIgnore)

theorem acceptsTag_tag (r : Pending TaggedRecv) (msg : FabricMessage) :
    acceptsTag r msg.tag = r.accepts msg := rfl

/-- What an action is to the matcher of tagged traffic; `call` is its number if it is a post. -/
def taggedEvent (call : Nat) : Action → List TagEvent
  | .postRecv p => if p.tagged then [.post (p.taggedRecv call)] else []
  | .incoming msg => if msg.isTaggedSend then [.arrive msg] else []

/-- The tagged posts and arrivals of a run that was preceded by `n` posts. -/
def taggedEvents (n : Nat) : List Action → List TagEvent
  | [] => []
  | a :: as => taggedEvent n a ++ taggedEvents (n + (posted [a]).length) as

/-- The reference matcher after the tagged traffic of a run. -/
def reference (as : List Action) : TagMatcher :=
  Matcher.exec acceptsTag FabricMessage.tag {} (taggedEvents 0 as)

theorem taggedEvents_snoc (n : Nat) (as : List Action) (a : Action) :
    taggedEvents n (as ++ [a]) = taggedEvents n as ++ taggedEvent (n + (posted as).length) a := by
  induction as generalizing n with
  | nil => simp [taggedEvents]
  | cons b as ih =>
      have hlen : (posted (b :: as)).length = (posted [b]).length + (posted as).length := by
        cases b <;> simp [posted, Nat.add_comm]
      simp only [List.cons_append, taggedEvents, ih, List.append_assoc, hlen, Nat.add_assoc]

/-- The reference matcher handles the tagged event of the last action, if it is one. -/
theorem reference_snoc (as : List Action) (a : Action) :
    reference (as ++ [a]) =
      Matcher.exec acceptsTag FabricMessage.tag (reference as)
        (taggedEvent (posted as).length a) := by
  simp only [reference, taggedEvents_snoc, Matcher.exec, List.foldl_append, Nat.zero_add]

theorem arrived_taggedEvents (n : Nat) (as : List Action) :
    Matcher.arrived (taggedEvents n as) = (arrivals as).filter (·.isTaggedSend) := by
  induction as generalizing n with
  | nil => rfl
  | cons a as ih =>
      rw [taggedEvents, Matcher.arrived_append, ih]
      cases a with
      | postRecv p =>
          simp only [taggedEvent]
          split_ifs <;> rfl
      | incoming msg =>
          have hcons : arrivals (.incoming msg :: as) = msg :: arrivals as := rfl
          simp only [taggedEvent, hcons, List.filter_cons]
          split_ifs <;> rfl

/-- The reference matcher sees the posts in the order of their calls. -/
theorem posts_taggedEvents (n : Nat) (as : List Action) :
    (∀ r ∈ Matcher.posts (taggedEvents n as), n ≤ r.call) ∧
      (Matcher.posts (taggedEvents n as)).Pairwise (·.call < ·.call) := by
  induction as generalizing n with
  | nil => simp [taggedEvents, Matcher.posts]
  | cons a as ih =>
      obtain ⟨hge, hlt⟩ := ih (n + (posted [a]).length)
      rw [taggedEvents, Matcher.posts_append]
      cases a with
      | postRecv p =>
          have hgt : ∀ r ∈ Matcher.posts (taggedEvents (n + 1) as), n < r.call := hge
          simp only [taggedEvent]
          split_ifs
          · refine ⟨?_, List.pairwise_cons.mpr ⟨hgt, hlt⟩⟩
            intro r hr
            rcases List.mem_cons.mp hr with rfl | hr
            · exact Nat.le_refl n
            · exact Nat.le_of_lt (hgt r hr)
          · exact ⟨fun r hr => Nat.le_of_lt (hgt r hr), hlt⟩
      | incoming msg =>
          simp only [taggedEvent]
          split_ifs
          · exact ⟨hge, hlt⟩
          · exact ⟨hge, hlt⟩

/-! ## §3 — the queue against its reference -/

/-- The tagged entries into `finishMatch`, in order: the message and the call of the receive. -/
def State.taggedMatches (s : State) : List (FabricMessage × Nat) :=
  (s.matches.filter (·.tagged)).map fun x => (x.msg, x.call)

/-- The tagged half of the queue is in the state of the matcher `q`: the same receives pending and
the same messages waiting in the same order, and the same pairs formed. -/
structure Tracks (s : State) (q : TagMatcher) : Prop where
  pending : s.taggedRecvs = q.pending
  unexpected : s.unexpTaggedRecvs = q.unexpected
  paired : s.taggedMatches = q.paired.map fun x => (x.1, x.2.call)

/-- A tagged arrival's first match, if any, is at a position its scan looks at.  A tagged post finds
messages waiting, and none of them matches. -/
def FirstMatchSeen (s : State) : Action → Prop
  | .postRecv p => p.tagged = true →
      s.unexpTaggedRecvs ≠ [] ∧ ∀ m ∈ s.unexpTaggedRecvs, p.accepts m = false
  | .incoming msg => msg.isTaggedSend = true →
      ∀ k ∈ s.taggedRecvs.findIdx? (·.accepts msg), Even k

instance (s : State) (a : Action) : Decidable (FirstMatchSeen s a) :=
  match a with
  | .postRecv p => inferInstanceAs (Decidable (p.tagged = true →
      s.unexpTaggedRecvs ≠ [] ∧ ∀ m ∈ s.unexpTaggedRecvs, p.accepts m = false))
  | .incoming msg => inferInstanceAs (Decidable (msg.isTaggedSend = true →
      ∀ k ∈ s.taggedRecvs.findIdx? (·.accepts msg), Even k))

theorem findIdx?_split {α : Type*} {p : α → Bool} {pre : List α} {x : α}
    (hpre : ∀ y ∈ pre, p y = false) (hx : p x = true) (post : List α) :
    (pre ++ x :: post).findIdx? p = some pre.length := by
  have hnone : pre.findIdx? p = none := List.findIdx?_eq_none_iff.mpr hpre
  simp [List.findIdx?_append, List.findIdx?_cons, hnone, hx]

/-- A match that the scan did not look at is at an odd position. -/
theorem not_even_of_skipped {α : Type*} {p : α → Bool} {pre mid : List α} {x : α}
    (hpre : ∀ y ∈ pre, p y = false) (hx : p x = true)
    (hskipped : ∀ y ∈ everyOther (pre ++ x :: mid), p y = false) (rest : List α) :
    ¬ ∀ k ∈ (pre ++ x :: rest).findIdx? p, Even k := by
  rw [findIdx?_split hpre hx]
  intro heven
  have hrej := hskipped x (mem_everyOther_middle (heven _ rfl))
  rw [hx] at hrej
  cases hrej

section Reference

variable {as : List Action} {s s' : State}

/-- An action that is no tagged traffic leaves the reference matcher alone. -/
theorem reference_snoc_other {a : Action} (h : taggedEvent (posted as).length a = []) :
    reference (as ++ [a]) = reference as := by
  rw [reference_snoc, h]
  rfl

theorem reference_snoc_post {p : PostRecv} (tagged : p.tagged = true) :
    reference (as ++ [.postRecv p]) =
      (reference as).post acceptsTag FabricMessage.tag (p.taggedRecv (posted as).length) := by
  rw [reference_snoc]
  simp only [taggedEvent, tagged, if_true]
  rfl

theorem reference_snoc_arrive {msg : FabricMessage} (tagged : msg.isTaggedSend = true) :
    reference (as ++ [.incoming msg]) =
      (reference as).arrive acceptsTag FabricMessage.tag msg := by
  rw [reference_snoc]
  simp only [taggedEvent, tagged, if_true]
  rfl

/-- The state of the reference matcher after a run. -/
theorem reference_ordered (as : List Action) :
    (reference as).Ordered acceptsTag FabricMessage.tag (Matcher.posts (taggedEvents 0 as))
      (Matcher.arrived (taggedEvents 0 as)) :=
  Matcher.ordered_exec (taggedEvents 0 as)

/-- Pending receives that accept one message were posted by different calls. -/
theorem call_ne_of_accepts (msg : FabricMessage) {pre mid post : List (Pending TaggedRecv)}
    {r r' : Pending TaggedRecv} (hsplit : (reference as).pending = pre ++ r' :: mid ++ r :: post)
    (hr' : r'.accepts msg = true) (hr : r.accepts msg = true) : r'.call ≠ r.call := by
  have hsub : ((reference as).pending.filter (acceptsTag · msg.tag)).Sublist
      (Matcher.posts (taggedEvents 0 as)) :=
    (List.sublist_append_right _ _).trans ((reference_ordered as).receives msg.tag)
  have hlt := (posts_taggedEvents 0 as).2.sublist hsub
  rw [hsplit, List.filter_append, List.pairwise_append] at hlt
  apply Nat.ne_of_lt
  exact hlt.2.2 r' (by simp [acceptsTag_tag, hr']) r (by simp [acceptsTag_tag, hr])

end Reference

section Tracking

variable {as : List Action} {s s' : State}

/-- A step on untagged traffic does not move the tagged half of the queue. -/
theorem tracks_other {a : Action} (h : Tracks s (reference as)) (hs : Step sumi s a s')
    (other : taggedEvent (posted as).length a = []) : Tracks s' (reference (as ++ [a])) := by
  rw [reference_snoc_other other]
  obtain ⟨hpending, hunexpected, hpaired⟩ := h
  cases hs with
  | postTaggedEmpty p tagged empty => simp [taggedEvent, tagged] at other
  | postTaggedMatch p tagged pre msg post split even accepts live skipped =>
      simp [taggedEvent, tagged] at other
  | postTaggedMiss p tagged nonempty even miss => simp [taggedEvent, tagged] at other
  | postUntaggedEmpty p untagged empty => exact ⟨hpending, hunexpected, hpaired⟩
  | postUntaggedMatch p untagged msg rest split live =>
      refine ⟨?_, ?_, ?_⟩
      · rw [finish_taggedRecvs]
        exact hpending
      · rw [finish_unexpTaggedRecvs]
        exact hunexpected
      · simpa [State.taggedMatches] using hpaired
  | incomingOther msg live notSend =>
      exact ⟨hpending, hunexpected, by simpa [State.taggedMatches] using hpaired⟩
  | incomingTaggedMatch msg live tagged pre r post split even accepts skipped =>
      simp [taggedEvent, tagged] at other
  | incomingTaggedMiss msg live tagged even miss => simp [taggedEvent, tagged] at other
  | incomingUntaggedEmpty msg live untagged empty => exact ⟨hpending, hunexpected, hpaired⟩
  | incomingUntaggedMatch msg live untagged r rest split =>
      refine ⟨?_, ?_, ?_⟩
      · rw [State.setRecvs_taggedRecvs, finish_taggedRecvs]
        exact hpending
      · rw [State.setRecvs_unexpTaggedRecvs, finish_unexpTaggedRecvs]
        exact hunexpected
      · simpa [State.taggedMatches] using hpaired

/-- A tagged post keeps step with the reference exactly if it finds messages waiting, and none of
them matches. -/
theorem tracks_post_iff {p : PostRecv} (h : Tracks s (reference as))
    (hposts : s.posts = posted as) (hs : Step sumi s (.postRecv p) s') (tagged : p.tagged = true) :
    Tracks s' (reference (as ++ [.postRecv p])) ↔
      s.unexpTaggedRecvs ≠ [] ∧ ∀ m ∈ s.unexpTaggedRecvs, p.accepts m = false := by
  rw [reference_snoc_post tagged, ← hposts]
  have hunexpected := h.unexpected
  cases hs with
  | postTaggedEmpty p _ empty =>
      refine iff_of_false ?_ (fun hseen => hseen.1 empty)
      intro htracks
      rw [Matcher.post_of_miss (by simp [← hunexpected, empty])] at htracks
      have hlen := congrArg List.length htracks.pending
      simp [h.pending] at hlen
  | postTaggedMatch p _ pre msg post split even accepts live skipped =>
      have hmsg : msg ∈ s.unexpTaggedRecvs := by simp [split]
      refine iff_of_false ?_ (fun hseen => by simp [hseen.2 msg hmsg] at accepts)
      intro htracks
      -- the reference takes a message off the list, the code does not
      have hexists : ∃ m ∈ (reference as).unexpected,
          acceptsTag (p.taggedRecv s.posts.length) m.tag = true :=
        ⟨msg, hunexpected ▸ hmsg, accepts⟩
      have htaken := Matcher.post_of_exists hexists
      rw [← htracks.unexpected, finish_unexpTaggedRecvs, ← hunexpected] at htaken
      simp at htaken
  | postTaggedMiss p _ nonempty even miss =>
      by_cases hrej : ∀ m ∈ s.unexpTaggedRecvs, p.accepts m = false
      · refine iff_of_true ?_ ⟨nonempty, hrej⟩
        rw [Matcher.post_of_miss (by rw [← hunexpected]; exact hrej)]
        exact ⟨by simp [h.pending], hunexpected, h.paired⟩
      · refine iff_of_false ?_ (fun hseen => hrej hseen.2)
        intro htracks
        simp only [not_forall, Bool.not_eq_false] at hrej
        obtain ⟨m, hm, hacc⟩ := hrej
        have hexists : ∃ m ∈ (reference as).unexpected,
            acceptsTag (p.taggedRecv s.posts.length) m.tag = true :=
          ⟨m, hunexpected ▸ hm, hacc⟩
        have hpending := htracks.pending.trans (Matcher.post_of_exists hexists).2
        have hlen := congrArg List.length hpending
        simp [h.pending] at hlen
  | postUntaggedEmpty p untagged empty => simp [tagged] at untagged
  | postUntaggedMatch p untagged msg rest split live => simp [tagged] at untagged

/-- An arrival whose scan matches: the reference takes the same receive exactly if there is none
before it. -/
theorem tracks_arrive_match_iff {msg : FabricMessage} (h : Tracks s (reference as))
    {pre : List (Pending TaggedRecv)} {r : Pending TaggedRecv} {post : List (Pending TaggedRecv)}
    (split : s.taggedRecvs = pre ++ r :: post) (even : Even pre.length)
    (accepts : r.accepts msg = true) (skipped : ∀ q ∈ everyOther pre, q.accepts msg = false) :
    Tracks ((s.finish sumi true r.call r.node.buf r.node.size msg).setTaggedRecvs (pre ++ post))
        ((reference as).arrive acceptsTag FabricMessage.tag msg) ↔
      ∀ k ∈ s.taggedRecvs.findIdx? (·.accepts msg), Even k := by
  have hpending := h.pending
  rcases Matcher.first_or_none (·.accepts msg) pre with hpre | ⟨pre', r', mid, hsplit, hpre', hr'⟩
  · refine iff_of_true ?_ ?_
    · have harrive : (reference as).arrive acceptsTag FabricMessage.tag msg = _ :=
        Matcher.arrive_of_match (hpending ▸ split) hpre accepts
      rw [harrive]
      refine ⟨rfl, ?_, ?_⟩
      · rw [State.setTaggedRecvs_unexpTaggedRecvs, finish_unexpTaggedRecvs]
        exact h.unexpected
      · simpa [State.taggedMatches] using h.paired
    · rw [split, findIdx?_split hpre accepts]
      simpa using even
  · -- there is an earlier one, which the scan did not look at
    have hsplit' : s.taggedRecvs = pre' ++ r' :: (mid ++ r :: post) := by
      rw [split, hsplit, List.append_assoc, List.cons_append]
    refine iff_of_false ?_ ?_
    · intro htracks
      have harrive : (reference as).arrive acceptsTag FabricMessage.tag msg = _ :=
        Matcher.arrive_of_match (hpending ▸ hsplit') hpre' hr'
      rw [harrive] at htracks
      have hcalls : r'.call = r.call := by
        have hpaired := htracks.paired
        simp only [State.taggedMatches, setTaggedRecvs_matches, finish_matches] at hpaired
        have hold := h.paired
        simp only [State.taggedMatches] at hold
        simp [hold] at hpaired
        exact hpaired.symm
      have hboth : (reference as).pending = pre' ++ r' :: mid ++ r :: post := by
        rw [← hpending, split, hsplit]
      exact call_ne_of_accepts msg hboth hr' accepts hcalls
    · rw [hsplit']
      exact not_even_of_skipped hpre' hr' (hsplit ▸ skipped) _

/-- An arrival whose scan finds nothing: the reference finds nothing either exactly if no receive
accepts the message. -/
theorem tracks_arrive_miss_iff {msg : FabricMessage} (h : Tracks s (reference as))
    (miss : ∀ q ∈ everyOther s.taggedRecvs, q.accepts msg = false) :
    Tracks (s.setUnexpTaggedRecvs (s.unexpTaggedRecvs ++ [msg]))
        ((reference as).arrive acceptsTag FabricMessage.tag msg) ↔
      ∀ k ∈ s.taggedRecvs.findIdx? (·.accepts msg), Even k := by
  have hpending := h.pending
  rcases Matcher.first_or_none (·.accepts msg) s.taggedRecvs with
    hrej | ⟨pre, r, post, hsplit, hpre, hr⟩
  · refine iff_of_true ?_ ?_
    · rw [Matcher.arrive_of_miss (by rw [← hpending]; exact hrej)]
      exact ⟨hpending, by simp [h.unexpected], h.paired⟩
    · rw [List.findIdx?_eq_none_iff.mpr hrej]
      simp
  · refine iff_of_false ?_ ?_
    · intro htracks
      have hexists : ∃ r ∈ (reference as).pending, acceptsTag r msg.tag = true :=
        ⟨r, by simp [← hpending, hsplit], hr⟩
      have hlen := (Matcher.arrive_of_exists hexists).1
      rw [← htracks.pending, ← hpending] at hlen
      simp at hlen
    · rw [hsplit] at miss ⊢
      exact not_even_of_skipped hpre hr miss post

/-- A tagged arrival keeps step with the reference exactly if its first match, if any, is at a
position the scan looks at. -/
theorem tracks_arrive_iff {msg : FabricMessage} (h : Tracks s (reference as))
    (hs : Step sumi s (.incoming msg) s') (tagged : msg.isTaggedSend = true) :
    Tracks s' (reference (as ++ [.incoming msg])) ↔
      ∀ k ∈ s.taggedRecvs.findIdx? (·.accepts msg), Even k := by
  rw [reference_snoc_arrive tagged]
  cases hs with
  | incomingOther msg live other => simp [isPostedSend_of_isTaggedSend tagged] at other
  | incomingTaggedMatch msg live _ pre r post split even accepts skipped =>
      exact tracks_arrive_match_iff h split even accepts skipped
  | incomingTaggedMiss msg live _ even miss => exact tracks_arrive_miss_iff h miss
  | incomingUntaggedEmpty msg live untagged empty =>
      simp [isTaggedSend_of_isUntaggedSend untagged] at tagged
  | incomingUntaggedMatch msg live untagged r rest split =>
      simp [isTaggedSend_of_isUntaggedSend untagged] at tagged

/-- One step keeps step with the reference exactly if it meets the condition. -/
theorem tracks_step_iff {a : Action} (h : Tracks s (reference as)) (hposts : s.posts = posted as)
    (hs : Step sumi s a s') : Tracks s' (reference (as ++ [a])) ↔ FirstMatchSeen s a := by
  cases a with
  | postRecv p =>
      cases htagged : p.tagged with
      | true =>
          rw [tracks_post_iff h hposts hs htagged]
          exact ⟨fun hseen _ => hseen, fun hseen => hseen htagged⟩
      | false =>
          refine iff_of_true (tracks_other h hs (by simp [taggedEvent, htagged])) ?_
          intro htrue
          rw [htagged] at htrue
          cases htrue
  | incoming msg =>
      cases htagged : msg.isTaggedSend with
      | true =>
          rw [tracks_arrive_iff h hs htagged]
          exact ⟨fun hseen _ => hseen, fun hseen => hseen htagged⟩
      | false =>
          refine iff_of_true (tracks_other h hs (by simp [taggedEvent, htagged])) ?_
          intro htrue
          rw [htagged] at htrue
          cases htrue

end Tracking

/-! ## §4 — first match in both directions -/

/-- The pairs formed for the messages of one tag. -/
def State.matchesAt (s : State) (tag : BitVec 64) : List (FabricMessage × Nat) :=
  s.taggedMatches.filter (·.1.tag = tag)

/-- Tagged matching is first-match after the actions `as`: the queue is where the reference matcher
is, and messages with equal tags were delivered in arrival order to matching receives in posting
order. -/
structure FirstMatch (as : List Action) (s : State) : Prop where
  tracks : Tracks s (reference as)
  arrivalOrder : ∀ tag, (s.matchesAt tag).map Prod.fst <+:
    (arrivals as).filter fun m => m.isTaggedSend && m.tag == tag
  postingOrder : ∀ tag, ((s.matchesAt tag).map Prod.snd).Pairwise (· < ·)
  matching : ∀ x ∈ s.taggedMatches,
    ∃ p, (posted as)[x.2]? = some p ∧ p.tagged = true ∧ p.accepts x.1 = true

theorem Tracks.matchesAt_eq {as : List Action} {s : State} (h : Tracks s (reference as))
    (tag : BitVec 64) :
    s.matchesAt tag =
      ((reference as).pairedAt FabricMessage.tag tag).map fun x => (x.1, x.2.call) := by
  rw [State.matchesAt, h.paired, Matcher.pairedAt, List.filter_map]
  rfl

/-- Where the queue is the reference matcher, the order it owes follows. -/
theorem Tracks.firstMatch {as : List Action} {s : State} (h : Tracks s (reference as))
    (hrun : run (step sumi) {} as = .ok s) : FirstMatch as s := by
  have hordered := reference_ordered as
  refine ⟨h, ?_, ?_, ?_⟩
  · intro tag
    have hmessages := hordered.messages tag
    rw [arrived_taggedEvents, List.filter_filter] at hmessages
    have hfst : (s.matchesAt tag).map Prod.fst =
        ((reference as).pairedAt FabricMessage.tag tag).map Prod.fst := by
      rw [h.matchesAt_eq, List.map_map]
      rfl
    have hfilter : (arrivals as).filter (fun m => m.isTaggedSend && m.tag == tag) =
        (arrivals as).filter fun m => decide (m.tag = tag) && m.isTaggedSend := by
      refine List.filter_congr fun m _ => ?_
      rw [Bool.and_comm]
      rfl
    rw [hfst, hfilter, ← hmessages]
    exact List.prefix_append _ _
  · intro tag
    have hsub := (List.sublist_append_left _ _).trans (hordered.receives tag)
    have hlt := (posts_taggedEvents 0 as).2.sublist hsub
    rw [List.pairwise_map] at hlt
    rw [h.matchesAt_eq, List.map_map, List.pairwise_map]
    exact hlt
  · intro x hx
    obtain ⟨y, hy, rfl⟩ := List.mem_map.mp hx
    obtain ⟨hmem, htagged⟩ := List.mem_filter.mp hy
    obtain ⟨p, hp, hkind⟩ := (provenance_run hrun).matched y hmem
    rw [← posts_run hrun]
    have hptagged : p.tagged = true := hkind.trans htagged
    exact ⟨p, hp.posted, hptagged, hp.accepts hptagged⟩

/-- **First match, exactly.** Along a run the tagged half of the queue is the reference matcher,
with the order of delivery that follows, if and only if every tagged arrival of the run has its
first match, if any, at a position the scan looks at, and every tagged post finds messages waiting
and matches none of them. -/
theorem first_match_iff (sumi : Sumi) (as : List Action) (s : State)
    (h : run (step sumi) {} as = .ok s) :
    EveryState (step sumi) FirstMatch {} as ↔ StepsMeet (step sumi) FirstMatchSeen {} as := by
  have hempty : run (step sumi) {} [] = .ok {} := rfl
  have hstart : Tracks {} (reference []) := ⟨rfl, rfl, rfl⟩
  refine everyState_iff_stepsMeet (hstart.firstMatch hempty) ?_ h
  intro as s a s' hrun hall hstep
  have htracks : Tracks s (reference as) := (hall as (List.prefix_refl as) s hrun).tracks
  rw [← tracks_step_iff htracks (posts_run hrun) (step_inv hstep)]
  constructor
  · intro hfirst
    exact hfirst.tracks
  · intro htracks'
    exact htracks'.firstMatch (run_snoc_ok.mpr ⟨s, hrun, hstep⟩)

/-- Two receives for tag 7 are posted while messages with other tags wait, and two messages with
tag 7 arrive. -/
def orderedRun : List Action :=
  [.incoming (sampleTaggedSend 0 5), .incoming (sampleTaggedSend 1 6),
    .postRecv (sampleTaggedPost 16 7), .postRecv (sampleTaggedPost 32 7),
    .incoming (sampleTaggedSend 2 7), .incoming (sampleTaggedSend 3 7)]

theorem orderedRun_first_match : EveryState (step copyingSumi) FirstMatch {} orderedRun :=
  (first_match_iff copyingSumi orderedRun _ rfl).mpr (by decide)

/-- The second and the third of three waiting messages match. -/
def overtakenRun : List Action :=
  [.incoming (sampleTaggedSend 0 2), .incoming (sampleTaggedSend 1 5),
    .incoming (sampleTaggedSend 2 5), .postRecv (sampleTaggedPost 16 5)]

/-- The post takes the third message, and the second one was to be taken. -/
theorem overtakenRun_not_first_match :
    ∃ s, run (step copyingSumi) {} overtakenRun = .ok s ∧
      s.taggedMatches = [(sampleTaggedSend 2 5, 0)] ∧
      (reference overtakenRun).paired.map Prod.fst = [sampleTaggedSend 1 5] ∧
      ¬ FirstMatch overtakenRun s := by
  refine ⟨_, rfl, rfl, rfl, ?_⟩
  intro h
  have horder := h.arrivalOrder 5
  revert horder
  decide

end SstTransports.Fabric
