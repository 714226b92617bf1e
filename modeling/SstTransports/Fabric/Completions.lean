/-
# SstTransports.Fabric.Completions — a completion for every consumed receive.

A receive is consumed when `finishMatch` is entered with it: it is taken off its list, or was never put
on one.  The application is to learn of it once, through `sstmac_cq_read` if the message fits and
through `sstmac_cq_readerr` if it is longer than the buffer.

`finishMatch` deletes a message that is too long and records nothing, and `sstmac_cq_readerr` has
nothing to report in any case; so the receive and the message are both gone.  And a tagged receive that
was put on its list twice is consumed twice.  `completes_once_iff` says that these two are all that
goes wrong.
-/
import SstTransports.Fabric.Drain
import SstTransports.Fabric.Session
import SstTransports.Fabric.Conservation

namespace SstTransports.Fabric

open SstTransports.Lib

/-! ## §1 — completions -/

/-- What the application learns of a receive: its call, the message, and whether all went well. -/
structure Completion where
  call : Nat
  msg : FabricMessage
  success : Bool
  deriving DecidableEq, Repr

/-- `sstmac_cq_readerr`: the return code, and the completion reported.  There are never any errors in
the simulator. -/
def sstmacCqReaderr (_s : State) : Int × Option Completion := (-fiEinval, none)

/-- The completions of receives: those read from the progress queue, and those read as errors. -/
def State.completions (s : State) : List Completion :=
  (s.handOffs.filterMap fun x => x.2.map fun call => ⟨call, x.1, true⟩) ++
    (sstmacCqReaderr s).2.toList

/-- Everything handed over can be read, and every consumed receive has one completion, which tells
whether the message fits. -/
structure CompletesOnce (format : CqFormat) (s : State) : Prop where
  readable : ∃ r, sstmacCqRead format s s.progress.length = .ok r ∧
    r.entries = s.handOffs.map fun x => sstmaciFillCqEntry format (s.localBuffer x.1) x.1
  once : ∀ x ∈ s.matches, ∀ p, s.posts[x.call]? = some p →
    s.completions.filter (·.call == x.call) = [⟨x.call, x.msg, fits p.size x.msg⟩]

/-- If the action is about to match, the message fits, and the receive has not been consumed. -/
def MatchCompletes (s : State) (a : Action) : Prop :=
  ∀ c ∈ s.nextMatch a, fits c.size c.msg = true ∧ c.call ∉ s.matches.map (·.call)

instance (s : State) (a : Action) : Decidable (MatchCompletes s a) :=
  inferInstanceAs (Decidable (∀ _ ∈ _, _ ∧ _))

/-! ## §2 — one step -/

variable {sumi : Sumi} {s s' : State} {a : Action}

/-- A step makes the match that was to be made, and deletes its message if it does not fit. -/
theorem nextMatch_of_step (hs : Step sumi s a s') :
    (s.nextMatch a = none ∧ s'.matches = s.matches ∧ s'.deleted = s.deleted) ∨
      ∃ tagged c, s.nextMatch a = some c ∧ s'.matches = s.matches ++ [⟨tagged, c.call, c.msg⟩] ∧
        s'.deleted = s.deleted ++ if fits c.size c.msg then [] else [c.msg] := by
  cases hs with
  | postTaggedEmpty p tagged empty =>
      left
      have hscan : s.scanUnexpTaggedRecvs p.tag p.tagIgnore = .ok none := by
        rw [State.scanUnexpTaggedRecvs, empty]
        rfl
      simp [State.nextMatch, tagged, hscan]
  | postTaggedMatch p tagged pre msg post split even accepts live skipped =>
      right
      refine ⟨true, ⟨msg, s.posts.length, p.buf, p.size⟩, ?_, by simp, by simp⟩
      simp only [State.nextMatch, tagged, if_true,
        scanUnexpTaggedRecvs_of_split split even accepts live skipped]
  | postTaggedMiss p tagged nonempty even miss =>
      left
      have hscan : s.scanUnexpTaggedRecvs p.tag p.tagIgnore = .ok none :=
        scanUnexpTaggedRecvs_eq_none.mpr ⟨even, miss⟩
      simp [State.nextMatch, tagged, hscan]
  | postUntaggedEmpty p untagged empty =>
      left
      simp [State.nextMatch, untagged, empty]
  | postUntaggedMatch p untagged msg rest split live =>
      right
      refine ⟨false, ⟨msg, s.posts.length, p.buf, p.size⟩, ?_, by simp, by simp⟩
      simp [State.nextMatch, untagged, split]
  | incomingOther msg live other =>
      left
      have htagged : msg.isTaggedSend = false := by simp [FabricMessage.isTaggedSend, other]
      have huntagged : msg.isUntaggedSend = false := by simp [FabricMessage.isUntaggedSend, other]
      simp [State.nextMatch, htagged, huntagged]
  | incomingTaggedMatch msg live tagged pre r post split even accepts skipped =>
      right
      refine ⟨true, ⟨msg, r.call, r.node.buf, r.node.size⟩, ?_, by simp, by simp⟩
      simp only [State.nextMatch, tagged, if_true,
        scanTaggedRecvs_of_split live split even accepts skipped]
  | incomingTaggedMiss msg live tagged even miss =>
      left
      have hscan : s.scanTaggedRecvs msg = .ok none :=
        (scanTaggedRecvs_eq_none live).mpr ⟨even, miss⟩
      simp [State.nextMatch, tagged, hscan]
  | incomingUntaggedEmpty msg live untagged empty =>
      left
      simp [State.nextMatch, isTaggedSend_of_isUntaggedSend untagged, untagged, empty]
  | incomingUntaggedMatch msg live untagged r rest split =>
      right
      refine ⟨false, ⟨msg, r.call, r.node.buf, r.node.size⟩, ?_, by simp, by simp⟩
      simp [State.nextMatch, isTaggedSend_of_isUntaggedSend untagged, untagged, split]

/-- What a step adds to the completions. -/
theorem completions_append {handed : List (FabricMessage × Option Nat)}
    (h : s'.handOffs = s.handOffs ++ handed) :
    s'.completions = s.completions ++
      handed.filterMap fun x => x.2.map fun call => ⟨call, x.1, true⟩ := by
  simp [State.completions, sstmacCqReaderr, h]

/-- Nothing but success is ever reported. -/
theorem success_of_mem_completions {x : Completion} (h : x ∈ s.completions) : x.success = true := by
  simp only [State.completions, sstmacCqReaderr, Option.toList_none, List.append_nil,
    List.mem_filterMap, Option.map_eq_some_iff] at h
  obtain ⟨y, -, call, -, rfl⟩ := h
  rfl

/-- The receive of an earlier match is the one it was. -/
theorem posted_before_step (hp : Provenance s) (hs : Step sumi s a s') {x : Match}
    (hx : x ∈ s.matches) {p : PostRecv} (hposted : s'.posts[x.call]? = some p) :
    s.posts[x.call]? = some p := by
  obtain ⟨q, hq, -⟩ := hp.matched x hx
  have hsame : s'.posts[x.call]? = some q := by
    rw [posts_step hs]
    exact getElem?_append_of_some hq.posted _
  rw [hposted] at hsame
  cases hsame
  exact hq.posted

/-- A step that matches: the receive, the message, and the completion if it fits. -/
theorem matched_step (hp : Provenance s) (hk : KindsOk s) (hs : Step sumi s a s') {c : Candidate}
    (hc : s.nextMatch a = some c) :
    ∃ tagged p, s'.posts[c.call]? = some p ∧ p.size = c.size ∧
      s'.matches = s.matches ++ [⟨tagged, c.call, c.msg⟩] ∧
      s'.completions = s.completions ++ (if fits c.size c.msg then [⟨c.call, c.msg, true⟩] else []) ∧
      s'.progress = s.progress ++ (if fits c.size c.msg then [c.msg] else []) ∧
      s'.handOffs = s.handOffs ++ (if fits c.size c.msg then [(c.msg, some c.call)] else []) ∧
      s'.deleted = s.deleted ++ if fits c.size c.msg then [] else [c.msg] := by
  rcases nextMatch_of_step hs with ⟨hnone, -, -⟩ | ⟨tagged, c', hc', hmatches, hdeleted⟩
  · rw [hnone] at hc
    cases hc
  rw [hc] at hc'
  cases hc'
  cases hp.outcome hk hs with
  | quiet progress localBuffers effects =>
      rw [State.matches, effects, State.matches] at hmatches
      simp at hmatches
  | passed msg other progress localBuffers effects =>
      rw [State.matches, effects, List.filterMap_append, State.matches] at hmatches
      simp at hmatches
  | matched call p msg next receives progress localBuffers effects =>
      rw [hc] at next
      cases next
      have hhandOffs := handOffs_finishEffects _ _ _ _ _ effects
      refine ⟨tagged, p, receives.posted, rfl, hmatches, ?_, progress, hhandOffs, hdeleted⟩
      rw [completions_append hhandOffs]
      split_ifs <;> rfl

/-- A step that does not match adds no completion of a receive. -/
theorem unmatched_step (hp : Provenance s) (hk : KindsOk s) (hs : Step sumi s a s')
    (hnone : s.nextMatch a = none) :
    s'.matches = s.matches ∧ s'.completions = s.completions ∧ s'.deleted = s.deleted := by
  rcases nextMatch_of_step hs with ⟨-, hmatches, hdeleted⟩ | ⟨tagged, c, hc, -, -⟩
  · refine ⟨hmatches, ?_, hdeleted⟩
    cases hp.outcome hk hs with
    | quiet progress localBuffers effects =>
        simp [State.completions, sstmacCqReaderr, State.handOffs, effects]
    | passed msg other progress localBuffers effects =>
        simp [State.completions, sstmacCqReaderr, State.handOffs, effects]
    | matched call p msg next receives progress localBuffers effects =>
        rw [hnone] at next
        cases next
  · rw [hnone] at hc
    cases hc

/-! ## §3 — whole runs -/

/-- What the condition keeps: nothing has been deleted, and the completions are those of the consumed
receives, in order. -/
structure AllComplete (s : State) : Prop where
  kinds : KindsOk s
  provenance : Provenance s
  deleted : s.deleted = []
  handed : s.handOffs.map Prod.fst = s.progress
  fitting : ∀ x ∈ s.matches, ∀ p, s.posts[x.call]? = some p → fits p.size x.msg = true
  completions : s.completions = s.matches.map fun x => ⟨x.call, x.msg, true⟩
  calls : (s.matches.map (·.call)).Nodup

theorem filter_eq_singleton {α β : Type*} [DecidableEq β] {f : α → β} {l : List α} {x : α}
    (distinct : (l.map f).Nodup) (hx : x ∈ l) : l.filter (f · == f x) = [x] := by
  induction l with
  | nil => cases hx
  | cons y l ih =>
      obtain ⟨hy, hl⟩ := List.nodup_cons.mp distinct
      rcases List.mem_cons.mp hx with rfl | hx
      · have hrest : l.filter (f · == f x) = [] := by
          rw [List.filter_eq_nil_iff]
          intro z hz heq
          exact hy (beq_iff_eq.mp heq ▸ List.mem_map_of_mem hz)
        simp [hrest]
      · have hne : f y ≠ f x := fun heq => hy (heq ▸ List.mem_map_of_mem hx)
        rw [List.filter_cons_of_neg (by simp [hne]), ih hl hx]

theorem AllComplete.completesOnce (h : AllComplete s) (format : CqFormat) :
    CompletesOnce format s := by
  refine ⟨?_, ?_⟩
  · have live : s.Live s.progress.length := by simp [State.Live, h.deleted]
    refine ⟨_, cqReadLoop_of_live _ _ _ _ live, ?_⟩
    rw [List.take_length, ← h.handed, List.map_map]
    rfl
  · intro x hx p hposted
    have hfilter := filter_eq_singleton (f := Match.call) h.calls hx
    rw [h.completions, List.filter_map, h.fitting x hx p hposted]
    show (s.matches.filter (fun y => y.call == x.call)).map _ = _
    rw [hfilter]
    rfl

theorem AllComplete.step (h : AllComplete s) (hs : Step sumi s a s') (hnext : MatchCompletes s a) :
    AllComplete s' := by
  obtain ⟨new, hnew, hprogress⟩ := handOffs_progress (h.provenance.outcome h.kinds hs)
  have hhanded : s'.handOffs.map Prod.fst = s'.progress := by
    rw [hnew, List.map_append, h.handed, hprogress]
  have hk := h.kinds.step hs
  have hp := h.provenance.step h.kinds hs
  cases hc : s.nextMatch a with
  | none =>
      obtain ⟨hmatches, hcompletions, hdeleted⟩ := unmatched_step h.provenance h.kinds hs hc
      refine ⟨hk, hp, hdeleted.trans h.deleted, hhanded, ?_, ?_, ?_⟩
      · rw [hmatches]
        intro x hx p hposted
        exact h.fitting x hx p (posted_before_step h.provenance hs hx hposted)
      · rw [hcompletions, hmatches, h.completions]
      · rw [hmatches]
        exact h.calls
  | some c =>
      obtain ⟨hfits, hnew⟩ := hnext c hc
      obtain ⟨tagged, p, hposted, hsize, hmatches, hcompletions, -, -, hdeleted⟩ :=
        matched_step h.provenance h.kinds hs hc
      rw [hfits] at hcompletions hdeleted
      refine ⟨hk, hp, by simp [hdeleted, h.deleted], hhanded, ?_, ?_, ?_⟩
      · rw [hmatches]
        intro x hx q hq
        rcases List.mem_append.mp hx with hx | hx
        · exact h.fitting x hx q (posted_before_step h.provenance hs hx hq)
        · obtain rfl := List.mem_singleton.mp hx
          rw [hposted] at hq
          cases hq
          rw [hsize]
          exact hfits
      · rw [hcompletions, hmatches, h.completions]
        simp
      · rw [hmatches, List.map_append]
        exact List.Nodup.append h.calls (List.nodup_singleton _) (by simpa using hnew)

/-- A match of a message that does not fit, or with a receive consumed before, leaves a receive
without its one completion. -/
theorem AllComplete.needed (h : AllComplete s) (hs : Step sumi s a s') {format : CqFormat}
    (honce : CompletesOnce format s') : MatchCompletes s a := by
  intro c hc
  obtain ⟨tagged, p, hposted, hsize, hmatches, hcompletions, -, -, -⟩ :=
    matched_step h.provenance h.kinds hs hc
  have hone := honce.once ⟨tagged, c.call, c.msg⟩ (by simp [hmatches]) p hposted
  have hfits : fits c.size c.msg = true := by
    rw [← hsize]
    have hmem : (⟨c.call, c.msg, fits p.size c.msg⟩ : Completion) ∈ s'.completions :=
      List.mem_of_mem_filter (by rw [hone]; exact List.mem_singleton_self _)
    exact success_of_mem_completions hmem
  refine ⟨hfits, ?_⟩
  intro hbefore
  obtain ⟨y, hy, hcall⟩ := List.mem_map.mp hbefore
  rw [hfits] at hcompletions
  -- the completion of the earlier match is still there
  have hearlier : (⟨c.call, y.msg, true⟩ : Completion) ∈ s.completions.filter (·.call == c.call) := by
    rw [List.mem_filter, h.completions]
    exact ⟨List.mem_map.mpr ⟨y, hy, by rw [hcall]⟩, by simp⟩
  rw [hcompletions, List.filter_append] at hone
  have hlen := congrArg List.length hone
  have hpos := List.length_pos_of_mem hearlier
  simp only [List.length_append, if_true, List.filter_cons, beq_self_eq_true, List.filter_nil,
    List.length_singleton] at hlen
  omega

theorem allComplete_empty : AllComplete {} := by
  have hempty : run (Fabric.step copyingSumi) {} [] = .ok {} := rfl
  exact ⟨kindsOk_empty, provenance_run hempty, rfl, rfl, by simp [State.matches], rfl, by
    simp [State.matches]⟩

/-- **Every consumed receive completes once, exactly when.** In a run of receives and arrivals, every
consumed receive has its one completion in every state if and only if every match was of a message that
fits, with a receive that had not been consumed. -/
theorem completes_once_iff (sumi : Sumi) (format : CqFormat) (as : List Action) (s : State)
    (hrun : run (step sumi) {} as = .ok s) :
    EveryState (step sumi) (fun _ t => CompletesOnce format t) {} as ↔
      StepsMeet (step sumi) MatchCompletes {} as := by
  refine everyState_iff_stepsMeet_of_invariant (J := fun _ t => AllComplete t)
    (V := fun _ _ => True) (H := fun _ => True) (fun _ _ h => h) allComplete_empty
    (fun _ t h => h.completesOnce format) ?_ ?_ trivial hrun (stepsMeet_of_forall (fun _ _ => trivial) _ _)
  · intro as t a t' _ h _ hnext hstep
    exact h.step (step_inv hstep) hnext
  · intro as t a t' _ h _ hstep honce
    exact h.needed (step_inv hstep) honce

/-- An untagged receive, posted early, and an untagged message, both of eight bytes; then the other way
round. -/
def fittingRun : List Action :=
  [.postRecv (samplePost 8), .incoming (sampleSend 0), .incoming (sampleSend 1),
    .postRecv (samplePost 8)]

theorem fittingRun_completes_once :
    EveryState (step copyingSumi) (fun _ t => CompletesOnce .tagged t) {} fittingRun :=
  (completes_once_iff copyingSumi .tagged fittingRun _ rfl).mpr (by decide)

/-- A receive of four bytes and a message of eight. -/
def oversizeRun : List Action := [.postRecv (samplePost 4), .incoming (sampleSend 0)]

/-- The receive and the message are both gone, nothing waits to be read, and there is no completion, of
success or of an error. -/
theorem oversizeRun_no_completion :
    ∃ s, run (step copyingSumi) {} oversizeRun = .ok s ∧
      s.matches = [⟨false, 0, sampleSend 0⟩] ∧ pendingCalls s = [] ∧ s.unexpRecvs = [] ∧
      s.progress = [] ∧ s.completions = [] ∧ sstmacCqReaderr s = (-fiEinval, none) ∧
      ¬ CompletesOnce .tagged s := by
  refine ⟨_, rfl, by decide, by decide, by decide, by decide, by decide, rfl, ?_⟩
  intro h
  have hone := h.once ⟨false, 0, sampleSend 0⟩ (by decide) (samplePost 4) (by decide)
  revert hone
  decide

end SstTransports.Fabric
