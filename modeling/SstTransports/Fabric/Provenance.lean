/-
# SstTransports.Fabric.Provenance — where a match comes from.

A pending node keeps the arguments of the `postRecv` call that made it (`Provenance`), whatever
steps come between.  So whenever `finishMatch` is entered, along any of its four routes, the buffer
and the size it gets are those of one posted receive, of the message's own kind and, if tagged, with
a matching tag (`Provenance.outcome`).  `matching_sound` reads this off for the messages handed to
the progress queue.
-/
import SstTransports.Fabric.Steps

namespace SstTransports.Fabric

open SstTransports.Lib

variable {sumi : Sumi}

/-! ## §1 — pending nodes and their calls -/

/-- Call number `call` posted the receive `p`, and `p` may receive `msg`. -/
structure Receives (posts : List PostRecv) (call : Nat) (p : PostRecv) (msg : FabricMessage) :
    Prop where
  posted : posts[call]? = some p
  send : msg.isPostedSend = true
  kind : p.tagged = msg.isTagged
  accepts : p.tagged = true → p.accepts msg = true

/-- Every pending node holds the arguments of its call, and every match was with a receive that may
receive the message. -/
structure Provenance (s : State) : Prop where
  recvs : ∀ r ∈ s.recvs, ∃ p, s.posts[r.call]? = some p ∧ p.tagged = false ∧ p.recv r.call = r
  taggedRecvs : ∀ r ∈ s.taggedRecvs,
    ∃ p, s.posts[r.call]? = some p ∧ p.tagged = true ∧ p.taggedRecv r.call = r
  matched : ∀ x ∈ s.matches, ∃ p, Receives s.posts x.call p x.msg ∧ p.tagged = x.tagged

theorem getElem?_append_of_some {α : Type*} {l : List α} {i : Nat} {x : α} (h : l[i]? = some x)
    (l' : List α) : (l ++ l')[i]? = some x := by
  have hlt : i < l.length := (List.getElem?_eq_some_iff.mp h).1
  rw [List.getElem?_append_left hlt]
  exact h

theorem Receives.append {posts : List PostRecv} {call : Nat} {p : PostRecv} {msg : FabricMessage}
    (h : Receives posts call p msg) (new : List PostRecv) : Receives (posts ++ new) call p msg :=
  ⟨getElem?_append_of_some h.posted new, h.send, h.kind, h.accepts⟩

theorem receives_of_tagged {posts : List PostRecv} {call : Nat} {p : PostRecv}
    {msg : FabricMessage} (posted : posts[call]? = some p) (tagged : p.tagged = true)
    (hmsg : msg.isTaggedSend = true) (accepts : p.accepts msg = true) :
    Receives posts call p msg :=
  ⟨posted, isPostedSend_of_isTaggedSend hmsg, tagged.trans (isTagged_of_isTaggedSend hmsg).symm,
    fun _ => accepts⟩

theorem receives_of_untagged {posts : List PostRecv} {call : Nat} {p : PostRecv}
    {msg : FabricMessage} (posted : posts[call]? = some p) (untagged : p.tagged = false)
    (hmsg : msg.isUntaggedSend = true) : Receives posts call p msg :=
  ⟨posted, isPostedSend_of_isUntaggedSend hmsg,
    untagged.trans (isTagged_of_isUntaggedSend hmsg).symm, fun h => by simp [untagged] at h⟩

/-! ## §2 — what a step does outside the four lists -/

/-- What `finishMatch` is entered with: the message, and of the receive its call, buffer and
size. -/
structure Candidate where
  msg : FabricMessage
  call : Nat
  buf : Ptr
  size : BitVec 32
  deriving DecidableEq, Repr

/-- The match an action is about to make, read off the lists it finds. -/
def State.nextMatch (s : State) : Action → Option Candidate
  | .postRecv p =>
    if p.tagged then
      match s.scanUnexpTaggedRecvs p.tag p.tagIgnore with
      | .ok (some (_, msg)) => some ⟨msg, s.posts.length, p.buf, p.size⟩
      | _ => none
    else
      match s.unexpRecvs with
      | [] => none
      | msg :: _ => some ⟨msg, s.posts.length, p.buf, p.size⟩
  | .incoming msg =>
    if msg.isTaggedSend then
      match s.scanTaggedRecvs msg with
      | .ok (some (_, r)) => some ⟨msg, r.call, r.node.buf, r.node.size⟩
      | _ => none
    else if msg.isUntaggedSend then
      match s.recvs with
      | [] => none
      | r :: _ => some ⟨msg, r.call, r.node.buf, r.node.size⟩
    else none

/-- The three outcomes of a step that leads from `s` to `s'`. -/
inductive Outcome (sumi : Sumi) (s : State) (a : Action) (s' : State) : Prop
  /-- Something was enqueued and nothing else happened. -/
  | quiet (progress : s'.progress = s.progress) (localBuffers : s'.localBuffers = s.localBuffers)
      (effects : s'.effects = s.effects)
  /-- A message that is no posted send went right through. -/
  | passed (msg : FabricMessage) (other : msg.isPostedSend = false)
      (progress : s'.progress = s.progress ++ [msg])
      (localBuffers : s'.localBuffers = s.localBuffers)
      (effects : s'.effects = s.effects ++ [.progressIncoming msg none])
  /-- A posted receive and a message it may receive went to `finishMatch`. -/
  | matched (call : Nat) (p : PostRecv) (msg : FabricMessage)
      (next : s.nextMatch a = some ⟨msg, call, p.buf, p.size⟩)
      (receives : Receives s'.posts call p msg)
      (progress : s'.progress = s.progress ++ if fits p.size msg then [msg] else [])
      (localBuffers : s'.localBuffers =
        if fits p.size msg && s.copies p.buf msg then
          (msg, sumi.matchRecv (s.localBuffer msg) p.buf) :: s.localBuffers
        else s.localBuffers)
      (effects : s'.effects = s.effects ++ s.finishEffects p.tagged call p.buf p.size msg)

theorem Provenance.outcome {s s' : State} {a : Action} (h : Provenance s) (hk : KindsOk s)
    (hs : Step sumi s a s') : Outcome sumi s a s' := by
  cases hs with
  | postTaggedEmpty p tagged empty => exact .quiet rfl rfl rfl
  | postTaggedMatch p tagged pre msg post split even accepts live skipped =>
      have hmsg : msg.isTaggedSend = true := hk.unexpTagged msg (by simp [split])
      have hposted : (s.posts ++ [p])[s.posts.length]? = some p := by simp
      refine .matched s.posts.length p msg ?_ ?_ ?_ ?_ ?_
      · simp only [State.nextMatch, tagged, if_true,
          scanUnexpTaggedRecvs_of_split split even accepts live skipped]
      · rw [finish_posts]
        exact receives_of_tagged hposted tagged hmsg accepts
      · rw [finish_progress]
        rfl
      · rw [finish_localBuffers]
        rfl
      · rw [finish_effects, tagged]
        rfl
  | postTaggedMiss p tagged nonempty even miss => exact .quiet rfl rfl rfl
  | postUntaggedEmpty p untagged empty => exact .quiet rfl rfl rfl
  | postUntaggedMatch p untagged msg rest split live =>
      have hmsg : msg.isUntaggedSend = true := hk.unexp msg (by simp [split])
      have hposted : (s.posts ++ [p])[s.posts.length]? = some p := by simp
      refine .matched s.posts.length p msg ?_ ?_ ?_ ?_ ?_
      · simp only [State.nextMatch, untagged, Bool.false_eq_true, if_false, split]
      · rw [finish_posts]
        exact receives_of_untagged hposted untagged hmsg
      · rw [finish_progress]
        rfl
      · rw [finish_localBuffers]
        rfl
      · rw [finish_effects, untagged]
        rfl
  | incomingOther msg live other => exact .passed msg other rfl rfl rfl
  | incomingTaggedMatch msg live tagged pre r post split even accepts skipped =>
      obtain ⟨p, hposted, hp, hr⟩ := h.taggedRecvs r (by simp [split])
      have haccepts : p.accepts msg = true := by
        rw [← taggedRecv_accepts p r.call, hr]
        exact accepts
      have hsize : r.node.size = p.size := by rw [← hr, PostRecv.taggedRecv]
      have hbuf : r.node.buf = p.buf := by rw [← hr, PostRecv.taggedRecv]
      refine .matched r.call p msg ?_ ?_ ?_ ?_ ?_
      · simp only [State.nextMatch, tagged, if_true,
          scanTaggedRecvs_of_split live split even accepts skipped, hbuf, hsize]
      · simp only [State.setTaggedRecvs_posts, finish_posts]
        exact receives_of_tagged hposted hp tagged haccepts
      · rw [State.setTaggedRecvs_progress, finish_progress, hsize]
      · rw [State.setTaggedRecvs_localBuffers, finish_localBuffers, hsize, hbuf]
      · rw [State.setTaggedRecvs_effects, finish_effects, hsize, hbuf, hp]
  | incomingTaggedMiss msg live tagged even miss => exact .quiet rfl rfl rfl
  | incomingUntaggedEmpty msg live untagged empty => exact .quiet rfl rfl rfl
  | incomingUntaggedMatch msg live untagged r rest split =>
      obtain ⟨p, hposted, hp, hr⟩ := h.recvs r (by simp [split])
      have hsize : r.node.size = p.size := by rw [← hr, PostRecv.recv]
      have hbuf : r.node.buf = p.buf := by rw [← hr, PostRecv.recv]
      refine .matched r.call p msg ?_ ?_ ?_ ?_ ?_
      · simp only [State.nextMatch, isTaggedSend_of_isUntaggedSend untagged, untagged,
          Bool.false_eq_true, if_true, if_false, split, hbuf, hsize]
      · simp only [State.setRecvs_posts, finish_posts]
        exact receives_of_untagged hposted hp untagged
      · rw [State.setRecvs_progress, finish_progress, hsize]
      · rw [State.setRecvs_localBuffers, finish_localBuffers, hsize, hbuf]
      · rw [State.setRecvs_effects, finish_effects, hsize, hbuf, hp]

/-! ## §3 — provenance along a run -/

theorem Provenance.matched_step {s s' : State} {a : Action} (h : Provenance s) (hk : KindsOk s)
    (hs : Step sumi s a s') :
    ∀ x ∈ s'.matches, ∃ p, Receives s'.posts x.call p x.msg ∧ p.tagged = x.tagged := by
  have hposts := posts_step hs
  have hold : ∀ x ∈ s.matches, ∃ p, Receives s'.posts x.call p x.msg ∧ p.tagged = x.tagged := by
    intro x hx
    obtain ⟨p, hp, htagged⟩ := h.matched x hx
    rw [hposts]
    exact ⟨p, hp.append _, htagged⟩
  intro x hx
  cases h.outcome hk hs with
  | quiet progress localBuffers effects =>
      rw [State.matches, effects] at hx
      exact hold x hx
  | passed msg other progress localBuffers effects =>
      rw [State.matches, effects, List.filterMap_append, List.filterMap_cons,
        List.filterMap_nil, List.append_nil] at hx
      exact hold x hx
  | matched call p msg next receives progress localBuffers effects =>
      have hmatches : s'.matches = (s.finish sumi p.tagged call p.buf p.size msg).matches := by
        rw [State.matches, State.matches, effects, finish_effects]
      rw [hmatches, finish_matches, List.mem_append, List.mem_singleton] at hx
      rcases hx with hx | rfl
      · exact hold x hx
      · exact ⟨p, receives, rfl⟩

/-- A node of `recvs` after a step was there before it, or is the posting action's own. -/
theorem mem_recvs_step {s s' : State} {a : Action} (hs : Step sumi s a s') {r : Pending Recv}
    (hr : r ∈ s'.recvs) :
    r ∈ s.recvs ∨
      ∃ p, a = .postRecv p ∧ p.tagged = false ∧ r = p.recv s.posts.length := by
  cases hs with
  | postTaggedEmpty p tagged empty => exact Or.inl hr
  | postTaggedMatch p tagged pre msg post split even accepts live skipped =>
      exact Or.inl (by simpa using hr)
  | postTaggedMiss p tagged nonempty even miss => exact Or.inl hr
  | postUntaggedEmpty p untagged empty =>
      rcases List.mem_append.mp hr with hr | hr
      · exact Or.inl hr
      · exact Or.inr ⟨p, rfl, untagged, List.mem_singleton.mp hr⟩
  | postUntaggedMatch p untagged msg rest split live => exact Or.inl (by simpa using hr)
  | incomingOther msg live other => exact Or.inl hr
  | incomingTaggedMatch msg live tagged pre r₀ post split even accepts skipped =>
      exact Or.inl (by simpa using hr)
  | incomingTaggedMiss msg live tagged even miss => exact Or.inl hr
  | incomingUntaggedEmpty msg live untagged empty => exact Or.inl hr
  | incomingUntaggedMatch msg live untagged r₀ rest split =>
      rw [split]
      exact Or.inl (List.mem_cons_of_mem r₀ hr)

/-- The same for `tagged_recvs`. -/
theorem mem_taggedRecvs_step {s s' : State} {a : Action} (hs : Step sumi s a s')
    {r : Pending TaggedRecv} (hr : r ∈ s'.taggedRecvs) :
    r ∈ s.taggedRecvs ∨
      ∃ p, a = .postRecv p ∧ p.tagged = true ∧ r = p.taggedRecv s.posts.length := by
  cases hs with
  | postTaggedEmpty p tagged empty =>
      rcases List.mem_append.mp hr with hr | hr
      · exact Or.inl hr
      · exact Or.inr ⟨p, rfl, tagged, by simpa using hr⟩
  | postTaggedMatch p tagged pre msg post split even accepts live skipped =>
      exact Or.inl (by simpa using hr)
  | postTaggedMiss p tagged nonempty even miss =>
      rcases List.mem_append.mp hr with hr | hr
      · exact Or.inl hr
      · exact Or.inr ⟨p, rfl, tagged, List.mem_singleton.mp hr⟩
  | postUntaggedEmpty p untagged empty => exact Or.inl hr
  | postUntaggedMatch p untagged msg rest split live => exact Or.inl (by simpa using hr)
  | incomingOther msg live other => exact Or.inl hr
  | incomingTaggedMatch msg live tagged pre r₀ post split even accepts skipped =>
      rw [split]
      rcases List.mem_append.mp hr with hr | hr
      · exact Or.inl (List.mem_append_left _ hr)
      · exact Or.inl (List.mem_append_right _ (List.mem_cons_of_mem r₀ hr))
  | incomingTaggedMiss msg live tagged even miss => exact Or.inl hr
  | incomingUntaggedEmpty msg live untagged empty => exact Or.inl hr
  | incomingUntaggedMatch msg live untagged r₀ rest split => exact Or.inl (by simpa using hr)

theorem posted_self {s s' : State} {p : PostRecv} (hs : Step sumi s (.postRecv p) s') :
    s'.posts[s.posts.length]? = some p := by
  rw [posts_step hs]
  simp [posted]

theorem Provenance.step {s s' : State} {a : Action} (h : Provenance s) (hk : KindsOk s)
    (hs : Step sumi s a s') : Provenance s' := by
  have hposts := posts_step hs
  refine ⟨?_, ?_, h.matched_step hk hs⟩
  · intro r hr
    rcases mem_recvs_step hs hr with hr | ⟨p, rfl, hkind, rfl⟩
    · obtain ⟨p, hp, hkind, hnode⟩ := h.recvs r hr
      rw [hposts]
      exact ⟨p, getElem?_append_of_some hp _, hkind, hnode⟩
    · exact ⟨p, posted_self hs, hkind, rfl⟩
  · intro r hr
    rcases mem_taggedRecvs_step hs hr with hr | ⟨p, rfl, hkind, rfl⟩
    · obtain ⟨p, hp, hkind, hnode⟩ := h.taggedRecvs r hr
      rw [hposts]
      exact ⟨p, getElem?_append_of_some hp _, hkind, hnode⟩
    · exact ⟨p, posted_self hs, hkind, rfl⟩

theorem provenance_run {as : List Action} {s : State} (h : run (step sumi) {} as = .ok s) :
    Provenance s := by
  refine run_induction (P := fun _ s => Provenance s) ⟨?_, ?_, ?_⟩ ?_ h
  · simp
  · simp
  · simp [State.matches]
  · intro as s a s' hrun hs hstep
    exact hs.step (kindsOk_run hrun) (step_inv hstep)

/-! ## §4 — what is handed to the progress queue -/

theorem fits_iff {size : BitVec 32} {msg : FabricMessage} :
    fits size msg = true ↔ msg.payloadBytes.toNat ≤ size.toNat := by
  have hsize : (size.setWidth 64).toNat = size.toNat := by
    rw [BitVec.toNat_setWidth]
    omega
  simp only [fits, decide_eq_true_eq, BitVec.le_def, hsize]

theorem accepts_iff {p : PostRecv} {msg : FabricMessage} :
    p.accepts msg = true ↔ msg.tag &&& ~~~p.tagIgnore = p.tag &&& ~~~p.tagIgnore := by
  simp [PostRecv.accepts, matchesTag]

/-- **Matching soundness.** Whenever a step of a run hands a posted send to the progress queue, the
step entered `finishMatch` with it and a receive posted in this or an earlier step: one of the
message's kind, with a matching tag if tagged, long enough, and whose buffer is the only argument
`matchRecv` got, if both buffers are there. -/
theorem matching_sound (sumi : Sumi) (as : List Action) (a : Action) (s s' : State)
    (hrun : run (step sumi) {} as = .ok s) (hstep : step sumi s a = .ok s')
    (m : FabricMessage) (send : m.isPostedSend = true) (handed : List FabricMessage)
    (hhanded : s'.progress = s.progress ++ handed) (hm : m ∈ handed) :
    ∃ call p, (posted (as ++ [a]))[call]? = some p ∧
      p.tagged = m.isTagged ∧
      (p.tagged = true → m.tag &&& ~~~p.tagIgnore = p.tag &&& ~~~p.tagIgnore) ∧
      m.payloadBytes.toNat ≤ p.size.toNat ∧
      s'.effects = s.effects ++ .finishMatch p.tagged call m ::
        (if p.buf ≠ nullptr ∧ s.localBuffer m ≠ nullptr then [.matchRecv m p.buf] else []) ++
        [.progressIncoming m (some call)] := by
  have hposts : s'.posts = posted (as ++ [a]) := posts_run (run_snoc_ok.mpr ⟨s, hrun, hstep⟩)
  cases (provenance_run hrun).outcome (kindsOk_run hrun) (step_inv hstep) with
  | quiet progress localBuffers effects =>
      obtain rfl : handed = [] := by simpa [progress] using hhanded
      simp at hm
  | passed msg other progress localBuffers effects =>
      obtain rfl : [msg] = handed := by simpa [progress] using hhanded
      rw [List.mem_singleton] at hm
      subst hm
      rw [send] at other
      cases other
  | matched call p msg next receives progress localBuffers effects =>
      rw [progress, List.append_cancel_left_eq] at hhanded
      subst hhanded
      by_cases hfit : fits p.size msg = true
      · simp only [hfit, if_true, List.mem_singleton] at hm
        subst hm
        refine ⟨call, p, hposts ▸ receives.posted, receives.kind, ?_, fits_iff.mp hfit, ?_⟩
        · exact fun htagged => accepts_iff.mp (receives.accepts htagged)
        · rw [effects]
          simp [State.finishEffects, hfit, State.copies]
      · simp [hfit] at hm

/-- A tagged message waits, and a receive posted after it hands it on. -/
theorem matching_sound_postTaggedMatch :
    ∃ s s', run (step copyingSumi) {} [.incoming (sampleTaggedSend 0 5)] = .ok s ∧
      step copyingSumi s (.postRecv (sampleTaggedPost 16 5)) = .ok s' ∧
      ∃ (call : Nat) (p : PostRecv), s'.posts[call]? = some p ∧
        (sampleTaggedSend 0 5).payloadBytes.toNat ≤ p.size.toNat := by
  refine ⟨_, _, rfl, rfl, ?_⟩
  obtain ⟨call, p, hposted, _, _, hsize, _⟩ :=
    matching_sound copyingSumi [.incoming (sampleTaggedSend 0 5)]
      (.postRecv (sampleTaggedPost 16 5)) _ _ rfl rfl (sampleTaggedSend 0 5) (by decide)
      [sampleTaggedSend 0 5] rfl (by decide)
  exact ⟨call, p, hposted, hsize⟩

end SstTransports.Fabric
