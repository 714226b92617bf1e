/-
# SstTransports.Fabric.Isolation — tagged and untagged traffic do not interfere.

Both kinds of traffic share `finishMatch`, the progress queue and the set of deleted messages.  A run
is compared with the run from which all traffic of one kind was erased.  `UntaggedView` and
`TaggedView` say what the other kind sees of a state; erased steps do not move the view, and the
steps that are kept return in the smaller run too and move the view in the same way.
-/
import SstTransports.Fabric.Pairing

namespace SstTransports.Fabric

open SstTransports.Lib

variable {sumi : Sumi}

/-! ## §1 — without the tagged traffic -/

/-- What untagged traffic sees of `s` is what there is in `t`.  The numbers of the calls differ; the
nodes of `recvs` do not. -/
structure UntaggedView (s t : State) : Prop where
  kinds : KindsOk s
  recvs : s.recvs.map (·.node) = t.recvs.map (·.node)
  unexpRecvs : s.unexpRecvs = t.unexpRecvs
  progress : s.progress.filter (!·.isTaggedSend) = t.progress
  deleted : ∀ m, m.isTaggedSend = false → (m ∈ s.deleted ↔ m ∈ t.deleted)

section Finish

variable {s t : State} {tagged tagged' : Bool} {call call' : Nat} {buf : Ptr} {size : BitVec 32}
  {msg : FabricMessage}

theorem filter_finish_progress_of_true {p : FabricMessage → Bool} (h : p msg = true) :
    (s.finish sumi tagged call buf size msg).progress.filter p =
      s.progress.filter p ++ if fits size msg then [msg] else [] := by
  rw [finish_progress, List.filter_append]
  split_ifs <;> simp [h]

theorem mem_finish_deleted_iff {m : FabricMessage} (h : m ∈ s.deleted ↔ m ∈ t.deleted) :
    m ∈ (s.finish sumi tagged call buf size msg).deleted ↔
      m ∈ (t.finish sumi tagged' call' buf size msg).deleted := by
  rw [finish_deleted, finish_deleted, List.mem_append, List.mem_append, h]

end Finish

theorem UntaggedView.drop_step {s s' t : State} {a : Action} (h : UntaggedView s t)
    (ha : a.isTagged = true) (hs : Step sumi s a s') : UntaggedView s' t := by
  obtain ⟨hrecvs, hunexp⟩ := hs.untagged_frame (isUntagged_of_isTagged ha)
  obtain ⟨handed, gone, hprogress, hdeleted, hkind⟩ := hs.appends h.kinds
  refine ⟨h.kinds.step hs, ?_, ?_, ?_, ?_⟩
  · rw [hrecvs]
    exact h.recvs
  · rw [hunexp]
    exact h.unexpRecvs
  · have hnone : handed.filter (!·.isTaggedSend) = [] := by
      apply List.filter_eq_nil_iff.mpr
      intro m hm
      simp [(hkind m (List.mem_append_left _ hm)).1, ha]
    rw [hprogress, List.filter_append, hnone, List.append_nil]
    exact h.progress
  · intro m hm
    have hgone : m ∉ gone := by
      intro hm'
      rw [(hkind m (List.mem_append_right _ hm')).1, ha] at hm
      cases hm
    rw [hdeleted, List.mem_append, or_iff_left hgone]
    exact h.deleted m hm

theorem UntaggedView.keep_step {s s' t : State} {a : Action} (h : UntaggedView s t)
    (ha : a.isTagged = false) (hs : Step sumi s a s') :
    ∃ t', Step sumi t a t' ∧ UntaggedView s' t' := by
  have hkinds := h.kinds.step hs
  cases hs with
  | postTaggedEmpty p tagged empty => simp [Action.isTagged, tagged] at ha
  | postTaggedMatch p tagged pre msg post split even accepts live skipped =>
      simp [Action.isTagged, tagged] at ha
  | postTaggedMiss p tagged nonempty even miss => simp [Action.isTagged, tagged] at ha
  | postUntaggedEmpty p untagged empty =>
      refine ⟨_, .postUntaggedEmpty p untagged (h.unexpRecvs ▸ empty), ?_⟩
      refine ⟨hkinds, ?_, h.unexpRecvs, h.progress, h.deleted⟩
      simp only [State.setRecvs_recvs, List.map_append, h.recvs]
      rfl
  | postUntaggedMatch p untagged msg rest split live =>
      have hmsg : msg.isTaggedSend = false :=
        isTaggedSend_of_isUntaggedSend (h.kinds.unexp msg (by simp [split]))
      have hlive : msg ∉ t.deleted := by rwa [← h.deleted msg hmsg]
      refine ⟨_, .postUntaggedMatch p untagged msg rest (h.unexpRecvs ▸ split) hlive, ?_⟩
      refine ⟨hkinds, ?_, ?_, ?_, ?_⟩
      · rw [finish_recvs, finish_recvs]
        exact h.recvs
      · rw [finish_unexpRecvs, finish_unexpRecvs]
        rfl
      · rw [filter_finish_progress_of_true (by simp [hmsg]), finish_progress]
        exact congrArg (· ++ _) h.progress
      · intro m hm
        exact mem_finish_deleted_iff (h.deleted m hm)
  | incomingOther msg live other =>
      have hmsg : msg.isTaggedSend = false := ha
      have hlive : msg ∉ t.deleted := by rwa [← h.deleted msg hmsg]
      refine ⟨_, .incomingOther msg hlive other, ?_⟩
      refine ⟨hkinds, h.recvs, h.unexpRecvs, ?_, h.deleted⟩
      simp [hmsg, h.progress]
  | incomingTaggedMatch msg live tagged pre r post split even accepts skipped =>
      simp [Action.isTagged, tagged] at ha
  | incomingTaggedMiss msg live tagged even miss => simp [Action.isTagged, tagged] at ha
  | incomingUntaggedEmpty msg live untagged empty =>
      have hlive : msg ∉ t.deleted := by rwa [← h.deleted msg ha]
      have hempty : t.recvs = [] := by
        have hmap := h.recvs
        rw [empty] at hmap
        exact List.map_eq_nil_iff.mp hmap.symm
      refine ⟨_, .incomingUntaggedEmpty msg hlive untagged hempty, ?_⟩
      refine ⟨hkinds, h.recvs, ?_, h.progress, h.deleted⟩
      simp [h.unexpRecvs]
  | incomingUntaggedMatch msg live untagged r rest split =>
      have hlive : msg ∉ t.deleted := by rwa [← h.deleted msg ha]
      have hmap := h.recvs
      rw [split] at hmap
      obtain ⟨r', rest', hsplit', hnode, hrest⟩ := List.map_eq_cons_iff.mp hmap.symm
      refine ⟨_, .incomingUntaggedMatch msg hlive untagged r' rest' hsplit', ?_⟩
      refine ⟨hkinds, ?_, ?_, ?_, ?_⟩
      · exact hrest.symm
      · simp [h.unexpRecvs]
      · rw [State.setRecvs_progress, filter_finish_progress_of_true (by simp; exact ha),
          State.setRecvs_progress, finish_progress, hnode]
        exact congrArg (· ++ _) h.progress
      · intro m hm
        rw [State.setRecvs_deleted, State.setRecvs_deleted, hnode]
        exact mem_finish_deleted_iff (h.deleted m hm)

/-! ## §2 — without the untagged traffic -/

/-- What tagged traffic sees of `s` is what there is in `t`. -/
structure TaggedView (s t : State) : Prop where
  kinds : KindsOk s
  taggedRecvs : s.taggedRecvs.map (·.node) = t.taggedRecvs.map (·.node)
  unexpTaggedRecvs : s.unexpTaggedRecvs = t.unexpTaggedRecvs
  progress : s.progress.filter (·.isTaggedSend) = t.progress.filter (·.isTaggedSend)
  deleted : ∀ m, m.isUntaggedSend = false → (m ∈ s.deleted ↔ m ∈ t.deleted)

/-- A scan reads of a pending receive its node only. -/
theorem accepts_everyOther_of_node {l l' : List (Pending TaggedRecv)} {msg : FabricMessage}
    (hnodes : l.map (·.node) = l'.map (·.node)) (h : ∀ q ∈ everyOther l, q.accepts msg = false) :
    ∀ q ∈ everyOther l', q.accepts msg = false := by
  intro q hq
  have hnode : q.node ∈ (everyOther l').map (·.node) := List.mem_map_of_mem hq
  rw [← everyOther_map, ← hnodes, everyOther_map] at hnode
  obtain ⟨q₀, hq₀, heq⟩ := List.mem_map.mp hnode
  have hrej := h q₀ hq₀
  rw [Pending.accepts, heq] at hrej
  exact hrej

/-- What one list of pending receives has in a place, the other has there too. -/
theorem exists_split_of_node {l l' pre post : List (Pending TaggedRecv)} {r : Pending TaggedRecv}
    (hnodes : l.map (·.node) = l'.map (·.node)) (split : l = pre ++ r :: post) :
    ∃ pre' r' post', l' = pre' ++ r' :: post' ∧ pre'.map (·.node) = pre.map (·.node) ∧
      r'.node = r.node ∧ post'.map (·.node) = post.map (·.node) := by
  rw [split, List.map_append, List.map_cons] at hnodes
  obtain ⟨pre', rest', hsplit, hpre, hrest⟩ := List.map_eq_append_iff.mp hnodes.symm
  obtain ⟨r', post', rfl, hnode, hpost⟩ := List.map_eq_cons_iff.mp hrest
  exact ⟨pre', r', post', hsplit, hpre, hnode, hpost⟩

/-- A waiting tagged message is deleted in both runs or in neither. -/
theorem TaggedView.deleted_waiting {s t : State} (h : TaggedView s t) {m : FabricMessage}
    (hm : m ∈ s.unexpTaggedRecvs) : m ∈ s.deleted ↔ m ∈ t.deleted :=
  h.deleted m (isUntaggedSend_of_isTaggedSend (h.kinds.unexpTagged m hm))

/-- What a scan of the waiting messages passes over in one run it passes over in the other. -/
theorem TaggedView.passed_over {s t : State} (h : TaggedView s t) {p : PostRecv}
    {l : List FabricMessage} (hl : l ⊆ s.unexpTaggedRecvs)
    (hscan : ∀ m ∈ everyOther l, m ∉ s.deleted ∧ p.accepts m = false) :
    ∀ m ∈ everyOther l, m ∉ t.deleted ∧ p.accepts m = false := by
  intro m hm
  rw [← h.deleted_waiting (hl (mem_of_mem_everyOther hm))]
  exact hscan m hm

theorem TaggedView.drop_step {s s' t : State} {a : Action} (h : TaggedView s t)
    (ha : a.isUntagged = true) (hs : Step sumi s a s') : TaggedView s' t := by
  have htagged := isTagged_of_isUntagged ha
  obtain ⟨hrecvs, hunexp⟩ := hs.tagged_frame htagged
  obtain ⟨handed, gone, hprogress, hdeleted, hkind⟩ := hs.appends h.kinds
  refine ⟨h.kinds.step hs, ?_, ?_, ?_, ?_⟩
  · rw [hrecvs]
    exact h.taggedRecvs
  · rw [hunexp]
    exact h.unexpTaggedRecvs
  · have hnone : handed.filter (·.isTaggedSend) = [] := by
      apply List.filter_eq_nil_iff.mpr
      intro m hm
      simp [(hkind m (List.mem_append_left _ hm)).1, htagged]
    rw [hprogress, List.filter_append, hnone, List.append_nil]
    exact h.progress
  · intro m hm
    have hgone : m ∉ gone := by
      intro hm'
      rw [(hkind m (List.mem_append_right _ hm')).2, ha] at hm
      cases hm
    rw [hdeleted, List.mem_append, or_iff_left hgone]
    exact h.deleted m hm

theorem TaggedView.keep_step {s s' t : State} {a : Action} (h : TaggedView s t)
    (ha : a.isUntagged = false) (hs : Step sumi s a s') :
    ∃ t', Step sumi t a t' ∧ TaggedView s' t' := by
  have hkinds := h.kinds.step hs
  have hlen : s.taggedRecvs.length = t.taggedRecvs.length := by
    simpa using congrArg List.length h.taggedRecvs
  cases hs with
  | postTaggedEmpty p tagged empty =>
      refine ⟨_, .postTaggedEmpty p tagged (h.unexpTaggedRecvs ▸ empty), ?_⟩
      refine ⟨hkinds, ?_, h.unexpTaggedRecvs, h.progress, h.deleted⟩
      simp only [State.setTaggedRecvs_taggedRecvs, List.map_append, h.taggedRecvs]
      rfl
  | postTaggedMatch p tagged pre msg post split even accepts live skipped =>
      have hmem : msg ∈ s.unexpTaggedRecvs := by simp [split]
      have hmsg : msg.isTaggedSend = true := h.kinds.unexpTagged msg hmem
      have hlive : msg ∉ t.deleted := by rwa [← h.deleted_waiting hmem]
      have hpre : pre ⊆ s.unexpTaggedRecvs := by
        rw [split]
        exact List.subset_append_left _ _
      have hskipped := h.passed_over hpre skipped
      refine ⟨_, .postTaggedMatch p tagged pre msg post (h.unexpTaggedRecvs ▸ split) even accepts
        hlive hskipped, ?_⟩
      refine ⟨hkinds, ?_, ?_, ?_, ?_⟩
      · rw [finish_taggedRecvs, finish_taggedRecvs]
        exact h.taggedRecvs
      · rw [finish_unexpTaggedRecvs, finish_unexpTaggedRecvs]
        exact h.unexpTaggedRecvs
      · rw [filter_finish_progress_of_true hmsg, filter_finish_progress_of_true hmsg]
        exact congrArg (· ++ _) h.progress
      · intro m hm
        exact mem_finish_deleted_iff (h.deleted m hm)
  | postTaggedMiss p tagged nonempty even miss =>
      have hmiss := h.passed_over (List.Subset.refl _) miss
      rw [h.unexpTaggedRecvs] at hmiss
      refine ⟨_, .postTaggedMiss p tagged (h.unexpTaggedRecvs ▸ nonempty)
        (h.unexpTaggedRecvs ▸ even) hmiss, ?_⟩
      refine ⟨hkinds, ?_, h.unexpTaggedRecvs, h.progress, h.deleted⟩
      simp only [State.setTaggedRecvs_taggedRecvs, List.map_append, h.taggedRecvs]
      rfl
  | postUntaggedEmpty p untagged empty => simp [Action.isUntagged, untagged] at ha
  | postUntaggedMatch p untagged msg rest split live => simp [Action.isUntagged, untagged] at ha
  | incomingOther msg live other =>
      have hlive : msg ∉ t.deleted := by rwa [← h.deleted msg ha]
      have hmsg : msg.isTaggedSend = false := by simp [FabricMessage.isTaggedSend, other]
      refine ⟨_, .incomingOther msg hlive other, ?_⟩
      refine ⟨hkinds, h.taggedRecvs, h.unexpTaggedRecvs, ?_, h.deleted⟩
      simp [List.filter_append, hmsg, h.progress]
  | incomingTaggedMatch msg live tagged pre r post split even accepts skipped =>
      have hlive : msg ∉ t.deleted := by rwa [← h.deleted msg ha]
      obtain ⟨pre', r', post', hsplit', hpre, hnode, hpost⟩ :=
        exists_split_of_node h.taggedRecvs split
      have heven : Even pre'.length := by
        have hlen : pre'.length = pre.length := by simpa using congrArg List.length hpre
        rwa [hlen]
      have haccepts : r'.accepts msg = true := by
        rw [Pending.accepts, hnode]
        exact accepts
      have hskipped := accepts_everyOther_of_node hpre.symm skipped
      refine ⟨_, .incomingTaggedMatch msg hlive tagged pre' r' post' hsplit' heven haccepts
        hskipped, ?_⟩
      refine ⟨hkinds, ?_, ?_, ?_, ?_⟩
      · simp only [State.setTaggedRecvs_taggedRecvs, List.map_append, hpre, hpost]
      · simp only [State.setTaggedRecvs_unexpTaggedRecvs, finish_unexpTaggedRecvs]
        exact h.unexpTaggedRecvs
      · rw [State.setTaggedRecvs_progress, State.setTaggedRecvs_progress,
          filter_finish_progress_of_true tagged, filter_finish_progress_of_true tagged, hnode,
          h.progress]
      · intro m hm
        rw [State.setTaggedRecvs_deleted, State.setTaggedRecvs_deleted, hnode]
        exact mem_finish_deleted_iff (h.deleted m hm)
  | incomingTaggedMiss msg live tagged even miss =>
      have hlive : msg ∉ t.deleted := by rwa [← h.deleted msg ha]
      have hmiss := accepts_everyOther_of_node h.taggedRecvs miss
      refine ⟨_, .incomingTaggedMiss msg hlive tagged (hlen ▸ even) hmiss, ?_⟩
      refine ⟨hkinds, h.taggedRecvs, ?_, h.progress, h.deleted⟩
      simp [h.unexpTaggedRecvs]
  | incomingUntaggedEmpty msg live untagged empty => simp [Action.isUntagged, untagged] at ha
  | incomingUntaggedMatch msg live untagged r rest split => simp [Action.isUntagged, untagged] at ha

/-! ## §3 — erasing one kind of traffic from a run -/

theorem exists_untaggedView {as : List Action} {s : State} (h : run (step sumi) {} as = .ok s) :
    ∃ t, run (step sumi) {} (as.filter (!·.isTagged)) = .ok t ∧ UntaggedView s t := by
  have hstart : UntaggedView {} {} := ⟨kindsOk_empty, rfl, rfl, rfl, fun _ _ => Iff.rfl⟩
  refine run_filter_simulation (R := UntaggedView) (!·.isTagged) ?_ ?_ hstart h
  · intro s t a s' hdrop hview hstep
    exact hview.drop_step (by simpa using hdrop) (step_inv hstep)
  · intro s t a s' hkeep hview hstep
    obtain ⟨t', ht, hview'⟩ := hview.keep_step (by simpa using hkeep) (step_inv hstep)
    exact ⟨t', ht.step_eq, hview'⟩

theorem exists_taggedView {as : List Action} {s : State} (h : run (step sumi) {} as = .ok s) :
    ∃ t, run (step sumi) {} (as.filter (!·.isUntagged)) = .ok t ∧ TaggedView s t := by
  have hstart : TaggedView {} {} := ⟨kindsOk_empty, rfl, rfl, rfl, fun _ _ => Iff.rfl⟩
  refine run_filter_simulation (R := TaggedView) (!·.isUntagged) ?_ ?_ hstart h
  · intro s t a s' hdrop hview hstep
    exact hview.drop_step (by simpa using hdrop) (step_inv hstep)
  · intro s t a s' hkeep hview hstep
    obtain ⟨t', ht, hview'⟩ := hview.keep_step (by simpa using hkeep) (step_inv hstep)
    exact ⟨t', ht.step_eq, hview'⟩

/-- **Isolation.** Erase the tagged traffic from a run that returns: the rest returns, with the same
receives in `recvs`, the same messages in `unexp_recvs`, and the progress queue without its tagged
sends.  Erase the untagged traffic: the rest returns, with the same `tagged_recvs` and
`unexp_tagged_recvs`, and the same tagged sends in the progress queue. -/
theorem isolation (sumi : Sumi) (as : List Action) (s : State)
    (h : run (step sumi) {} as = .ok s) :
    (∃ t, run (step sumi) {} (as.filter (!·.isTagged)) = .ok t ∧
      t.recvs.map (·.node) = s.recvs.map (·.node) ∧ t.unexpRecvs = s.unexpRecvs ∧
      t.progress = s.progress.filter (!·.isTaggedSend)) ∧
    ∃ t, run (step sumi) {} (as.filter (!·.isUntagged)) = .ok t ∧
      t.taggedRecvs.map (·.node) = s.taggedRecvs.map (·.node) ∧
      t.unexpTaggedRecvs = s.unexpTaggedRecvs ∧
      t.progress.filter (·.isTaggedSend) = s.progress.filter (·.isTaggedSend) := by
  obtain ⟨t, ht, hview⟩ := exists_untaggedView h
  obtain ⟨u, hu, hview'⟩ := exists_taggedView h
  refine ⟨⟨t, ht, hview.recvs.symm, hview.unexpRecvs.symm, hview.progress.symm⟩, ?_⟩
  exact ⟨u, hu, hview'.taggedRecvs.symm, hview'.unexpTaggedRecvs.symm, hview'.progress.symm⟩

/-- Tagged and untagged traffic, interleaved. -/
def mixedRun : List Action :=
  [.incoming (sampleTaggedSend 0 5), .incoming (sampleSend 1), .postRecv (sampleTaggedPost 16 5),
    .postRecv (samplePost 16), .postRecv (samplePost 4)]

theorem mixedRun_isolation :
    ∃ s, run (step copyingSumi) {} mixedRun = .ok s ∧
      ∃ t, run (step copyingSumi) {} (mixedRun.filter (!·.isTagged)) = .ok t ∧
        t.unexpRecvs = s.unexpRecvs := by
  refine ⟨_, rfl, ?_⟩
  obtain ⟨t, ht, _, hunexp, _⟩ := (isolation copyingSumi mixedRun _ rfl).1
  exact ⟨t, ht, hunexp⟩

end SstTransports.Fabric
