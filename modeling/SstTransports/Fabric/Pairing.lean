/-
# SstTransports.Fabric.Pairing — untagged pairing does not depend on timing.

For untagged traffic the queue pairs the i-th message with the i-th receive, whichever of the two
comes first.  `PairedInOrder R M s` writes the state down as a function of the posted receives `R`
and the arrived messages `M` alone, so two runs with the same `R` and `M` end in the same pairs and
the same lists (`untagged_pairing`).
-/
import SstTransports.Fabric.Steps
import Mathlib.Data.List.Zip

namespace SstTransports.Fabric

open SstTransports.Lib

variable {sumi : Sumi}

/-! ## §1 — zipping two lists that grow at the end -/

section Zip

variable {α β : Type*}

theorem zip_snoc_right_of_cons {l : List α} {k : List β} {x : α} {rest : List α} (y : β)
    (h : l.drop k.length = x :: rest) :
    l.zip (k ++ [y]) = l.zip k ++ [(x, y)] ∧ l.drop (k ++ [y]).length = rest := by
  induction l generalizing k with
  | nil => simp at h
  | cons a l ih =>
      cases k with
      | nil =>
          obtain ⟨rfl, rfl⟩ : a = x ∧ l = rest := by simpa using h
          simp
      | cons b k =>
          obtain ⟨hzip, hdrop⟩ := ih (k := k) (by simpa using h)
          exact ⟨by simp [hzip], by simpa using hdrop⟩

theorem zip_snoc_right_of_nil {l : List α} {k : List β} (y : β) (h : l.drop k.length = []) :
    l.zip (k ++ [y]) = l.zip k ∧ l.drop (k ++ [y]).length = [] := by
  induction l generalizing k with
  | nil => simp
  | cons a l ih =>
      cases k with
      | nil => simp at h
      | cons b k =>
          obtain ⟨hzip, hdrop⟩ := ih (k := k) (by simpa using h)
          exact ⟨by simp [hzip], by simpa using hdrop⟩

theorem zip_snoc_left_of_cons {l : List α} {k : List β} {y : β} {rest : List β} (x : α)
    (h : k.drop l.length = y :: rest) :
    (l ++ [x]).zip k = l.zip k ++ [(x, y)] ∧ k.drop (l ++ [x]).length = rest := by
  obtain ⟨hzip, hdrop⟩ := zip_snoc_right_of_cons x h
  refine ⟨?_, hdrop⟩
  rw [← List.zip_swap k, hzip, List.map_append, List.zip_swap]
  rfl

theorem zip_snoc_left_of_nil {l : List α} {k : List β} (x : α) (h : k.drop l.length = []) :
    (l ++ [x]).zip k = l.zip k ∧ k.drop (l ++ [x]).length = [] := by
  obtain ⟨hzip, hdrop⟩ := zip_snoc_right_of_nil x h
  refine ⟨?_, hdrop⟩
  rw [← List.zip_swap k, hzip, List.zip_swap]

/-- What is left of one list while the other is longer: nothing of the other. -/
theorem drop_snoc_of_nil {l : List α} {k : List β} (y : β) (h : l.drop k.length = []) :
    (k ++ [y]).drop l.length = k.drop l.length ++ [y] := by
  have hle : l.length ≤ k.length := List.drop_eq_nil_iff.mp h
  exact List.drop_append_of_le_length hle

end Zip

/-! ## §2 — the state as a function of the two sequences -/

/-- The receives with the numbers of their calls. -/
def numbered (R : List PostRecv) : List (PostRecv × Nat) := R.zipIdx

@[simp] theorem length_numbered (R : List PostRecv) : (numbered R).length = R.length :=
  List.length_zipIdx

@[simp] theorem numbered_snoc (R : List PostRecv) (p : PostRecv) :
    numbered (R ++ [p]) = numbered R ++ [(p, R.length)] := by
  simp [numbered, List.zipIdx_append]

/-- The i-th message with the i-th receive, as far as both go. -/
def pairing (R : List PostRecv) (M : List FabricMessage) :
    List (FabricMessage × PostRecv × Nat) :=
  M.zip (numbered R)

/-- The message of the pair fits its receive. -/
def pairFits (x : FabricMessage × PostRecv × Nat) : Bool := fits x.2.1.size x.1

/-- The state after the receives `R` were posted and the messages `M` arrived, all untagged. -/
structure PairedInOrder (R : List PostRecv) (M : List FabricMessage) (s : State) : Prop where
  /-- The i-th message was matched with the receive of the i-th call. -/
  pairs : s.matches = (pairing R M).map fun x => ⟨false, x.2.2, x.1⟩
  /-- Of these messages those that fit are in the progress queue, in the order of `M`. -/
  progress : s.progress = ((pairing R M).filter pairFits).map Prod.fst
  /-- The others of them were deleted. -/
  deleted : s.deleted = ((pairing R M).filter (!pairFits ·)).map Prod.fst
  /-- The unpaired receives are pending. -/
  recvs : s.recvs = ((numbered R).drop M.length).map fun x => x.1.recv x.2
  /-- The unpaired messages wait. -/
  unexpRecvs : s.unexpRecvs = M.drop R.length

section Grow

variable {R R' : List PostRecv} {M M' : List FabricMessage} {s t : State}

/-- A step that pairs nothing. -/
theorem PairedInOrder.wait (h : PairedInOrder R M s) (hpairing : pairing R' M' = pairing R M)
    (hmatches : t.matches = s.matches) (hprogress : t.progress = s.progress)
    (hdeleted : t.deleted = s.deleted)
    (hrecvs : t.recvs = ((numbered R').drop M'.length).map fun x => x.1.recv x.2)
    (hunexp : t.unexpRecvs = M'.drop R'.length) : PairedInOrder R' M' t := by
  refine ⟨?_, ?_, ?_, hrecvs, hunexp⟩
  · rw [hmatches, hpairing, h.pairs]
  · rw [hprogress, hpairing, h.progress]
  · rw [hdeleted, hpairing, h.deleted]

/-- A step that completes a pair, whichever side it comes from. -/
theorem PairedInOrder.finish (h : PairedInOrder R M s) {msg : FabricMessage} {p : PostRecv}
    {call : Nat} (hpairing : pairing R' M' = pairing R M ++ [(msg, p, call)])
    (hmatches : t.matches = s.matches ++ [⟨false, call, msg⟩])
    (hprogress : t.progress = s.progress ++ if fits p.size msg then [msg] else [])
    (hdeleted : t.deleted = s.deleted ++ if fits p.size msg then [] else [msg])
    (hrecvs : t.recvs = ((numbered R').drop M'.length).map fun x => x.1.recv x.2)
    (hunexp : t.unexpRecvs = M'.drop R'.length) : PairedInOrder R' M' t := by
  refine ⟨?_, ?_, ?_, hrecvs, hunexp⟩
  · rw [hmatches, hpairing, h.pairs, List.map_append]
    rfl
  · rw [hprogress, hpairing, h.progress, List.filter_append, List.map_append]
    cases hfit : fits p.size msg <;> simp [pairFits, hfit]
  · rw [hdeleted, hpairing, h.deleted, List.filter_append, List.map_append]
    cases hfit : fits p.size msg <;> simp [pairFits, hfit]

theorem PairedInOrder.post (h : PairedInOrder s.posts M s) {p : PostRecv} (ha : p.tagged = false)
    (hs : Step sumi s (.postRecv p) t) : PairedInOrder (s.posts ++ [p]) M t := by
  cases hs with
  | postTaggedEmpty p tagged empty => simp [tagged] at ha
  | postTaggedMatch p tagged pre msg post split even accepts live skipped => simp [tagged] at ha
  | postTaggedMiss p tagged nonempty even miss => simp [tagged] at ha
  | postUntaggedEmpty p untagged empty =>
      -- every message is paired, and the new receive waits
      have hnil : M.drop s.posts.length = [] := h.unexpRecvs.symm.trans empty
      have hdrop : M.drop (numbered s.posts).length = [] := by rwa [length_numbered]
      obtain ⟨hpairing, -⟩ := zip_snoc_right_of_nil (p, s.posts.length) hdrop
      refine h.wait ?_ rfl rfl rfl ?_ ?_
      · rw [pairing, numbered_snoc, hpairing, pairing]
      · rw [State.setRecvs_recvs, h.recvs, numbered_snoc, drop_snoc_of_nil _ hdrop,
          List.map_append]
        rfl
      · exact empty.trans (zip_snoc_right_of_nil p hnil).2.symm
  | postUntaggedMatch p untagged msg rest split live =>
      have hcons : M.drop s.posts.length = msg :: rest := h.unexpRecvs.symm.trans split
      have hdrop : M.drop (numbered s.posts).length = msg :: rest := by rwa [length_numbered]
      have hlt : s.posts.length < M.length := by
        have hlen := congrArg List.length hcons
        simp only [List.length_drop, List.length_cons] at hlen
        omega
      have hpairing : pairing (s.posts ++ [p]) M =
          pairing s.posts M ++ [(msg, p, s.posts.length)] := by
        rw [pairing, numbered_snoc]
        exact (zip_snoc_right_of_cons (p, s.posts.length) hdrop).1
      refine h.finish hpairing (by simp) (by simp) (by simp) ?_ ?_
      · -- a message was waiting, so no receive is pending
        rw [finish_recvs, State.setUnexpRecvs_recvs, recordPost_toRecvQueue, h.recvs,
          List.drop_eq_nil_of_le (by simp; omega), List.drop_eq_nil_of_le (by simp; omega)]
      · rw [finish_unexpRecvs]
        exact (zip_snoc_right_of_cons p hcons).2.symm

theorem PairedInOrder.arrive (h : PairedInOrder R M s) {msg : FabricMessage}
    (ha : msg.isUntaggedSend = true) (hs : Step sumi s (.incoming msg) t) :
    PairedInOrder R (M ++ [msg]) t := by
  have htagged : msg.isTaggedSend = false := isTaggedSend_of_isUntaggedSend ha
  cases hs with
  | incomingOther msg live other => simp [isPostedSend_of_isUntaggedSend ha] at other
  | incomingTaggedMatch msg live tagged pre r post split even accepts skipped =>
      simp [htagged] at tagged
  | incomingTaggedMiss msg live tagged even miss => simp [htagged] at tagged
  | incomingUntaggedEmpty msg live untagged empty =>
      have hdrop : (numbered R).drop M.length = [] := by
        rw [h.recvs] at empty
        exact List.map_eq_nil_iff.mp empty
      obtain ⟨hpairing, hrest⟩ := zip_snoc_left_of_nil msg hdrop
      refine h.wait hpairing rfl rfl rfl ?_ ?_
      · rw [hrest]
        exact empty
      · rw [State.setUnexpRecvs_unexpRecvs, h.unexpRecvs, ← length_numbered R,
          drop_snoc_of_nil msg hdrop]
  | incomingUntaggedMatch msg live untagged r rest split =>
      have hrecvs := h.recvs
      rw [split] at hrecvs
      obtain ⟨⟨p, call⟩, rest', hdrop, hr, hrest⟩ := List.map_eq_cons_iff.mp hrecvs.symm
      subst hr
      have hlt : M.length < R.length := by
        have hlen := congrArg List.length hdrop
        simp only [List.length_drop, List.length_cons, length_numbered] at hlen
        omega
      obtain ⟨hpairing, hafter⟩ := zip_snoc_left_of_cons msg hdrop
      refine h.finish hpairing ?_ ?_ ?_ ?_ ?_
      · rw [setRecvs_matches, finish_matches]
        rfl
      · rw [State.setRecvs_progress, finish_progress]
        rfl
      · rw [State.setRecvs_deleted, finish_deleted]
        rfl
      · rw [hafter]
        exact hrest.symm
      · -- a receive was pending, so no message waits
        rw [State.setRecvs_unexpRecvs, finish_unexpRecvs, h.unexpRecvs,
          List.drop_eq_nil_of_le (by omega), List.drop_eq_nil_of_le (by simp; omega)]

end Grow

/-! ## §3 — every untagged run pairs in order -/

theorem pairedInOrder_run {as : List Action} {s : State} (h : run (step sumi) {} as = .ok s) :
    (∀ a ∈ as, a.isUntagged = true) → PairedInOrder (posted as) (arrivals as) s := by
  refine run_induction (P := fun as s =>
    (∀ a ∈ as, a.isUntagged = true) → PairedInOrder (posted as) (arrivals as) s) ?_ ?_ h
  · intro _
    exact ⟨rfl, rfl, rfl, rfl, rfl⟩
  · intro as s a s' hrun ih hstep huntagged
    have hpaired := ih fun b hb => huntagged b (List.mem_append_left _ hb)
    have ha : a.isUntagged = true := huntagged a (by simp)
    have hposts := posts_run hrun
    cases a with
    | postRecv p =>
        rw [posted_snoc_postRecv, arrivals_snoc_postRecv, ← hposts]
        rw [← hposts] at hpaired
        exact hpaired.post (by simpa [Action.isUntagged] using ha) (step_inv hstep)
    | incoming msg =>
        rw [posted_snoc_incoming, arrivals_snoc_incoming]
        exact hpaired.arrive ha (step_inv hstep)

/-- The messages that were paired are the first ones that arrived. -/
theorem PairedInOrder.mem_take_of_deleted {R : List PostRecv} {M : List FabricMessage} {s : State}
    (h : PairedInOrder R M s) {m : FabricMessage} (hm : m ∈ s.deleted) : m ∈ M.take R.length := by
  rw [h.deleted] at hm
  obtain ⟨x, hx, rfl⟩ := List.mem_map.mp hm
  have hpair : x ∈ pairing R M := (List.mem_filter.mp hx).1
  obtain ⟨i, hi, rfl⟩ := List.mem_iff_getElem.mp hpair
  have hlen : i < M.length ∧ i < R.length := by
    simp only [pairing, List.length_zip, length_numbered] at hi
    omega
  simp only [pairing, List.getElem_zip]
  exact List.mem_take_iff_getElem.mpr ⟨i, by omega, rfl⟩

/-- Untagged traffic on distinct messages never meets a deleted message. -/
theorem PairedInOrder.exists_step {R : List PostRecv} {M : List FabricMessage} {s : State}
    {a : Action} (h : PairedInOrder R M s) (ha : a.isUntagged = true)
    (distinct : (M ++ arrivals [a]).Nodup) : ∃ s', step sumi s a = .ok s' := by
  cases a with
  | postRecv p =>
      have huntagged : p.tagged = false := by simpa [Action.isUntagged] using ha
      cases hunexp : s.unexpRecvs with
      | nil => exact ⟨_, (Step.postUntaggedEmpty p huntagged hunexp).step_eq⟩
      | cons msg rest =>
          have hlive : msg ∉ s.deleted := by
            intro hdel
            have hwait : msg ∈ M.drop R.length := by
              rw [← h.unexpRecvs, hunexp]
              exact List.mem_cons_self
            have hnodup : M.Nodup := (List.nodup_append.mp distinct).1
            exact List.disjoint_take_drop hnodup (Nat.le_refl _) (h.mem_take_of_deleted hdel) hwait
          exact ⟨_, (Step.postUntaggedMatch p huntagged msg rest hunexp hlive).step_eq⟩
  | incoming msg =>
      have hlive : msg ∉ s.deleted := by
        intro hdel
        have hold : msg ∈ M := List.mem_of_mem_take (h.mem_take_of_deleted hdel)
        exact (List.nodup_append.mp distinct).2.2 msg hold msg (by simp [arrivals]) rfl
      cases hrecvs : s.recvs with
      | nil => exact ⟨_, (Step.incomingUntaggedEmpty msg hlive ha hrecvs).step_eq⟩
      | cons r rest => exact ⟨_, (Step.incomingUntaggedMatch msg hlive ha r rest hrecvs).step_eq⟩

theorem exists_run_of_untagged (sumi : Sumi) (as : List Action) :
    (∀ a ∈ as, a.isUntagged = true) → (arrivals as).Nodup →
      ∃ s, run (step sumi) {} as = .ok s := by
  induction as using List.reverseRecOn with
  | nil =>
      intro _ _
      exact ⟨{}, rfl⟩
  | append_singleton as a ih =>
      intro huntagged distinct
      rw [arrivals_append] at distinct
      have huntagged' : ∀ b ∈ as, b.isUntagged = true := fun b hb =>
        huntagged b (List.mem_append_left _ hb)
      obtain ⟨s, hrun⟩ := ih huntagged' (List.nodup_append.mp distinct).1
      have hpaired := pairedInOrder_run hrun huntagged'
      obtain ⟨s', hstep⟩ := hpaired.exists_step (huntagged a (by simp)) distinct
      exact ⟨s', run_snoc_ok.mpr ⟨s, hrun, hstep⟩⟩

/-- **Untagged pairing is independent of timing.** Two runs of untagged traffic with the same posted
receives and the same arriving messages, interleaved in any two ways, form the same pairs — the i-th
message with the i-th receive — and end with the same progress queue, pending receives and waiting
messages.  On distinct messages both runs do return. -/
theorem untagged_pairing (sumi : Sumi) (R : List PostRecv) (M : List FabricMessage)
    (as bs : List Action)
    (has : ∀ a ∈ as, a.isUntagged = true) (hbs : ∀ b ∈ bs, b.isUntagged = true)
    (hasR : posted as = R) (hasM : arrivals as = M) (hbsR : posted bs = R) (hbsM : arrivals bs = M) :
    (M.Nodup → (∃ s, run (step sumi) {} as = .ok s) ∧ ∃ t, run (step sumi) {} bs = .ok t) ∧
      ∀ s t, run (step sumi) {} as = .ok s → run (step sumi) {} bs = .ok t →
        s.matches = t.matches ∧ PairedInOrder R M s ∧ PairedInOrder R M t := by
  subst hasR
  subst hasM
  refine ⟨?_, ?_⟩
  · intro distinct
    refine ⟨exists_run_of_untagged sumi as has distinct, ?_⟩
    exact exists_run_of_untagged sumi bs hbs (hbsM ▸ distinct)
  · intro s t hs ht
    have hpaired : PairedInOrder (posted as) (arrivals as) s := pairedInOrder_run hs has
    have hpaired' : PairedInOrder (posted as) (arrivals as) t := by
      rw [← hbsR, ← hbsM]
      exact pairedInOrder_run ht hbs
    exact ⟨hpaired.pairs.trans hpaired'.pairs.symm, hpaired, hpaired'⟩

/-- Two receives and two messages, the second message too long for its receive. -/
def earlyPosts : List Action :=
  [.postRecv (samplePost 16), .postRecv (samplePost 4), .incoming (sampleSend 0),
    .incoming (sampleSend 1)]

/-- The same traffic with the messages first. -/
def latePosts : List Action :=
  [.incoming (sampleSend 0), .incoming (sampleSend 1), .postRecv (samplePost 16),
    .postRecv (samplePost 4)]

theorem earlyPosts_latePosts_pairing :
    ∃ s t, run (step copyingSumi) {} earlyPosts = .ok s ∧
      run (step copyingSumi) {} latePosts = .ok t ∧ s.matches = t.matches :=
  ⟨_, _, rfl, rfl,
    ((untagged_pairing copyingSumi _ _ earlyPosts latePosts (by decide) (by decide) rfl rfl rfl
      rfl).2 _ _ rfl rfl).1⟩

end SstTransports.Fabric
