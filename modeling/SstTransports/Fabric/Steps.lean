/-
# SstTransports.Fabric.Steps — what one step of the receive queue can do.

`Step` lists the ten routes through `postRecv` and `incoming` that return, each with the guard it
passes and the state it leaves; `step_ok_iff` says that these are exactly the returning steps.  The
later modules do case analysis on `Step` and never unfold the operations.
-/
import SstTransports.Fabric.RecvQueue

namespace SstTransports.Fabric

open SstTransports.Lib

variable {sumi : Sumi}

/-! ## §1 — replacing one list -/

@[simps] def State.setRecvs (s : State) (recvs : List (Pending Recv)) : State :=
  { s with recvs := recvs }

@[simps] def State.setTaggedRecvs (s : State) (taggedRecvs : List (Pending TaggedRecv)) : State :=
  { s with taggedRecvs := taggedRecvs }

@[simps] def State.setUnexpRecvs (s : State) (unexpRecvs : List FabricMessage) : State :=
  { s with unexpRecvs := unexpRecvs }

@[simps] def State.setUnexpTaggedRecvs (s : State) (unexpTaggedRecvs : List FabricMessage) :
    State :=
  { s with unexpTaggedRecvs := unexpTaggedRecvs }

@[simp] theorem recordPost_toRecvQueue (s : State) (p : PostRecv) :
    (s.recordPost p).toRecvQueue = s.toRecvQueue := rfl

@[simp] theorem recordPost_deleted (s : State) (p : PostRecv) :
    (s.recordPost p).deleted = s.deleted := rfl

@[simp] theorem recordPost_posts (s : State) (p : PostRecv) :
    (s.recordPost p).posts = s.posts ++ [p] := rfl

@[simp] theorem recordPost_effects (s : State) (p : PostRecv) :
    (s.recordPost p).effects = s.effects := rfl

@[simp] theorem recordPost_localBuffers (s : State) (p : PostRecv) :
    (s.recordPost p).localBuffers = s.localBuffers := rfl

/-! ## §2 — `finishMatch`, field by field -/

section Finish

variable (s : State) (tagged : Bool) (call : Nat) (buf : Ptr) (size : BitVec 32)
  (msg : FabricMessage)

/-- The effects of `finishMatch`: the entry, the copy if both buffers are there, and either the
hand-over to the progress queue or the deletion. -/
def State.finishEffects : List Effect :=
  .finishMatch tagged call msg ::
    if fits size msg then
      (if s.copies buf msg then [.matchRecv msg buf] else []) ++ [.progressIncoming msg (some call)]
    else [.delete msg]

/-- `finishMatch` touches the progress queue, the message object and the record, and none of the
four lists. -/
theorem finish_eq :
    s.finish sumi tagged call buf size msg =
      { s with
        progress := s.progress ++ if fits size msg then [msg] else []
        deleted := s.deleted ++ if fits size msg then [] else [msg]
        localBuffers :=
          if fits size msg && s.copies buf msg then
            (msg, sumi.matchRecv (s.localBuffer msg) buf) :: s.localBuffers
          else s.localBuffers
        effects := s.effects ++ s.finishEffects tagged call buf size msg } := by
  have hcopies : (s.enterFinishMatch tagged call msg).copies buf msg = s.copies buf msg := rfl
  have hlocal : (s.enterFinishMatch tagged call msg).localBuffer msg = s.localBuffer msg := rfl
  unfold State.finish State.finishEffects
  simp only [hcopies]
  by_cases hfit : fits size msg = true
  · by_cases hcopy : s.copies buf msg = true
    · simp only [hfit, hcopy, if_true, State.matchRecv, hlocal, Bool.and_self]
      simp [State.progressIncoming, State.enterFinishMatch]
    · simp [hfit, hcopy, State.progressIncoming, State.enterFinishMatch]
  · simp [hfit, State.delete, State.enterFinishMatch]

@[simp] theorem finish_recvs : (s.finish sumi tagged call buf size msg).recvs = s.recvs := by
  rw [finish_eq]

@[simp] theorem finish_taggedRecvs :
    (s.finish sumi tagged call buf size msg).taggedRecvs = s.taggedRecvs := by
  rw [finish_eq]

@[simp] theorem finish_unexpRecvs :
    (s.finish sumi tagged call buf size msg).unexpRecvs = s.unexpRecvs := by
  rw [finish_eq]

@[simp] theorem finish_unexpTaggedRecvs :
    (s.finish sumi tagged call buf size msg).unexpTaggedRecvs = s.unexpTaggedRecvs := by
  rw [finish_eq]

@[simp] theorem finish_posts : (s.finish sumi tagged call buf size msg).posts = s.posts := by
  rw [finish_eq]

@[simp] theorem finish_progress :
    (s.finish sumi tagged call buf size msg).progress =
      s.progress ++ if fits size msg then [msg] else [] := by
  rw [finish_eq]

@[simp] theorem finish_deleted :
    (s.finish sumi tagged call buf size msg).deleted =
      s.deleted ++ if fits size msg then [] else [msg] := by
  rw [finish_eq]

@[simp] theorem finish_localBuffers :
    (s.finish sumi tagged call buf size msg).localBuffers =
      if fits size msg && s.copies buf msg then
        (msg, sumi.matchRecv (s.localBuffer msg) buf) :: s.localBuffers
      else s.localBuffers := by
  rw [finish_eq]

@[simp] theorem finish_effects :
    (s.finish sumi tagged call buf size msg).effects =
      s.effects ++ s.finishEffects tagged call buf size msg := by
  rw [finish_eq]

/-- One entry into `finishMatch`: the kind and call of the receive, and the message. -/
structure Match where
  tagged : Bool
  call : Nat
  msg : FabricMessage
  deriving DecidableEq, Repr

/-- The entries into `finishMatch` so far, in order. -/
def State.matches : List Match :=
  s.effects.filterMap fun
    | .finishMatch tagged call msg => some ⟨tagged, call, msg⟩
    | _ => none

@[simp] theorem finish_matches :
    (s.finish sumi tagged call buf size msg).matches = s.matches ++ [⟨tagged, call, msg⟩] := by
  simp only [State.matches, finish_effects, List.filterMap_append, State.finishEffects,
    List.filterMap_cons]
  split_ifs <;> rfl

end Finish

@[simp] theorem recordPost_matches (s : State) (p : PostRecv) :
    (s.recordPost p).matches = s.matches := rfl

@[simp] theorem setRecvs_matches (s : State) (l : List (Pending Recv)) :
    (s.setRecvs l).matches = s.matches := rfl

@[simp] theorem setTaggedRecvs_matches (s : State) (l : List (Pending TaggedRecv)) :
    (s.setTaggedRecvs l).matches = s.matches := rfl

@[simp] theorem setUnexpRecvs_matches (s : State) (l : List FabricMessage) :
    (s.setUnexpRecvs l).matches = s.matches := rfl

@[simp] theorem setUnexpTaggedRecvs_matches (s : State) (l : List FabricMessage) :
    (s.setUnexpTaggedRecvs l).matches = s.matches := rfl

@[simp] theorem progressIncoming_matches (s : State) (msg : FabricMessage) (call : Option Nat) :
    (s.progressIncoming msg call).matches = s.matches := by
  simp [State.matches]

/-! ## §3 — the tagged scans -/

theorem testTag_eq_ok {s : State} {msg : FabricMessage} {tag ignore : BitVec 64} {b : Bool} :
    s.testTag msg tag ignore = .ok b ↔ msg ∉ s.deleted ∧ matchesTag msg tag ignore = b := by
  unfold State.testTag
  split_ifs with h <;> simp [h]

/-- A tagged arrival's test of a pending receive. -/
def Pending.accepts (r : Pending TaggedRecv) (msg : FabricMessage) : Bool :=
  matchesTag msg r.node.tag r.node.tagIgnore

/-- A tagged post's test of an unexpected message. -/
def PostRecv.accepts (p : PostRecv) (msg : FabricMessage) : Bool :=
  matchesTag msg p.tag p.tagIgnore

@[simp] theorem taggedRecv_accepts (p : PostRecv) (call : Nat) (msg : FabricMessage) :
    (p.taggedRecv call).accepts msg = p.accepts msg := rfl

/-! ## §4 — the routes -/

/-- One returning step of the receive queue. -/
inductive Step (sumi : Sumi) (s : State) : Action → State → Prop
  /-- No unexpected tagged message: both `emplace_back` calls are made. -/
  | postTaggedEmpty (p : PostRecv) (tagged : p.tagged = true) (empty : s.unexpTaggedRecvs = []) :
      Step sumi s (.postRecv p)
        ((s.recordPost p).setTaggedRecvs
          (s.taggedRecvs ++ [p.taggedRecv s.posts.length, p.taggedRecv s.posts.length]))
  /-- The scan finds a message; the list it was found in stays as it is. -/
  | postTaggedMatch (p : PostRecv) (tagged : p.tagged = true)
      (pre : List FabricMessage) (msg : FabricMessage) (post : List FabricMessage)
      (split : s.unexpTaggedRecvs = pre ++ msg :: post) (even : Even pre.length)
      (accepts : p.accepts msg = true) (live : msg ∉ s.deleted)
      (skipped : ∀ m ∈ everyOther pre, m ∉ s.deleted ∧ p.accepts m = false) :
      Step sumi s (.postRecv p)
        ((s.recordPost p).finish sumi true s.posts.length p.buf p.size msg)
  /-- The scan of a non-empty list finds nothing. -/
  | postTaggedMiss (p : PostRecv) (tagged : p.tagged = true) (nonempty : s.unexpTaggedRecvs ≠ [])
      (even : Even s.unexpTaggedRecvs.length)
      (miss : ∀ m ∈ everyOther s.unexpTaggedRecvs, m ∉ s.deleted ∧ p.accepts m = false) :
      Step sumi s (.postRecv p)
        ((s.recordPost p).setTaggedRecvs (s.taggedRecvs ++ [p.taggedRecv s.posts.length]))
  | postUntaggedEmpty (p : PostRecv) (untagged : p.tagged = false) (empty : s.unexpRecvs = []) :
      Step sumi s (.postRecv p)
        ((s.recordPost p).setRecvs (s.recvs ++ [p.recv s.posts.length]))
  | postUntaggedMatch (p : PostRecv) (untagged : p.tagged = false)
      (msg : FabricMessage) (rest : List FabricMessage) (split : s.unexpRecvs = msg :: rest)
      (live : msg ∉ s.deleted) :
      Step sumi s (.postRecv p)
        (((s.recordPost p).setUnexpRecvs rest).finish sumi false s.posts.length p.buf p.size msg)
  | incomingOther (msg : FabricMessage) (live : msg ∉ s.deleted)
      (other : msg.isPostedSend = false) :
      Step sumi s (.incoming msg) (s.progressIncoming msg none)
  | incomingTaggedMatch (msg : FabricMessage) (live : msg ∉ s.deleted)
      (tagged : msg.isTaggedSend = true)
      (pre : List (Pending TaggedRecv)) (r : Pending TaggedRecv) (post : List (Pending TaggedRecv))
      (split : s.taggedRecvs = pre ++ r :: post) (even : Even pre.length)
      (accepts : r.accepts msg = true) (skipped : ∀ q ∈ everyOther pre, q.accepts msg = false) :
      Step sumi s (.incoming msg)
        ((s.finish sumi true r.call r.node.buf r.node.size msg).setTaggedRecvs (pre ++ post))
  | incomingTaggedMiss (msg : FabricMessage) (live : msg ∉ s.deleted)
      (tagged : msg.isTaggedSend = true) (even : Even s.taggedRecvs.length)
      (miss : ∀ q ∈ everyOther s.taggedRecvs, q.accepts msg = false) :
      Step sumi s (.incoming msg) (s.setUnexpTaggedRecvs (s.unexpTaggedRecvs ++ [msg]))
  | incomingUntaggedEmpty (msg : FabricMessage) (live : msg ∉ s.deleted)
      (untagged : msg.isUntaggedSend = true) (empty : s.recvs = []) :
      Step sumi s (.incoming msg) (s.setUnexpRecvs (s.unexpRecvs ++ [msg]))
  | incomingUntaggedMatch (msg : FabricMessage) (live : msg ∉ s.deleted)
      (untagged : msg.isUntaggedSend = true) (r : Pending Recv) (rest : List (Pending Recv))
      (split : s.recvs = r :: rest) :
      Step sumi s (.incoming msg)
        ((s.finish sumi false r.call r.node.buf r.node.size msg).setRecvs rest)

theorem finishMatch_eq_ok {s s' : State} {tagged : Bool} {call : Nat} {buf : Ptr}
    {size : BitVec 32} {msg : FabricMessage} :
    finishMatch sumi s tagged call buf size msg = .ok s' ↔
      msg ∉ s.deleted ∧ s' = s.finish sumi tagged call buf size msg := by
  unfold finishMatch
  split_ifs with h
  · simp [h]
  · simp [h, eq_comm]

theorem eraseIdx_middle {α : Type*} (pre : List α) (x : α) (post : List α) :
    (pre ++ x :: post).eraseIdx pre.length = pre ++ post := by
  rw [List.eraseIdx_append_of_length_le (Nat.le_refl _)]
  simp

theorem scanTaggedRecvs_eq_none {s : State} {msg : FabricMessage} (live : msg ∉ s.deleted) :
    s.scanTaggedRecvs msg = .ok none ↔
      Even s.taggedRecvs.length ∧ ∀ q ∈ everyOther s.taggedRecvs, q.accepts msg = false := by
  unfold State.scanTaggedRecvs
  rw [strideScan_ok_none]
  simp only [testTag_eq_ok, live, not_false_eq_true, true_and]
  rfl

theorem scanUnexpTaggedRecvs_eq_none {s : State} {p : PostRecv} :
    s.scanUnexpTaggedRecvs p.tag p.tagIgnore = .ok none ↔
      Even s.unexpTaggedRecvs.length ∧
        ∀ m ∈ everyOther s.unexpTaggedRecvs, m ∉ s.deleted ∧ p.accepts m = false := by
  unfold State.scanUnexpTaggedRecvs
  rw [strideScan_ok_none]
  simp only [testTag_eq_ok]
  rfl

theorem scanTaggedRecvs_of_split {s : State} {msg : FabricMessage}
    {pre post : List (Pending TaggedRecv)} {r : Pending TaggedRecv} (live : msg ∉ s.deleted)
    (split : s.taggedRecvs = pre ++ r :: post) (even : Even pre.length)
    (accepts : r.accepts msg = true) (skipped : ∀ q ∈ everyOther pre, q.accepts msg = false) :
    s.scanTaggedRecvs msg = .ok (some (pre.length, r)) := by
  unfold State.scanTaggedRecvs
  rw [split]
  exact strideScan_of_split even (testTag_eq_ok.mpr ⟨live, accepts⟩)
    fun q hq => testTag_eq_ok.mpr ⟨live, skipped q hq⟩

theorem scanUnexpTaggedRecvs_of_split {s : State} {p : PostRecv} {pre post : List FabricMessage}
    {msg : FabricMessage} (split : s.unexpTaggedRecvs = pre ++ msg :: post) (even : Even pre.length)
    (accepts : p.accepts msg = true) (live : msg ∉ s.deleted)
    (skipped : ∀ m ∈ everyOther pre, m ∉ s.deleted ∧ p.accepts m = false) :
    s.scanUnexpTaggedRecvs p.tag p.tagIgnore = .ok (some (pre.length, msg)) := by
  unfold State.scanUnexpTaggedRecvs
  rw [split]
  exact strideScan_of_split even (testTag_eq_ok.mpr ⟨live, accepts⟩)
    fun m hm => testTag_eq_ok.mpr (skipped m hm)

theorem matchTaggedRecv_of_none {s : State} {msg : FabricMessage}
    (h : s.scanTaggedRecvs msg = .ok none) :
    matchTaggedRecv sumi s msg =
      .ok (s.setUnexpTaggedRecvs (s.unexpTaggedRecvs ++ [msg])) := by
  simp only [matchTaggedRecv, h, bind, Except.bind, pure, Except.pure]
  rfl

theorem matchTaggedRecv_of_some {s : State} {msg : FabricMessage}
    {pre post : List (Pending TaggedRecv)} {r : Pending TaggedRecv} (live : msg ∉ s.deleted)
    (split : s.taggedRecvs = pre ++ r :: post)
    (h : s.scanTaggedRecvs msg = .ok (some (pre.length, r))) :
    matchTaggedRecv sumi s msg =
      .ok ((s.finish sumi true r.call r.node.buf r.node.size msg).setTaggedRecvs
        (pre ++ post)) := by
  have hfinish : finishMatch sumi s true r.call r.node.buf r.node.size msg =
      .ok (s.finish sumi true r.call r.node.buf r.node.size msg) :=
    finishMatch_eq_ok.mpr ⟨live, rfl⟩
  simp only [matchTaggedRecv, h, hfinish, bind, Except.bind, pure, Except.pure,
    finish_taggedRecvs, split, eraseIdx_middle]
  rfl

theorem postTaggedRecv_of_empty {s : State} {p : PostRecv} {call : Nat}
    (empty : s.unexpTaggedRecvs = []) :
    postTaggedRecv sumi s p call =
      .ok (s.setTaggedRecvs (s.taggedRecvs ++ [p.taggedRecv call, p.taggedRecv call])) := by
  have hempty : s.unexpTaggedRecvs.isEmpty = true := List.isEmpty_iff.mpr empty
  simp [postTaggedRecv, hempty, pure, Except.pure, State.setTaggedRecvs]

theorem postTaggedRecv_of_none {s : State} {p : PostRecv} {call : Nat}
    (nonempty : s.unexpTaggedRecvs ≠ []) (h : s.scanUnexpTaggedRecvs p.tag p.tagIgnore = .ok none) :
    postTaggedRecv sumi s p call =
      .ok (s.setTaggedRecvs (s.taggedRecvs ++ [p.taggedRecv call])) := by
  simp [postTaggedRecv, nonempty, h, bind, Except.bind, pure, Except.pure, State.setTaggedRecvs]

theorem postTaggedRecv_of_some {s : State} {p : PostRecv} {call k : Nat} {msg : FabricMessage}
    (nonempty : s.unexpTaggedRecvs ≠ []) (live : msg ∉ s.deleted)
    (h : s.scanUnexpTaggedRecvs p.tag p.tagIgnore = .ok (some (k, msg))) :
    postTaggedRecv sumi s p call = .ok (s.finish sumi true call p.buf p.size msg) := by
  have hfinish : finishMatch sumi s true call p.buf p.size msg =
      .ok (s.finish sumi true call p.buf p.size msg) :=
    finishMatch_eq_ok.mpr ⟨live, rfl⟩
  simp [postTaggedRecv, nonempty, h, hfinish, bind, Except.bind]

theorem postUntaggedRecv_of_nil {s : State} {p : PostRecv} {call : Nat}
    (empty : s.unexpRecvs = []) :
    postUntaggedRecv sumi s p call = .ok (s.setRecvs (s.recvs ++ [p.recv call])) := by
  unfold postUntaggedRecv
  split
  · rfl
  · simp_all

theorem postUntaggedRecv_of_cons {s : State} {p : PostRecv} {call : Nat} {msg : FabricMessage}
    {rest : List FabricMessage} (split : s.unexpRecvs = msg :: rest) (live : msg ∉ s.deleted) :
    postUntaggedRecv sumi s p call =
      .ok ((s.setUnexpRecvs rest).finish sumi false call p.buf p.size msg) := by
  have hfinish : finishMatch sumi (s.setUnexpRecvs rest) false call p.buf p.size msg = .ok _ :=
    finishMatch_eq_ok.mpr ⟨live, rfl⟩
  unfold postUntaggedRecv
  rw [split]
  exact hfinish

/-! ## §5 — the routes are exactly the returning steps -/

theorem matchTaggedRecv_step {s s' : State} {msg : FabricMessage} (live : msg ∉ s.deleted)
    (tagged : msg.isTaggedSend = true) (h : matchTaggedRecv sumi s msg = .ok s') :
    Step sumi s (.incoming msg) s' := by
  obtain ⟨found, hscan, -⟩ := bind_eq_ok.mp h
  cases found with
  | none =>
      rw [matchTaggedRecv_of_none hscan] at h
      cases h
      obtain ⟨heven, hmiss⟩ := (scanTaggedRecvs_eq_none live).mp hscan
      exact .incomingTaggedMiss msg live tagged heven hmiss
  | some found =>
      obtain ⟨k, r⟩ := found
      obtain ⟨pre, post, hsplit, rfl, heven, hr, hpre⟩ := split_of_strideScan hscan
      rw [matchTaggedRecv_of_some live hsplit hscan] at h
      cases h
      exact .incomingTaggedMatch msg live tagged pre r post hsplit heven
        (testTag_eq_ok.mp hr).2 fun q hq => (testTag_eq_ok.mp (hpre q hq)).2

theorem postTaggedRecv_step {s s' : State} {p : PostRecv} (tagged : p.tagged = true)
    (h : postTaggedRecv sumi (s.recordPost p) p s.posts.length = .ok s') :
    Step sumi s (.postRecv p) s' := by
  by_cases hempty : s.unexpTaggedRecvs = []
  · have hempty' : (s.recordPost p).unexpTaggedRecvs = [] := hempty
    rw [postTaggedRecv_of_empty hempty'] at h
    cases h
    exact .postTaggedEmpty p tagged hempty
  · have hempty' : (s.recordPost p).unexpTaggedRecvs ≠ [] := hempty
    cases hscan : (s.recordPost p).scanUnexpTaggedRecvs p.tag p.tagIgnore with
    | error e => simp [postTaggedRecv, hempty, hscan, bind, Except.bind] at h
    | ok found =>
        cases found with
        | none =>
            rw [postTaggedRecv_of_none hempty' hscan] at h
            cases h
            obtain ⟨heven, hmiss⟩ := scanUnexpTaggedRecvs_eq_none.mp hscan
            exact .postTaggedMiss p tagged hempty heven hmiss
        | some found =>
            obtain ⟨k, msg⟩ := found
            obtain ⟨pre, post, hsplit, rfl, heven, hmsg, hpre⟩ := split_of_strideScan hscan
            obtain ⟨hlive, haccepts⟩ := testTag_eq_ok.mp hmsg
            rw [postTaggedRecv_of_some hempty' hlive hscan] at h
            cases h
            exact .postTaggedMatch p tagged pre msg post hsplit heven haccepts hlive
              fun m hm => testTag_eq_ok.mp (hpre m hm)

theorem postUntaggedRecv_step {s s' : State} {p : PostRecv} (untagged : p.tagged = false)
    (h : postUntaggedRecv sumi (s.recordPost p) p s.posts.length = .ok s') :
    Step sumi s (.postRecv p) s' := by
  unfold postUntaggedRecv at h
  split at h
  · rename_i hunexp
    cases h
    exact .postUntaggedEmpty p untagged hunexp
  · rename_i msg rest hunexp
    obtain ⟨hlive, rfl⟩ := finishMatch_eq_ok.mp h
    exact .postUntaggedMatch p untagged msg rest hunexp hlive

theorem incoming_step {s s' : State} {msg : FabricMessage} (h : incoming sumi s msg = .ok s') :
    Step sumi s (.incoming msg) s' := by
  unfold incoming at h
  split_ifs at h with hdeleted hsend htagged
  · exact matchTaggedRecv_step hdeleted (by simp [FabricMessage.isTaggedSend, hsend, htagged]) h
  · have huntagged : msg.isUntaggedSend = true := by
      simp [FabricMessage.isUntaggedSend, hsend, htagged]
    split at h
    · rename_i hrecvs
      cases h
      exact .incomingUntaggedEmpty msg hdeleted huntagged hrecvs
    · rename_i r rest hrecvs
      have hfinish : finishMatch sumi s false r.call r.node.buf r.node.size msg =
          .ok (s.finish sumi false r.call r.node.buf r.node.size msg) :=
        finishMatch_eq_ok.mpr ⟨hdeleted, rfl⟩
      simp only [hfinish, bind, Except.bind, pure, Except.pure, finish_recvs, hrecvs,
        List.tail_cons] at h
      cases h
      exact .incomingUntaggedMatch msg hdeleted huntagged r rest hrecvs
  · cases h
    exact .incomingOther msg hdeleted (by simpa using hsend)

theorem step_inv {s s' : State} {a : Action} (h : step sumi s a = .ok s') : Step sumi s a s' := by
  cases a with
  | postRecv p =>
      simp only [step, postRecv] at h
      split_ifs at h with htagged
      · exact postTaggedRecv_step htagged h
      · exact postUntaggedRecv_step (by simpa using htagged) h
  | incoming msg => exact incoming_step h

theorem Step.step_eq {s s' : State} {a : Action} (h : Step sumi s a s') :
    step sumi s a = .ok s' := by
  cases h with
  | postTaggedEmpty p tagged empty =>
      have hempty : (s.recordPost p).unexpTaggedRecvs = [] := empty
      simp only [step, postRecv, tagged, if_true, postTaggedRecv_of_empty hempty]
      rfl
  | postTaggedMatch p tagged pre msg post split even accepts live skipped =>
      have hne : (s.recordPost p).unexpTaggedRecvs ≠ [] := by simp [split]
      have hscan : (s.recordPost p).scanUnexpTaggedRecvs p.tag p.tagIgnore =
          .ok (some (pre.length, msg)) :=
        scanUnexpTaggedRecvs_of_split split even accepts live skipped
      have hlive : msg ∉ (s.recordPost p).deleted := live
      simp only [step, postRecv, tagged, if_true, postTaggedRecv_of_some hne hlive hscan]
  | postTaggedMiss p tagged nonempty even miss =>
      have hne : (s.recordPost p).unexpTaggedRecvs ≠ [] := nonempty
      have hscan : (s.recordPost p).scanUnexpTaggedRecvs p.tag p.tagIgnore = .ok none :=
        scanUnexpTaggedRecvs_eq_none.mpr ⟨even, miss⟩
      simp only [step, postRecv, tagged, if_true, postTaggedRecv_of_none hne hscan]
      rfl
  | postUntaggedEmpty p untagged empty =>
      have hempty : (s.recordPost p).unexpRecvs = [] := empty
      simp only [step, postRecv, untagged, Bool.false_eq_true, if_false,
        postUntaggedRecv_of_nil hempty, recordPost_toRecvQueue]
  | postUntaggedMatch p untagged msg rest split live =>
      have hsplit : (s.recordPost p).unexpRecvs = msg :: rest := split
      have hlive : msg ∉ (s.recordPost p).deleted := live
      simp only [step, postRecv, untagged, Bool.false_eq_true, if_false,
        postUntaggedRecv_of_cons hsplit hlive]
  | incomingOther msg live other => simp [step, incoming, live, other]
  | incomingTaggedMatch msg live tagged pre r post split even accepts skipped =>
      obtain ⟨hsend, htagged⟩ : msg.isPostedSend = true ∧ msg.isTagged = true := by
        simpa [FabricMessage.isTaggedSend] using tagged
      have hscan : s.scanTaggedRecvs msg = .ok (some (pre.length, r)) :=
        scanTaggedRecvs_of_split live split even accepts skipped
      simp only [step, incoming, live, hsend, htagged, if_true, if_false,
        matchTaggedRecv_of_some live split hscan]
  | incomingTaggedMiss msg live tagged even miss =>
      obtain ⟨hsend, htagged⟩ : msg.isPostedSend = true ∧ msg.isTagged = true := by
        simpa [FabricMessage.isTaggedSend] using tagged
      have hscan : s.scanTaggedRecvs msg = .ok none :=
        (scanTaggedRecvs_eq_none live).mpr ⟨even, miss⟩
      simp only [step, incoming, live, hsend, htagged, if_true, if_false,
        matchTaggedRecv_of_none hscan]
  | incomingUntaggedEmpty msg live untagged empty =>
      obtain ⟨hsend, htagged⟩ : msg.isPostedSend = true ∧ msg.isTagged = false := by
        simpa [FabricMessage.isUntaggedSend] using untagged
      simp [step, incoming, live, hsend, htagged, empty, State.setUnexpRecvs]
  | incomingUntaggedMatch msg live untagged r rest split =>
      obtain ⟨hsend, htagged⟩ : msg.isPostedSend = true ∧ msg.isTagged = false := by
        simpa [FabricMessage.isUntaggedSend] using untagged
      have hfinish : finishMatch sumi s false r.call r.node.buf r.node.size msg = .ok _ :=
        finishMatch_eq_ok.mpr ⟨live, rfl⟩
      simp only [step, incoming, live, hsend, htagged, split, hfinish, bind, Except.bind, pure,
        Except.pure, finish_recvs, if_true, if_false, Bool.false_eq_true, List.tail_cons]
      rfl

/-- **The inversion of a step.** A step returns `s'` exactly along one of the ten routes. -/
theorem step_ok_iff {s s' : State} {a : Action} : step sumi s a = .ok s' ↔ Step sumi s a s' :=
  ⟨step_inv, Step.step_eq⟩

/-! ## §6 — which messages can be where -/

/-- The unexpected lists hold posted sends of their own kind, and only posted sends are deleted. -/
structure KindsOk (s : State) : Prop where
  unexp : ∀ m ∈ s.unexpRecvs, m.isUntaggedSend = true
  unexpTagged : ∀ m ∈ s.unexpTaggedRecvs, m.isTaggedSend = true
  deleted : ∀ m ∈ s.deleted, m.isPostedSend = true

theorem isPostedSend_of_isTaggedSend {m : FabricMessage} (h : m.isTaggedSend = true) :
    m.isPostedSend = true := by
  simp only [FabricMessage.isTaggedSend, Bool.and_eq_true] at h
  exact h.1

theorem isPostedSend_of_isUntaggedSend {m : FabricMessage} (h : m.isUntaggedSend = true) :
    m.isPostedSend = true := by
  simp only [FabricMessage.isUntaggedSend, Bool.and_eq_true] at h
  exact h.1

theorem isTagged_of_isTaggedSend {m : FabricMessage} (h : m.isTaggedSend = true) :
    m.isTagged = true := by
  simp only [FabricMessage.isTaggedSend, Bool.and_eq_true] at h
  exact h.2

theorem isTagged_of_isUntaggedSend {m : FabricMessage} (h : m.isUntaggedSend = true) :
    m.isTagged = false := by
  simp only [FabricMessage.isUntaggedSend, Bool.and_eq_true, Bool.not_eq_true'] at h
  exact h.2

theorem isTaggedSend_of_isUntaggedSend {m : FabricMessage} (h : m.isUntaggedSend = true) :
    m.isTaggedSend = false := by
  simp [FabricMessage.isTaggedSend, isTagged_of_isUntaggedSend h]

theorem isUntaggedSend_of_isTaggedSend {m : FabricMessage} (h : m.isTaggedSend = true) :
    m.isUntaggedSend = false := by
  simp [FabricMessage.isUntaggedSend, isTagged_of_isTaggedSend h]

theorem mem_finish_deleted {s : State} {tagged : Bool} {call : Nat} {buf : Ptr} {size : BitVec 32}
    {msg m : FabricMessage} (h : m ∈ (s.finish sumi tagged call buf size msg).deleted) :
    m ∈ s.deleted ∨ m = msg := by
  rw [finish_deleted, List.mem_append] at h
  rcases h with h | h
  · exact Or.inl h
  · split_ifs at h with hfit
    · simp at h
    · exact Or.inr (List.mem_singleton.mp h)

theorem KindsOk.finish {s : State} (h : KindsOk s) {tagged : Bool} {call : Nat} {buf : Ptr}
    {size : BitVec 32} {msg : FabricMessage} (hmsg : msg.isPostedSend = true) :
    KindsOk (s.finish sumi tagged call buf size msg) where
  unexp := by
    rw [finish_unexpRecvs]
    exact h.unexp
  unexpTagged := by
    rw [finish_unexpTaggedRecvs]
    exact h.unexpTagged
  deleted := by
    intro m hm
    rcases mem_finish_deleted hm with hm | rfl
    · exact h.deleted m hm
    · exact hmsg

theorem KindsOk.step {s s' : State} {a : Action} (h : KindsOk s) (hs : Step sumi s a s') :
    KindsOk s' := by
  cases hs with
  | postTaggedEmpty p tagged empty => exact ⟨h.unexp, h.unexpTagged, h.deleted⟩
  | postTaggedMatch p tagged pre msg post split even accepts live skipped =>
      have hmsg : msg.isTaggedSend = true := h.unexpTagged msg (by simp [split])
      have hs : KindsOk (s.recordPost p) := ⟨h.unexp, h.unexpTagged, h.deleted⟩
      exact hs.finish (isPostedSend_of_isTaggedSend hmsg)
  | postTaggedMiss p tagged nonempty even miss => exact ⟨h.unexp, h.unexpTagged, h.deleted⟩
  | postUntaggedEmpty p untagged empty => exact ⟨h.unexp, h.unexpTagged, h.deleted⟩
  | postUntaggedMatch p untagged msg rest split live =>
      have hunexp := h.unexp
      rw [split, List.forall_mem_cons] at hunexp
      have hs : KindsOk ((s.recordPost p).setUnexpRecvs rest) :=
        ⟨hunexp.2, h.unexpTagged, h.deleted⟩
      exact hs.finish (isPostedSend_of_isUntaggedSend hunexp.1)
  | incomingOther msg live other => exact ⟨h.unexp, h.unexpTagged, h.deleted⟩
  | incomingTaggedMatch msg live tagged pre r post split even accepts skipped =>
      have hs : KindsOk (s.finish sumi true r.call r.node.buf r.node.size msg) :=
        h.finish (isPostedSend_of_isTaggedSend tagged)
      exact ⟨hs.unexp, hs.unexpTagged, hs.deleted⟩
  | incomingTaggedMiss msg live tagged even miss =>
      refine ⟨h.unexp, ?_, h.deleted⟩
      intro m hm
      rcases List.mem_append.mp hm with hm | hm
      · exact h.unexpTagged m hm
      · rw [List.mem_singleton.mp hm]
        exact tagged
  | incomingUntaggedEmpty msg live untagged empty =>
      refine ⟨?_, h.unexpTagged, h.deleted⟩
      intro m hm
      rcases List.mem_append.mp hm with hm | hm
      · exact h.unexp m hm
      · rw [List.mem_singleton.mp hm]
        exact untagged
  | incomingUntaggedMatch msg live untagged r rest split =>
      have hs : KindsOk (s.finish sumi false r.call r.node.buf r.node.size msg) :=
        h.finish (isPostedSend_of_isUntaggedSend untagged)
      exact ⟨hs.unexp, hs.unexpTagged, hs.deleted⟩

theorem kindsOk_empty : KindsOk {} := ⟨by simp, by simp, by simp⟩

theorem kindsOk_run {as : List Action} {s : State} (h : run (step sumi) {} as = .ok s) :
    KindsOk s := by
  refine run_induction (P := fun _ s => KindsOk s) kindsOk_empty ?_ h
  intro as s a s' _ hs hstep
  exact hs.step (step_inv hstep)

/-! ## §7 — what a step leaves alone -/

/-- Tagged posts and arrivals of tagged posted sends. -/
def Action.isTagged : Action → Bool
  | .postRecv p => p.tagged
  | .incoming msg => msg.isTaggedSend

/-- Untagged posts and arrivals of untagged posted sends. -/
def Action.isUntagged : Action → Bool
  | .postRecv p => !p.tagged
  | .incoming msg => msg.isUntaggedSend

theorem isUntagged_of_isTagged {a : Action} (h : a.isTagged = true) : a.isUntagged = false := by
  cases a with
  | postRecv p => simpa [Action.isTagged, Action.isUntagged] using h
  | incoming msg => exact isUntaggedSend_of_isTaggedSend h

theorem isTagged_of_isUntagged {a : Action} (h : a.isUntagged = true) : a.isTagged = false := by
  by_contra htagged
  rw [isUntagged_of_isTagged (by simpa using htagged)] at h
  cases h

/-- Only tagged traffic moves the tagged lists. -/
theorem Step.tagged_frame {s s' : State} {a : Action} (hs : Step sumi s a s')
    (ha : a.isTagged = false) :
    s'.taggedRecvs = s.taggedRecvs ∧ s'.unexpTaggedRecvs = s.unexpTaggedRecvs := by
  cases hs with
  | postTaggedEmpty p tagged empty => simp [Action.isTagged, tagged] at ha
  | postTaggedMatch p tagged pre msg post split even accepts live skipped =>
      simp [Action.isTagged, tagged] at ha
  | postTaggedMiss p tagged nonempty even miss => simp [Action.isTagged, tagged] at ha
  | postUntaggedEmpty p untagged empty => exact ⟨rfl, rfl⟩
  | postUntaggedMatch p untagged msg rest split live => simp
  | incomingOther msg live other => exact ⟨rfl, rfl⟩
  | incomingTaggedMatch msg live tagged pre r post split even accepts skipped =>
      simp [Action.isTagged, tagged] at ha
  | incomingTaggedMiss msg live tagged even miss => simp [Action.isTagged, tagged] at ha
  | incomingUntaggedEmpty msg live untagged empty => exact ⟨rfl, rfl⟩
  | incomingUntaggedMatch msg live untagged r rest split => simp

/-- Only untagged traffic moves the untagged lists. -/
theorem Step.untagged_frame {s s' : State} {a : Action} (hs : Step sumi s a s')
    (ha : a.isUntagged = false) : s'.recvs = s.recvs ∧ s'.unexpRecvs = s.unexpRecvs := by
  cases hs with
  | postTaggedEmpty p tagged empty => exact ⟨rfl, rfl⟩
  | postTaggedMatch p tagged pre msg post split even accepts live skipped => simp
  | postTaggedMiss p tagged nonempty even miss => exact ⟨rfl, rfl⟩
  | postUntaggedEmpty p untagged empty => simp [Action.isUntagged, untagged] at ha
  | postUntaggedMatch p untagged msg rest split live => simp [Action.isUntagged, untagged] at ha
  | incomingOther msg live other => exact ⟨rfl, rfl⟩
  | incomingTaggedMatch msg live tagged pre r post split even accepts skipped => simp
  | incomingTaggedMiss msg live tagged even miss => exact ⟨rfl, rfl⟩
  | incomingUntaggedEmpty msg live untagged empty => simp [Action.isUntagged, untagged] at ha
  | incomingUntaggedMatch msg live untagged r rest split =>
      simp [Action.isUntagged, untagged] at ha

/-- `finishMatch` hands over or deletes its message. -/
theorem finish_appends (s : State) (tagged : Bool) (call : Nat) (buf : Ptr) (size : BitVec 32)
    (msg : FabricMessage) :
    ∃ handed gone, (s.finish sumi tagged call buf size msg).progress = s.progress ++ handed ∧
      (s.finish sumi tagged call buf size msg).deleted = s.deleted ++ gone ∧
      ∀ m ∈ handed ++ gone, m = msg := by
  refine ⟨_, _, finish_progress s tagged call buf size msg,
    finish_deleted s tagged call buf size msg, ?_⟩
  split_ifs <;> simp

/-- A step hands over and deletes only messages of its own kind of traffic. -/
theorem Step.appends {s s' : State} {a : Action} (hs : Step sumi s a s') (hk : KindsOk s) :
    ∃ handed gone, s'.progress = s.progress ++ handed ∧ s'.deleted = s.deleted ++ gone ∧
      ∀ m ∈ handed ++ gone, m.isTaggedSend = a.isTagged ∧ m.isUntaggedSend = a.isUntagged := by
  have hquiet : ∃ handed gone, s.progress = s.progress ++ handed ∧
      s.deleted = s.deleted ++ gone ∧ ∀ m ∈ handed ++ gone,
        m.isTaggedSend = a.isTagged ∧ m.isUntaggedSend = a.isUntagged :=
    ⟨[], [], by simp, by simp, by simp⟩
  have htaggedMsg : ∀ msg : FabricMessage, msg.isTaggedSend = true → a.isTagged = true →
      msg.isTaggedSend = a.isTagged ∧ msg.isUntaggedSend = a.isUntagged := by
    intro msg hmsg ha
    exact ⟨hmsg.trans ha.symm,
      (isUntaggedSend_of_isTaggedSend hmsg).trans (isUntagged_of_isTagged ha).symm⟩
  have huntaggedMsg : ∀ msg : FabricMessage, msg.isUntaggedSend = true → a.isUntagged = true →
      msg.isTaggedSend = a.isTagged ∧ msg.isUntaggedSend = a.isUntagged := by
    intro msg hmsg ha
    exact ⟨(isTaggedSend_of_isUntaggedSend hmsg).trans (isTagged_of_isUntagged ha).symm,
      hmsg.trans ha.symm⟩
  cases hs with
  | postTaggedEmpty p tagged empty => exact hquiet
  | postTaggedMatch p tagged pre msg post split even accepts live skipped =>
      obtain ⟨handed, gone, hprogress, hdeleted, hmsg⟩ :=
        finish_appends (s.recordPost p) true s.posts.length p.buf p.size msg
      refine ⟨handed, gone, hprogress, hdeleted, fun m hm => ?_⟩
      rw [hmsg m hm]
      exact htaggedMsg msg (hk.unexpTagged msg (by simp [split])) tagged
  | postTaggedMiss p tagged nonempty even miss => exact hquiet
  | postUntaggedEmpty p untagged empty => exact hquiet
  | postUntaggedMatch p untagged msg rest split live =>
      obtain ⟨handed, gone, hprogress, hdeleted, hmsg⟩ :=
        finish_appends ((s.recordPost p).setUnexpRecvs rest) false s.posts.length p.buf p.size msg
      refine ⟨handed, gone, hprogress, hdeleted, fun m hm => ?_⟩
      rw [hmsg m hm]
      exact huntaggedMsg msg (hk.unexp msg (by simp [split])) (by simp [Action.isUntagged, untagged])
  | incomingOther msg live other =>
      refine ⟨[msg], [], rfl, by simp, fun m hm => ?_⟩
      obtain rfl : m = msg := by simpa using hm
      exact ⟨rfl, rfl⟩
  | incomingTaggedMatch msg live tagged pre r post split even accepts skipped =>
      obtain ⟨handed, gone, hprogress, hdeleted, hmsg⟩ :=
        finish_appends s true r.call r.node.buf r.node.size msg
      refine ⟨handed, gone, hprogress, hdeleted, fun m hm => ?_⟩
      rw [hmsg m hm]
      exact ⟨rfl, rfl⟩
  | incomingTaggedMiss msg live tagged even miss => exact hquiet
  | incomingUntaggedEmpty msg live untagged empty => exact hquiet
  | incomingUntaggedMatch msg live untagged r rest split =>
      obtain ⟨handed, gone, hprogress, hdeleted, hmsg⟩ :=
        finish_appends s false r.call r.node.buf r.node.size msg
      refine ⟨handed, gone, hprogress, hdeleted, fun m hm => ?_⟩
      rw [hmsg m hm]
      exact ⟨rfl, rfl⟩

/-! ## §8 — the record of the calls -/

theorem posts_step {s s' : State} {a : Action} (hs : Step sumi s a s') :
    s'.posts = s.posts ++ posted [a] := by
  cases hs <;> simp [posted]

/-- The run records the `postRecv` calls it makes. -/
theorem posts_run {as : List Action} {s : State} (h : run (step sumi) {} as = .ok s) :
    s.posts = posted as := by
  refine run_induction (P := fun as s => s.posts = posted as) rfl ?_ h
  intro as s a s' _ hs hstep
  rw [posts_step (step_inv hstep), hs]
  simp [posted]

end SstTransports.Fabric
