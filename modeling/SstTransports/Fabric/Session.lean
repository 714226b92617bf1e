/-
# SstTransports.Fabric.Session — receives, arrivals and completion reads on one endpoint.

A session is an endpoint's receive side: `sstmac_ep_recv` and `sstmac_ep_trecv` post receives,
messages arrive, and `sstmac_cq_read` reads completions.  A receive is posted with a context pointer,
by which the application is to recognise its completion.

The context does not travel: `sstmaci_ep_recv` drops it, the pending nodes have no field for it, and
the entry reports the context the *sender* passed.  `completions_identify` says when the entries
identify the receives all the same, and what they report in any case.
-/
import SstTransports.Fabric.Provenance
import SstTransports.Fabric.Endpoint

namespace SstTransports.Fabric

open SstTransports.Lib

/-! ## §1 — posting a receive -/

/-- `FI_ADDR_UNSPEC` -/
def fiAddrUnspec : FiAddr := BitVec.allOnes 64

/-- `sstmaci_ep_recv` on an endpoint whose `recv_cq` has the queue `rq`.  The length is narrowed to
the 32 bits of `postRecv`'s `size`; the context is not used. -/
def sstmaciEpRecv (sumi : Sumi) (rq : State) (buf : Ptr) (len : BitVec 64) (srcAddr : FiAddr)
    (_context : Ptr) (tag tagIgnore flags : BitVec 64) : Except Fault (Int × State) :=
  if srcAddr ≠ fiAddrUnspec then .ok (-fiEinval, rq)
  else do
    let rq ← postRecv sumi rq ⟨len.setWidth 32, buf, tag, tagIgnore, hasFlag flags fiTagged⟩
    return (0, rq)

/-- `sstmac_ep_recv` -/
def sstmacEpRecv (sumi : Sumi) (rq : State) (buf : Ptr) (len : BitVec 64) (srcAddr : FiAddr)
    (context : Ptr) : Except Fault (Int × State) :=
  sstmaciEpRecv sumi rq buf len srcAddr context 0 (~~~0) 0

/-- `sstmac_ep_trecv` -/
def sstmacEpTrecv (sumi : Sumi) (rq : State) (buf : Ptr) (len : BitVec 64) (srcAddr : FiAddr)
    (tag ignore : BitVec 64) (context : Ptr) : Except Fault (Int × State) :=
  sstmaciEpRecv sumi rq buf len srcAddr context tag ignore fiTagged

/-! ## §2 — sessions -/

/-- The queue, and the record of the session: the contexts of the posted receives by call, and what
the reads have returned. -/
structure Session where
  queue : State := {}
  contexts : List Ptr := []
  entries : List (Option CqEntry) := []
  deriving DecidableEq, Repr

inductive SessionAction
  | recv (buf : Ptr) (len : BitVec 64) (srcAddr : FiAddr) (context : Ptr)
  | trecv (buf : Ptr) (len : BitVec 64) (srcAddr : FiAddr) (tag ignore : BitVec 64) (context : Ptr)
  | incoming (msg : FabricMessage)
  | cqRead (count : Nat)
  deriving DecidableEq, Repr

def sessionStep (sumi : Sumi) (format : CqFormat) (s : Session) :
    SessionAction → Except Fault Session
  | .recv buf len srcAddr context => do
    let (ret, queue) ← sstmacEpRecv sumi s.queue buf len srcAddr context
    return ⟨queue, if ret = 0 then s.contexts ++ [context] else s.contexts, s.entries⟩
  | .trecv buf len srcAddr tag ignore context => do
    let (ret, queue) ← sstmacEpTrecv sumi s.queue buf len srcAddr tag ignore context
    return ⟨queue, if ret = 0 then s.contexts ++ [context] else s.contexts, s.entries⟩
  | .incoming msg => do
    let queue ← incoming sumi s.queue msg
    return ⟨queue, s.contexts, s.entries⟩
  | .cqRead count => do
    let r ← sstmacCqRead format s.queue count
    return ⟨r.queue, s.contexts, s.entries ++ r.entries⟩

/-- What an action asks of the queue, if it asks anything. -/
def SessionAction.action : SessionAction → Option Action
  | .recv buf len srcAddr _ =>
    if srcAddr = fiAddrUnspec then some (.postRecv ⟨len.setWidth 32, buf, 0, ~~~0, false⟩) else none
  | .trecv buf len srcAddr tag ignore _ =>
    if srcAddr = fiAddrUnspec then some (.postRecv ⟨len.setWidth 32, buf, tag, ignore, true⟩)
    else none
  | .incoming msg => some (.incoming msg)
  | .cqRead _ => none

/-- The context an action passes with a receive. -/
def SessionAction.context : SessionAction → Option Ptr
  | .recv _ _ _ context => some context
  | .trecv _ _ _ _ _ context => some context
  | .incoming _ => none
  | .cqRead _ => none

/-- The context of the receive an action posts. -/
def SessionAction.postedContext (b : SessionAction) : List Ptr :=
  match b.action with
  | some (.postRecv _) => b.context.toList
  | _ => []

/-- The contexts passed in a session. -/
def contextsOf (bs : List SessionAction) : List Ptr := bs.filterMap (·.context)

/-- The messages handed to the progress queue in order, each with the receive it was matched
with. -/
def State.handOffs (s : State) : List (FabricMessage × Option Nat) :=
  s.effects.filterMap fun
    | .progressIncoming msg call => some (msg, call)
    | _ => none

/-! ## §3 — one step of a session -/

variable {sumi : Sumi} {format : CqFormat}

/-- A receive is posted, or refused for its source address. -/
theorem sstmaciEpRecv_ok {rq rq' : State} {buf : Ptr} {len : BitVec 64} {srcAddr : FiAddr}
    {context : Ptr} {tag tagIgnore flags : BitVec 64} {ret : Int}
    (h : sstmaciEpRecv sumi rq buf len srcAddr context tag tagIgnore flags = .ok (ret, rq')) :
    (srcAddr = fiAddrUnspec ∧ ret = 0 ∧
      step sumi rq (.postRecv ⟨len.setWidth 32, buf, tag, tagIgnore, hasFlag flags fiTagged⟩) =
        .ok rq') ∨
    (srcAddr ≠ fiAddrUnspec ∧ ret = -fiEinval ∧ rq' = rq) := by
  unfold sstmaciEpRecv at h
  by_cases hsrc : srcAddr = fiAddrUnspec
  · rw [if_neg (not_not.mpr hsrc)] at h
    obtain ⟨queue, hpost, hret⟩ := bind_eq_ok.mp h
    cases hret
    exact Or.inl ⟨hsrc, rfl, hpost⟩
  · rw [if_pos hsrc] at h
    cases h
    exact Or.inr ⟨hsrc, rfl, rfl⟩

/-- What a step of a session does: it takes a step of the queue, or it reads (a refused receive
counts as reading nothing). -/
inductive SessionStep (sumi : Sumi) (format : CqFormat) (s : Session) (b : SessionAction)
    (s' : Session) : Prop
  | queue (a : Action) (action : b.action = some a) (step : Step sumi s.queue a s'.queue)
      (contexts : s'.contexts = s.contexts ++ b.postedContext) (entries : s'.entries = s.entries)
  | read (taken : List FabricMessage) (progress : s.queue.progress = taken ++ s'.queue.progress)
      (queue : s'.queue = { s.queue with progress := s'.queue.progress })
      (contexts : s'.contexts = s.contexts)
      (entries : s'.entries = s.entries ++
        taken.map fun m => sstmaciFillCqEntry format (s.queue.localBuffer m) m)

theorem sessionStep_inv {s s' : Session} {b : SessionAction}
    (h : sessionStep sumi format s b = .ok s') : SessionStep sumi format s b s' := by
  cases b with
  | recv buf len srcAddr context =>
      obtain ⟨⟨ret, queue⟩, hrecv, hret⟩ := bind_eq_ok.mp h
      cases hret
      rcases sstmaciEpRecv_ok hrecv with ⟨hsrc, rfl, hstep⟩ | ⟨hsrc, rfl, rfl⟩
      · refine .queue _ (if_pos hsrc) (step_inv hstep) ?_ rfl
        simp [SessionAction.postedContext, SessionAction.action, SessionAction.context, hsrc]
      · exact .read [] rfl rfl rfl (by simp)
  | trecv buf len srcAddr tag ignore context =>
      obtain ⟨⟨ret, queue⟩, hrecv, hret⟩ := bind_eq_ok.mp h
      cases hret
      rcases sstmaciEpRecv_ok hrecv with ⟨hsrc, rfl, hstep⟩ | ⟨hsrc, rfl, rfl⟩
      · refine .queue _ (if_pos hsrc) (step_inv hstep) ?_ rfl
        simp [SessionAction.postedContext, SessionAction.action, SessionAction.context, hsrc]
      · exact .read [] rfl rfl rfl (by simp)
  | incoming msg =>
      obtain ⟨queue, hin, hret⟩ := bind_eq_ok.mp h
      cases hret
      refine .queue (.incoming msg) rfl (step_inv hin) ?_ rfl
      simp [SessionAction.postedContext, SessionAction.action]
  | cqRead count =>
      obtain ⟨r, hread, hret⟩ := bind_eq_ok.mp h
      cases hret
      obtain ⟨taken, hsplit, hqueue, hentries, -⟩ := cqReadLoop_ok hread
      exact .read taken hsplit hqueue rfl (by rw [hentries])

/-! ## §4 — completions -/

/-- The formats whose entries report a buffer. -/
def CqFormat.hasBuf : CqFormat → Bool
  | .data => true
  | .tagged => true
  | _ => false

/-- Every entry read for a message that was matched with a receive has the receive's context, and,
where it reports a buffer, the receive's buffer and the message's length. -/
def Identifies (s : Session) : Prop :=
  ∀ (k : Nat) (entry : CqEntry) (m : FabricMessage) (call : Nat),
    s.entries[k]? = some (some entry) → s.queue.handOffs[k]? = some (m, some call) →
    s.contexts[call]? = some entry.opContext ∧
      ∀ x, entry.bufLen = some x →
        ∃ p : PostRecv, s.queue.posts[call]? = some p ∧ x = (p.buf, m.byteLength)

/-- If the action is about to match a message that fits, the sender passed the context of the
receive, and, where entries report a buffer, the receive's buffer and the message's local buffer are
both there or both absent. -/
def ContextsAgree (format : CqFormat) (s : Session) (b : SessionAction) : Prop :=
  ∀ a ∈ b.action, ∀ c ∈ s.queue.nextMatch a, fits c.size c.msg = true →
    (s.contexts ++ b.postedContext)[c.call]? = some c.msg.context ∧
      (format.hasBuf = true → (c.buf = nullptr ↔ s.queue.localBuffer c.msg = nullptr))

instance (format : CqFormat) (s : Session) (b : SessionAction) :
    Decidable (ContextsAgree format s b) := by
  unfold ContextsAgree
  infer_instance

/-- What holds of a session whatever its contexts are. -/
structure SessionOk (format : CqFormat) (bs : List SessionAction) (s : Session) : Prop where
  kinds : KindsOk s.queue
  provenance : Provenance s.queue
  contexts : s.contexts.Sublist (contextsOf bs)
  calls : s.contexts.length = s.queue.posts.length
  /-- The entries are those of the first messages handed over, and the others wait. -/
  fifo : ∃ read, s.queue.handOffs.map Prod.fst = read ++ s.queue.progress ∧
    List.Forall₂ (fun e m => ∃ localBuffer, e = sstmaciFillCqEntry format localBuffer m) s.entries
      read

section HandOffs

variable {s s' : State} {a : Action}

/-- The hand-over a match makes. -/
theorem handOffs_finishEffects (tagged : Bool) (call : Nat) (buf : Ptr) (size : BitVec 32)
    (msg : FabricMessage)
    (effects : s'.effects = s.effects ++ s.finishEffects tagged call buf size msg) :
    s'.handOffs = s.handOffs ++ if fits size msg then [(msg, some call)] else [] := by
  rw [State.handOffs, effects, List.filterMap_append, State.handOffs, State.finishEffects]
  split_ifs <;> rfl

/-- A step hands over what it appends to the progress queue. -/
theorem handOffs_progress (h : Outcome sumi s a s') :
    ∃ new, s'.handOffs = s.handOffs ++ new ∧ s'.progress = s.progress ++ new.map Prod.fst := by
  cases h with
  | quiet progress localBuffers effects =>
      refine ⟨[], ?_, by simpa using progress⟩
      rw [State.handOffs, effects, List.append_nil]
      rfl
  | passed msg other progress localBuffers effects =>
      refine ⟨[(msg, none)], ?_, progress⟩
      rw [State.handOffs, effects, List.filterMap_append]
      rfl
  | matched call p msg next receives progress localBuffers effects =>
      refine ⟨if fits p.size msg then [(msg, some call)] else [],
        handOffs_finishEffects _ _ _ _ _ effects, ?_⟩
      rw [progress]
      split_ifs <;> rfl

end HandOffs

theorem postedContext_length {b : SessionAction} {a : Action} (h : b.action = some a) :
    b.postedContext.length = (posted [a]).length := by
  cases b with
  | recv buf len srcAddr context =>
      by_cases hsrc : srcAddr = fiAddrUnspec
      · simp only [SessionAction.action, hsrc, if_true, Option.some.injEq] at h
        subst h
        simp [SessionAction.postedContext, SessionAction.action, SessionAction.context, hsrc, posted]
      · simp [SessionAction.action, hsrc] at h
  | trecv buf len srcAddr tag ignore context =>
      by_cases hsrc : srcAddr = fiAddrUnspec
      · simp only [SessionAction.action, hsrc, if_true, Option.some.injEq] at h
        subst h
        simp [SessionAction.postedContext, SessionAction.action, SessionAction.context, hsrc, posted]
      · simp [SessionAction.action, hsrc] at h
  | incoming msg =>
      cases h
      rfl
  | cqRead count => cases h

theorem postedContext_sublist (b : SessionAction) :
    b.postedContext.Sublist b.context.toList := by
  unfold SessionAction.postedContext
  split
  · exact List.Sublist.refl _
  · exact List.nil_sublist _

theorem contextsOf_snoc (bs : List SessionAction) (b : SessionAction) :
    contextsOf (bs ++ [b]) = contextsOf bs ++ b.context.toList := by
  rw [contextsOf, List.filterMap_append, contextsOf]
  cases b <;> rfl

theorem SessionOk.step {bs : List SessionAction} {s s' : Session} {b : SessionAction}
    (h : SessionOk format bs s) (hs : SessionStep sumi format s b s') :
    SessionOk format (bs ++ [b]) s' := by
  have hgrow : (contextsOf bs).Sublist (contextsOf (bs ++ [b])) := by
    rw [contextsOf_snoc]
    exact List.sublist_append_left _ _
  obtain ⟨read, hfifo, hentries⟩ := h.fifo
  cases hs with
  | queue a action step contexts entries =>
      obtain ⟨new, hnew, hprogress⟩ := handOffs_progress (h.provenance.outcome h.kinds step)
      refine ⟨h.kinds.step step, h.provenance.step h.kinds step, ?_, ?_, read, ?_, ?_⟩
      · rw [contexts, contextsOf_snoc]
        exact h.contexts.append (postedContext_sublist b)
      · rw [contexts, posts_step step, List.length_append, List.length_append, h.calls,
          postedContext_length action]
      · rw [hnew, List.map_append, hfifo, hprogress, List.append_assoc]
      · rw [entries]
        exact hentries
  | read taken progress queue contexts entries =>
      have hkinds : KindsOk s'.queue := by
        rw [queue]
        exact ⟨h.kinds.unexp, h.kinds.unexpTagged, h.kinds.deleted⟩
      have hprovenance : Provenance s'.queue := by
        rw [queue]
        exact ⟨h.provenance.recvs, h.provenance.taggedRecvs, h.provenance.matched⟩
      have hhandOffs : s'.queue.handOffs = s.queue.handOffs := by
        rw [queue]
        rfl
      have hposts : s'.queue.posts = s.queue.posts := by rw [queue]
      refine ⟨hkinds, hprovenance, ?_, ?_, read ++ taken, ?_, ?_⟩
      · rw [contexts]
        exact h.contexts.trans hgrow
      · rw [contexts, hposts]
        exact h.calls
      · rw [hhandOffs, hfifo, progress, List.append_assoc]
      · rw [entries]
        refine List.rel_append hentries ?_
        rw [List.forall₂_map_left_iff, List.forall₂_same]
        exact fun m _ => ⟨_, rfl⟩

theorem sessionOk_run {bs : List SessionAction} {s : Session}
    (h : run (sessionStep sumi format) {} bs = .ok s) : SessionOk format bs s := by
  refine run_induction (P := fun bs s => SessionOk format bs s) ?_ ?_ h
  · have hempty : run (Fabric.step sumi) {} [] = .ok {} := rfl
    exact ⟨kindsOk_empty, provenance_run hempty, List.Sublist.refl _, rfl, [], rfl, .nil⟩
  · intro bs s b s' _ hok hstep
    exact hok.step (sessionStep_inv hstep)

/-! ## §5 — when the entries identify the receives -/

/-- What the condition keeps: every message matched so far carries the context of its receive and,
where entries report a buffer, has the receive's buffer; and so do the entries read. -/
structure Agreement (format : CqFormat) (s : Session) : Prop where
  contexts : ∀ m call, (m, some call) ∈ s.queue.handOffs → s.contexts[call]? = some m.context
  buffers : format.hasBuf = true → ∀ m call, (m, some call) ∈ s.queue.handOffs →
    ∃ p, s.queue.posts[call]? = some p ∧ s.queue.localBuffer m = p.buf
  identifies : Identifies s

theorem localBuffer_congr {s s' : State} (h : s'.localBuffers = s.localBuffers)
    (m : FabricMessage) : s'.localBuffer m = s.localBuffer m := by
  rw [State.localBuffer, h, State.localBuffer]

theorem localBuffer_cons {s s' : State} {msg : FabricMessage} {buf : Ptr}
    (h : s'.localBuffers = (msg, buf) :: s.localBuffers) (m : FabricMessage) :
    s'.localBuffer m = if m = msg then buf else s.localBuffer m := by
  rw [State.localBuffer, h, List.lookup_cons, State.localBuffer]
  by_cases hm : m = msg
  · simp [hm]
  · have hne : (m == msg) = false := beq_eq_false_iff_ne.mpr hm
    rw [hne, if_neg hm]

/-- After a match that hands the message over, the message has the receive's buffer, if the two were
both there or both absent. -/
theorem localBuffer_matched {s s' : State} {msg : FabricMessage} {buf : Ptr} {size : BitVec 32}
    (hsumi : ∀ l b, sumi.matchRecv l b = b) (hfit : fits size msg = true)
    (hboth : buf = nullptr ↔ s.localBuffer msg = nullptr)
    (h : s'.localBuffers =
      if fits size msg && s.copies buf msg then
        (msg, sumi.matchRecv (s.localBuffer msg) buf) :: s.localBuffers
      else s.localBuffers) : s'.localBuffer msg = buf := by
  by_cases hcopies : s.copies buf msg = true
  · rw [hfit, hcopies, Bool.and_self, if_pos rfl] at h
    rw [localBuffer_cons h, if_pos rfl, hsumi]
  · rw [hfit, Bool.true_and, if_neg hcopies] at h
    rw [localBuffer_congr h]
    -- nothing was copied, so one of the two is null, and then both are
    have hnull : buf = nullptr := by
      by_contra hbuf
      apply hcopies
      have hlocal : s.localBuffer msg ≠ nullptr := fun hl => hbuf (hboth.mpr hl)
      simp [State.copies, hbuf, hlocal]
    rw [hnull]
    exact hboth.mp hnull

theorem localBuffer_other {s s' : State} {msg m : FabricMessage} {buf : Ptr} {size : BitVec 32}
    (hm : m ≠ msg)
    (h : s'.localBuffers =
      if fits size msg && s.copies buf msg then
        (msg, sumi.matchRecv (s.localBuffer msg) buf) :: s.localBuffers
      else s.localBuffers) : s'.localBuffer m = s.localBuffer m := by
  by_cases hcopied : (fits size msg && s.copies buf msg) = true
  · rw [if_pos hcopied] at h
    rw [localBuffer_cons h, if_neg hm]
  · rw [if_neg hcopied] at h
    exact localBuffer_congr h m

theorem SessionOk.entries_length_le {bs : List SessionAction} {s : Session}
    (h : SessionOk format bs s) : s.entries.length ≤ s.queue.handOffs.length := by
  obtain ⟨read, hfifo, hentries⟩ := h.fifo
  have hlen := congrArg List.length hfifo
  rw [List.length_map, List.length_append, ← hentries.length_eq] at hlen
  omega

/-- What was identified stays identified while the record grows. -/
theorem Identifies.grow {bs : List SessionAction} {s s' : Session} (h : Identifies s)
    (hok : SessionOk format bs s) (hentries : s'.entries = s.entries)
    {handed : List (FabricMessage × Option Nat)}
    (hhandOffs : s'.queue.handOffs = s.queue.handOffs ++ handed) {contexts : List Ptr}
    (hcontexts : s'.contexts = s.contexts ++ contexts) {posts : List PostRecv}
    (hposts : s'.queue.posts = s.queue.posts ++ posts) : Identifies s' := by
  intro k entry m call hentry hhand
  rw [hentries] at hentry
  have hk : k < s.queue.handOffs.length :=
    Nat.lt_of_lt_of_le (List.getElem?_eq_some_iff.mp hentry).1 hok.entries_length_le
  rw [hhandOffs, List.getElem?_append_left hk] at hhand
  obtain ⟨hcontext, hbuf⟩ := h k entry m call hentry hhand
  rw [hcontexts, hposts]
  refine ⟨getElem?_append_of_some hcontext _, ?_⟩
  intro x hx
  obtain ⟨p, hp, rfl⟩ := hbuf x hx
  exact ⟨p, getElem?_append_of_some hp _, rfl⟩

/-- The queue takes a step that meets the condition. -/
theorem Agreement.queue {bs : List SessionAction} {s s' : Session} {b : SessionAction} {a : Action}
    (hsumi : ∀ l b, sumi.matchRecv l b = b) (h : Agreement format s) (hok : SessionOk format bs s)
    (distinct : s'.contexts.Nodup) (hagree : ContextsAgree format s b) (action : b.action = some a)
    (hs : Step sumi s.queue a s'.queue) (hcontexts : s'.contexts = s.contexts ++ b.postedContext)
    (hentries : s'.entries = s.entries) : Agreement format s' := by
  have hposts := posts_step hs
  -- the messages handed over before keep their contexts, and their buffers if nothing touches them
  have hold : ∀ m call, (m, some call) ∈ s.queue.handOffs →
      s'.contexts[call]? = some m.context := by
    intro m call hm
    rw [hcontexts]
    exact getElem?_append_of_some (h.contexts m call hm) _
  have hkept : format.hasBuf = true → ∀ m call, (m, some call) ∈ s.queue.handOffs →
      s'.queue.localBuffer m = s.queue.localBuffer m →
      ∃ p, s'.queue.posts[call]? = some p ∧ s'.queue.localBuffer m = p.buf := by
    intro hbuf m call hm hsame
    obtain ⟨p, hp, hlocal⟩ := h.buffers hbuf m call hm
    rw [hposts, hsame]
    exact ⟨p, getElem?_append_of_some hp _, hlocal⟩
  cases hok.provenance.outcome hok.kinds hs with
  | quiet progress localBuffers effects =>
      have hhandOffs : s'.queue.handOffs = s.queue.handOffs := by
        rw [State.handOffs, effects, State.handOffs]
      have hgrow : s'.queue.handOffs = s.queue.handOffs ++ [] := by
        rw [hhandOffs, List.append_nil]
      refine ⟨?_, ?_, h.identifies.grow hok hentries hgrow hcontexts hposts⟩
      · rw [hhandOffs]
        exact hold
      · intro hbuf m call hm
        rw [hhandOffs] at hm
        exact hkept hbuf m call hm (localBuffer_congr localBuffers m)
  | passed msg other progress localBuffers effects =>
      have hhandOffs : s'.queue.handOffs = s.queue.handOffs ++ [(msg, none)] := by
        rw [State.handOffs, effects, List.filterMap_append]
        rfl
      refine ⟨?_, ?_, h.identifies.grow hok hentries hhandOffs hcontexts hposts⟩
      · intro m call hm
        rw [hhandOffs] at hm
        exact hold m call (by simpa using hm)
      · intro hbuf m call hm
        rw [hhandOffs] at hm
        exact hkept hbuf m call (by simpa using hm) (localBuffer_congr localBuffers m)
  | matched call p msg next receives progress localBuffers effects =>
      have hhandOffs := handOffs_finishEffects _ _ _ _ _ effects
      have hnew := hagree a action ⟨msg, call, p.buf, p.size⟩ next
      rw [← hcontexts] at hnew
      refine ⟨?_, ?_, h.identifies.grow hok hentries hhandOffs hcontexts hposts⟩
      · intro m c hm
        rw [hhandOffs, List.mem_append] at hm
        rcases hm with hm | hm
        · exact hold m c hm
        · split_ifs at hm with hfit
          · obtain ⟨rfl, rfl⟩ : m = msg ∧ c = call := by simpa using hm
            exact (hnew hfit).1
          · simp at hm
      · intro hbuf m c hm
        rw [hhandOffs, List.mem_append] at hm
        by_cases hfit : fits p.size msg = true
        · have hlocal := localBuffer_matched hsumi hfit ((hnew hfit).2 hbuf) localBuffers
          rcases hm with hm | hm
          · by_cases hmsg : m = msg
            · -- the contexts are distinct, so the earlier receive is this one
              subst hmsg
              have hlt : c < s'.contexts.length := (List.getElem?_eq_some_iff.mp (hold m c hm)).1
              have hcall : c = call :=
                (List.getElem?_inj hlt distinct).mp ((hold m c hm).trans (hnew hfit).1.symm)
              subst hcall
              exact ⟨p, receives.posted, hlocal⟩
            · exact hkept hbuf m c hm (localBuffer_other hmsg localBuffers)
          · rw [if_pos hfit, List.mem_singleton] at hm
            cases hm
            exact ⟨p, receives.posted, hlocal⟩
        · -- the message was deleted, and no buffer changed
          rw [if_neg hfit] at hm
          rw [if_neg (by simp [hfit])] at localBuffers
          exact hkept hbuf m c (by simpa using hm) (localBuffer_congr localBuffers m)

/-- A read writes the entries of messages that were handed over, in order. -/
theorem Agreement.read {bs : List SessionAction} {s s' : Session} {taken : List FabricMessage}
    (h : Agreement format s) (hok : SessionOk format bs s)
    (hprogress : s.queue.progress = taken ++ s'.queue.progress)
    (hqueue : s'.queue = { s.queue with progress := s'.queue.progress })
    (hcontexts : s'.contexts = s.contexts)
    (hentries : s'.entries = s.entries ++
      taken.map fun m => sstmaciFillCqEntry format (s.queue.localBuffer m) m) :
    Agreement format s' := by
  have hhandOffs : s'.queue.handOffs = s.queue.handOffs := by
    rw [hqueue]
    rfl
  have hposts : s'.queue.posts = s.queue.posts := by rw [hqueue]
  have hlocal : ∀ m, s'.queue.localBuffer m = s.queue.localBuffer m := fun m =>
    localBuffer_congr (by rw [hqueue]) m
  refine ⟨?_, ?_, ?_⟩
  · rw [hhandOffs, hcontexts]
    exact h.contexts
  · intro hbuf
    simp only [hhandOffs, hposts, hlocal]
    exact h.buffers hbuf
  · intro k entry m call hentry hhand
    rw [hhandOffs] at hhand
    rw [hcontexts, hposts]
    by_cases hk : k < s.entries.length
    · rw [hentries, List.getElem?_append_left hk] at hentry
      exact h.identifies k entry m call hentry hhand
    · -- a new entry: the message it was written for is the one handed over at `k`
      obtain ⟨read, hfifo, hread⟩ := hok.fifo
      rw [hentries, List.getElem?_append_right (by omega), List.getElem?_map,
        Option.map_eq_some_iff] at hentry
      obtain ⟨m', htaken, hfill⟩ := hentry
      have hm : (s.queue.handOffs.map Prod.fst)[k]? = some m := by
        rw [List.getElem?_map, hhand]
        rfl
      rw [hfifo, hprogress, List.getElem?_append_right (by rw [← hread.length_eq]; omega),
        ← hread.length_eq, List.getElem?_append_left (List.getElem?_eq_some_iff.mp htaken).1,
        htaken] at hm
      cases hm
      have hmem : (m, some call) ∈ s.queue.handOffs := List.mem_of_getElem? hhand
      refine ⟨?_, ?_⟩
      · rw [fill_opContext hfill]
        exact h.contexts m call hmem
      · intro x hx
        obtain ⟨hformat, rfl⟩ := fill_bufLen hfill hx
        have hbuf : format.hasBuf = true := by
          rcases hformat with rfl | rfl
          · rfl
          · rfl
        obtain ⟨p, hp, hlocal⟩ := h.buffers hbuf m call hmem
        exact ⟨p, hp, by rw [hlocal]⟩

theorem agreement_run {bs : List SessionAction} {s : Session}
    (hsumi : ∀ l b, sumi.matchRecv l b = b) (hrun : run (sessionStep sumi format) {} bs = .ok s) :
    (contextsOf bs).Nodup → StepsMeet (sessionStep sumi format) (ContextsAgree format) {} bs →
      Agreement format s := by
  refine run_induction (P := fun bs s => (contextsOf bs).Nodup →
    StepsMeet (sessionStep sumi format) (ContextsAgree format) {} bs → Agreement format s) ?_ ?_ hrun
  · intro _ _
    refine ⟨?_, ?_, ?_⟩
    · simp [State.handOffs]
    · simp [State.handOffs]
    · intro k entry m call hentry
      simp at hentry
  · intro bs s b s' hrun ih hstep distinct hmeet
    obtain ⟨hmeet, hagree⟩ := (stepsMeet_snoc_of_run hrun).mp hmeet
    have hok := sessionOk_run hrun
    have hok' := sessionOk_run (run_snoc_ok.mpr ⟨s, hrun, hstep⟩)
    have hbs : (contextsOf bs).Nodup := by
      rw [contextsOf_snoc] at distinct
      exact (List.sublist_append_left _ _).nodup distinct
    have h := ih hbs hmeet
    cases sessionStep_inv hstep with
    | queue a action step contexts entries =>
        exact h.queue hsumi hok (hok'.contexts.nodup distinct) hagree action step contexts entries
    | read taken progress queue contexts entries =>
        exact h.read hok progress queue contexts entries

/-- **Completions and receives.** With pairwise distinct contexts, in a session whose every match of
a message that fits meets the condition — the sender passed the very context of the receive — each
entry read for a matched message identifies its receive, in every state of the session.  In any case
the k-th entry read is written for the k-th message handed over, and so with the sender's
context. -/
theorem completions_identify (sumi : Sumi) (format : CqFormat) (bs : List SessionAction)
    (s : Session) (hsumi : ∀ localBuffer buf, sumi.matchRecv localBuffer buf = buf)
    (distinct : (contextsOf bs).Nodup) (hrun : run (sessionStep sumi format) {} bs = .ok s) :
    (StepsMeet (sessionStep sumi format) (ContextsAgree format) {} bs →
      EveryState (sessionStep sumi format) (fun _ t => Identifies t) {} bs) ∧
    ∀ (k : Nat) (entry : CqEntry), s.entries[k]? = some (some entry) →
      ∃ m call, s.queue.handOffs[k]? = some (m, call) ∧ entry.opContext = m.context := by
  refine ⟨?_, ?_⟩
  · intro hmeet pre hpre t ht
    have hsub : (contextsOf pre).Sublist (contextsOf bs) := hpre.sublist.filterMap _
    exact (agreement_run hsumi ht (hsub.nodup distinct) (hmeet.of_prefix hpre)).identifies
  · intro k entry hentry
    obtain ⟨read, hfifo, hread⟩ := (sessionOk_run hrun).fifo
    have hk : k < s.entries.length := (List.getElem?_eq_some_iff.mp hentry).1
    have hkread : k < read.length := by
      rw [← hread.length_eq]
      exact hk
    have hkhand : k < s.queue.handOffs.length :=
      Nat.lt_of_lt_of_le hk (sessionOk_run hrun).entries_length_le
    refine ⟨s.queue.handOffs[k].1, s.queue.handOffs[k].2, List.getElem?_eq_getElem hkhand, ?_⟩
    have hmsg : s.queue.handOffs[k].1 = read[k] := by
      have hget := congrArg (·[k]?) hfifo
      simpa [hkhand, hkread, List.getElem?_append_left] using hget
    obtain ⟨localBuffer, hfill⟩ := hread.get hk hkread
    have hfilled : sstmaciFillCqEntry format localBuffer read[k] = some entry :=
      hfill.symm.trans (List.getElem?_eq_some_iff.mp hentry).2
    rw [hmsg]
    exact fill_opContext hfilled

/-- A tagged receive with a context, a matching message, and a read. -/
def sampleSession (context : Ptr) : List SessionAction :=
  [.trecv 0x1000 16 fiAddrUnspec 5 0 context, .incoming (sampleTaggedSend 0 5), .cqRead 1]

/-- The sender passed the context of the receive. -/
theorem sampleSession_identifies :
    EveryState (sessionStep copyingSumi .tagged) (fun _ t => Identifies t) {}
      (sampleSession 0x200) :=
  (completions_identify copyingSumi .tagged (sampleSession 0x200) _ (fun _ _ => rfl) (by decide)
    rfl).1 (by decide)

/-- The sender passed `0x200` and the receive `0xA00`: the completion reports `0x200`. -/
theorem sampleSession_not_identifies :
    (contextsOf (sampleSession 0xA00)).Nodup ∧
      ∃ s, run (sessionStep copyingSumi .tagged) {} (sampleSession 0xA00) = .ok s ∧
        s.entries = [some (.tagged 0x200 (fiTagged ||| fiSend) 8 0x1000 FabricMessage.noImmData 5)] ∧
        ¬ Identifies s := by
  refine ⟨by decide, _, rfl, by decide, ?_⟩
  intro h
  have hcontext := (h 0 _ (sampleTaggedSend 0 5) 0 rfl rfl).1
  revert hcontext
  decide

end SstTransports.Fabric
