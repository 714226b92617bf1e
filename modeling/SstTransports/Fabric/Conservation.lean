/-
# SstTransports.Fabric.Conservation — no message and no receive is lost or used twice, and when.

Two linear-ownership accounts over every run of the receive queue.

* Messages (`messages_conserved_iff`): each message that arrived is in exactly one of the two
  unexpected lists, the progress queue and the set of deleted messages.  The tagged branch of
  `postRecv` hands a matching message to `finishMatch` and leaves it in `unexp_tagged_recvs`, so the
  account balances exactly for the runs in which no tagged post meets a message its scan accepts.
* Receives (`receives_conserved_iff`): each posted receive is pending once or was consumed once.
  The tagged branch of `postRecv` enqueues twice when `unexp_tagged_recvs` is empty, so the account
  balances exactly for the runs in which no tagged post finds that list empty.

Both proofs carry the whole account along the run — what the lists hold is what arrived (or was
posted) together with an explicit surplus — and the condition says that the surplus is empty.
-/
import SstTransports.Fabric.Steps
import Mathlib.Data.List.Count

namespace SstTransports.Fabric

open SstTransports.Lib

variable {sumi : Sumi}

/-! ## §1 — messages -/

/-- Everywhere a message can be: the two unexpected lists, the messages handed to the progress
queue, and the deleted ones. -/
def places (s : State) : List FabricMessage :=
  s.unexpRecvs ++ s.unexpTaggedRecvs ++ s.progress ++ s.deleted

/-- The account of the messages of a run that has reached `s`. -/
structure MessagesConserved (sumi : Sumi) (as : List Action) (s : State) : Prop where
  /-- Every message that arrived is in exactly one place, once. -/
  once : ∀ m ∈ arrivals as, (places s).count m = 1
  /-- A message that is not a posted send is in the progress queue, once. -/
  passedOnce : ∀ m ∈ arrivals as, m.isPostedSend = false → s.progress.count m = 1
  /-- It was handed over by the very step it arrived in. -/
  passedAtArrival : ∀ pre m t t', pre ++ [.incoming m] <+: as → m.isPostedSend = false →
    run (step sumi) {} pre = .ok t → step sumi t (.incoming m) = .ok t' →
    t'.progress = t.progress ++ [m]

/-- A tagged post is made while no message its scan looks at is accepted. -/
def NoStaleMatch (s : State) : Action → Prop
  | .postRecv p => p.tagged = true → ∀ m ∈ everyOther s.unexpTaggedRecvs, p.accepts m = false
  | .incoming _ => True

instance (s : State) (a : Action) : Decidable (NoStaleMatch s a) := by
  cases a <;> unfold NoStaleMatch <;> infer_instance

/-- The account with its surplus: what the places hold is what arrived, and the messages that a
tagged post handed on without taking them off their list. -/
structure MessageAccount (sumi : Sumi) (as : List Action) (s : State)
    (surplus : List FabricMessage) : Prop where
  balance : ∀ m, (places s).count m = (arrivals as).count m + surplus.count m
  arrived : ∀ m ∈ surplus, m ∈ arrivals as
  exact : surplus = [] ↔ StepsMeet (step sumi) NoStaleMatch {} as

theorem count_places_finish (s : State) (tagged : Bool) (call : Nat) (buf : Ptr) (size : BitVec 32)
    (msg m : FabricMessage) :
    (places (s.finish sumi tagged call buf size msg)).count m =
      (places s).count m + [msg].count m := by
  simp only [places, finish_unexpRecvs, finish_unexpTaggedRecvs, finish_progress, finish_deleted,
    List.count_append]
  split_ifs <;> simp only [List.count_nil] <;> omega

/-- A step that meets the condition moves messages between places and adds its own arrival. -/
theorem count_places_of_noStaleMatch {s s' : State} {a : Action} (hs : Step sumi s a s')
    (hmeet : NoStaleMatch s a) (m : FabricMessage) :
    (places s').count m = (places s).count m + (arrivals [a]).count m := by
  cases hs with
  | postTaggedEmpty p tagged empty => rfl
  | postTaggedMatch p tagged pre msg post split even accepts live skipped =>
      have hmsg : msg ∈ everyOther s.unexpTaggedRecvs := by
        rw [split]
        exact mem_everyOther_middle even
      have hmiss := hmeet tagged msg hmsg
      rw [accepts] at hmiss
      cases hmiss
  | postTaggedMiss p tagged nonempty even miss => rfl
  | postUntaggedEmpty p untagged empty => rfl
  | postUntaggedMatch p untagged msg rest split live =>
      rw [count_places_finish]
      simp only [places, State.setUnexpRecvs, recordPost_toRecvQueue, recordPost_deleted, split,
        arrivals, List.filterMap_cons, List.filterMap_nil, List.count_append, List.count_cons,
        List.count_nil]
      omega
  | incomingOther msg live other =>
      simp only [places, State.progressIncoming, arrivals, List.filterMap_cons, List.filterMap_nil,
        List.count_append]
      omega
  | incomingTaggedMatch msg live tagged pre r post split even accepts skipped =>
      exact count_places_finish s true r.call r.node.buf r.node.size msg m
  | incomingTaggedMiss msg live tagged even miss =>
      simp only [places, State.setUnexpTaggedRecvs, arrivals, List.filterMap_cons,
        List.filterMap_nil, List.count_append]
      omega
  | incomingUntaggedEmpty msg live untagged empty =>
      simp only [places, State.setUnexpRecvs, arrivals, List.filterMap_cons, List.filterMap_nil,
        List.count_append]
      omega
  | incomingUntaggedMatch msg live untagged r rest split =>
      exact count_places_finish s false r.call r.node.buf r.node.size msg m

/-- A step that breaks the condition duplicates a message of `unexp_tagged_recvs`. -/
theorem count_places_of_staleMatch {s s' : State} {a : Action} (hs : Step sumi s a s')
    (hbreak : ¬ NoStaleMatch s a) :
    arrivals [a] = [] ∧ ∃ msg ∈ s.unexpTaggedRecvs,
      ∀ m, (places s').count m = (places s).count m + [msg].count m := by
  cases hs with
  | postTaggedEmpty p tagged empty =>
      exact absurd (fun _ m hm => by simp [empty, everyOther] at hm) hbreak
  | postTaggedMatch p tagged pre msg post split even accepts live skipped =>
      refine ⟨rfl, msg, by simp [split], ?_⟩
      intro m
      exact count_places_finish (s.recordPost p) true s.posts.length p.buf p.size msg m
  | postTaggedMiss p tagged nonempty even miss =>
      exact absurd (fun _ m hm => (miss m hm).2) hbreak
  | postUntaggedEmpty p untagged empty =>
      exact absurd (fun htagged => by simp [untagged] at htagged) hbreak
  | postUntaggedMatch p untagged msg rest split live =>
      exact absurd (fun htagged => by simp [untagged] at htagged) hbreak
  | incomingOther msg live other => exact absurd trivial hbreak
  | incomingTaggedMatch msg live tagged pre r post split even accepts skipped =>
      exact absurd trivial hbreak
  | incomingTaggedMiss msg live tagged even miss => exact absurd trivial hbreak
  | incomingUntaggedEmpty msg live untagged empty => exact absurd trivial hbreak
  | incomingUntaggedMatch msg live untagged r rest split => exact absurd trivial hbreak

theorem MessageAccount.snoc {as : List Action} {s s' : State} {a : Action}
    {surplus : List FabricMessage} (h : MessageAccount sumi as s surplus)
    (hrun : run (step sumi) {} as = .ok s) (hs : Step sumi s a s') :
    ∃ surplus', MessageAccount sumi (as ++ [a]) s' surplus' := by
  by_cases hmeet : NoStaleMatch s a
  · refine ⟨surplus, ?_, ?_, ?_⟩
    · intro m
      rw [count_places_of_noStaleMatch hs hmeet, h.balance, arrivals_append, List.count_append]
      omega
    · intro m hm
      rw [arrivals_append]
      exact List.mem_append_left _ (h.arrived m hm)
    · rw [stepsMeet_snoc_of_run hrun, h.exact]
      simp [hmeet]
  · obtain ⟨harrivals, msg, hmsg, hcount⟩ := count_places_of_staleMatch hs hmeet
    refine ⟨msg :: surplus, ?_, ?_, ?_⟩
    · intro m
      rw [hcount, h.balance, arrivals_append, harrivals, List.append_nil]
      simp only [List.count_cons, List.count_nil]
      omega
    · intro m hm
      rw [arrivals_append, harrivals, List.append_nil]
      rcases List.mem_cons.mp hm with rfl | hm
      · have hplace : 0 < (places s).count m :=
          List.count_pos_iff.mpr (by simp [places, hmsg])
        rw [h.balance] at hplace
        by_cases harr : m ∈ arrivals as
        · exact harr
        · rw [List.count_eq_zero_of_not_mem harr, Nat.zero_add] at hplace
          exact h.arrived m (List.count_pos_iff.mp hplace)
      · exact h.arrived m hm
    · rw [stepsMeet_snoc_of_run hrun]
      simp [hmeet]

theorem messageAccount_run {as : List Action} {s : State} (h : run (step sumi) {} as = .ok s) :
    ∃ surplus, MessageAccount sumi as s surplus := by
  refine run_induction (P := fun as s => ∃ surplus, MessageAccount sumi as s surplus) ?_ ?_ h
  · exact ⟨[], by simp [places], by simp, by simp [StepsMeet]⟩
  · rintro as s a s' hrun ⟨surplus, hacc⟩ hstep
    exact hacc.snoc hrun (step_inv hstep)

/-- A message that is no posted send is nowhere but in the progress queue. -/
theorem count_places_of_not_postedSend {s : State} (hk : KindsOk s) {m : FabricMessage}
    (hm : m.isPostedSend = false) : (places s).count m = s.progress.count m := by
  have hunexp : m ∉ s.unexpRecvs := by
    intro h
    rw [isPostedSend_of_isUntaggedSend (hk.unexp m h)] at hm
    cases hm
  have hunexpTagged : m ∉ s.unexpTaggedRecvs := by
    intro h
    rw [isPostedSend_of_isTaggedSend (hk.unexpTagged m h)] at hm
    cases hm
  have hdeleted : m ∉ s.deleted := by
    intro h
    rw [hk.deleted m h] at hm
    cases hm
  simp [places, List.count_append, List.count_eq_zero_of_not_mem hunexp,
    List.count_eq_zero_of_not_mem hunexpTagged, List.count_eq_zero_of_not_mem hdeleted]

theorem progress_of_step_incoming {s s' : State} {m : FabricMessage}
    (hm : m.isPostedSend = false) (h : step sumi s (.incoming m) = .ok s') :
    s'.progress = s.progress ++ [m] := by
  simp only [step, incoming, hm, Bool.false_eq_true, if_false] at h
  split_ifs at h
  cases h
  rfl

/-- **Message conservation, exactly.** In every run on pairwise distinct messages, the state reached
has every message in exactly one place if and only if no tagged post of the run was made while its
scan of `unexp_tagged_recvs` could accept a message. -/
theorem messages_conserved_iff (sumi : Sumi) (as : List Action) (s : State)
    (distinct : (arrivals as).Nodup) (h : run (step sumi) {} as = .ok s) :
    MessagesConserved sumi as s ↔ StepsMeet (step sumi) NoStaleMatch {} as := by
  obtain ⟨surplus, hacc⟩ := messageAccount_run h
  rw [← hacc.exact]
  constructor
  · intro hcons
    by_contra hne
    obtain ⟨m, hm⟩ := List.exists_mem_of_ne_nil surplus hne
    have harr := hacc.arrived m hm
    have honce := hcons.once m harr
    have hpos : 0 < surplus.count m := List.count_pos_iff.mpr hm
    rw [hacc.balance, List.count_eq_one_of_mem distinct harr] at honce
    omega
  · intro hnil
    have honce : ∀ m ∈ arrivals as, (places s).count m = 1 := by
      intro m hm
      rw [hacc.balance, hnil, List.count_nil, List.count_eq_one_of_mem distinct hm]
    refine ⟨honce, ?_, ?_⟩
    · intro m hm hsend
      rw [← count_places_of_not_postedSend (kindsOk_run h) hsend]
      exact honce m hm
    · intro pre m t t' _ hsend _ hstep
      exact progress_of_step_incoming hsend hstep

/-- An untagged message meets its receive.  Two tagged ones wait, a receive that accepts neither of them
is posted, and the third meets it. -/
def balancedRun : List Action :=
  [.incoming (sampleSend 0), .postRecv (samplePost 16), .incoming (sampleTaggedSend 1 6),
    .incoming (sampleTaggedSend 2 7), .postRecv (sampleTaggedPost 16 5), .incoming (sampleTaggedSend 3 5)]

theorem balancedRun_conserved :
    ∃ s, run (step copyingSumi) {} balancedRun = .ok s ∧
      MessagesConserved copyingSumi balancedRun s :=
  ⟨_, rfl, (messages_conserved_iff copyingSumi balancedRun _ (by decide) rfl).mpr (by decide)⟩

/-- A tagged message arrives before the receive that matches it. -/
def staleRun : List Action :=
  [.incoming (sampleTaggedSend 0 5), .postRecv (sampleTaggedPost 16 5)]

/-- After `staleRun` the message is in the progress queue and still in `unexp_tagged_recvs`. -/
theorem staleRun_not_conserved :
    (arrivals staleRun).Nodup ∧ ∃ s, run (step copyingSumi) {} staleRun = .ok s ∧
      ¬ MessagesConserved copyingSumi staleRun s := by
  refine ⟨by decide, _, rfl, ?_⟩
  intro h
  have hcount := h.once (sampleTaggedSend 0 5) (by decide)
  revert hcount
  decide

/-! ## §2 — receives -/

/-- The calls whose receive is pending, once for each node. -/
def pendingCalls (s : State) : List Nat :=
  s.recvs.map (·.call) ++ s.taggedRecvs.map (·.call)

/-- The messages passed to `finishMatch` with the receive of call `i`. -/
def consumers (s : State) (i : Nat) : List FabricMessage :=
  (s.matches.filter (·.call == i)).map (·.msg)

/-- The number of `finishMatch` calls made for receives of a kind. -/
def finishes (s : State) (tagged : Bool) : Nat :=
  s.matches.countP (·.tagged == tagged)

/-- The length of the pending list of a kind. -/
def pendingLength (s : State) : Bool → Nat
  | true => s.taggedRecvs.length
  | false => s.recvs.length

/-- The number of receives of a kind that a run posts. -/
def postedOfKind (as : List Action) (tagged : Bool) : Nat :=
  (posted as).countP (·.tagged == tagged)

/-- The account of the receives of a run that has reached `s`. -/
structure ReceivesConserved (as : List Action) (s : State) : Prop where
  /-- Every posted receive is pending once or was consumed by one message, and not both. -/
  once : ∀ i < (posted as).length, (pendingCalls s).count i + (consumers s i).length = 1
  /-- For each kind, the pending list is as long as the posts exceed the `finishMatch` calls. -/
  balance : ∀ tagged, (pendingLength s tagged : Int) = postedOfKind as tagged - finishes s tagged

/-- A tagged post is made while `unexp_tagged_recvs` holds some message. -/
def UnexpectedWaiting (s : State) : Action → Prop
  | .postRecv p => p.tagged = true → s.unexpTaggedRecvs ≠ []
  | .incoming _ => True

instance (s : State) (a : Action) : Decidable (UnexpectedWaiting s a) := by
  cases a <;> unfold UnexpectedWaiting <;> infer_instance

/-- Every use of a receive, with its kind and call: a pending node, or an entry into
`finishMatch`. -/
def uses (s : State) : List (Bool × Nat) :=
  s.recvs.map (fun r => (false, r.call)) ++ s.taggedRecvs.map (fun r => (true, r.call)) ++
    s.matches.map (fun r => (r.tagged, r.call))

/-- The kind and number of each `postRecv` call. -/
def calls (ps : List PostRecv) : List (Bool × Nat) :=
  ps.zipIdx.map fun x => (x.1.tagged, x.2)

/-- The use a posting action is entitled to. -/
def newCalls (s : State) : Action → List (Bool × Nat)
  | .postRecv p => [(p.tagged, s.posts.length)]
  | .incoming _ => []

/-- A step that meets the condition adds the one use of a new call; a pending node that is consumed
becomes an entry into `finishMatch` for the same call. -/
theorem count_uses_of_unexpectedWaiting {s s' : State} {a : Action} (hs : Step sumi s a s')
    (hmeet : UnexpectedWaiting s a) (x : Bool × Nat) :
    (uses s').count x = (uses s).count x + (newCalls s a).count x := by
  cases hs with
  | postTaggedEmpty p tagged empty => exact absurd empty (hmeet tagged)
  | postTaggedMatch p tagged pre msg post split even accepts live skipped =>
      simp [uses, newCalls, tagged, List.count_append, Nat.add_assoc]
  | postTaggedMiss p tagged nonempty even miss =>
      simp [uses, newCalls, tagged, PostRecv.taggedRecv, List.count_append, List.count_cons]
      omega
  | postUntaggedEmpty p untagged empty =>
      simp [uses, newCalls, untagged, PostRecv.recv, List.count_append, List.count_cons]
      omega
  | postUntaggedMatch p untagged msg rest split live =>
      simp [uses, newCalls, untagged, List.count_append, Nat.add_assoc]
  | incomingOther msg live other => simp [uses, newCalls]
  | incomingTaggedMatch msg live tagged pre r post split even accepts skipped =>
      simp [uses, newCalls, split, List.count_append, List.count_cons]
      omega
  | incomingTaggedMiss msg live tagged even miss => simp [uses, newCalls]
  | incomingUntaggedEmpty msg live untagged empty => simp [uses, newCalls]
  | incomingUntaggedMatch msg live untagged r rest split =>
      simp [uses, newCalls, split, List.count_append, List.count_cons]
      omega

/-- A step that breaks the condition uses its new call twice. -/
theorem count_uses_of_unexpectedEmpty {s s' : State} {a : Action} (hs : Step sumi s a s')
    (hbreak : ¬ UnexpectedWaiting s a) :
    newCalls s a = [(true, s.posts.length)] ∧
      ∀ x, (uses s').count x = (uses s).count x + (newCalls s a).count x +
        (newCalls s a).count x := by
  cases hs with
  | postTaggedEmpty p tagged empty =>
      refine ⟨by simp [newCalls, tagged], ?_⟩
      intro x
      simp [uses, newCalls, tagged, PostRecv.taggedRecv, List.count_append, List.count_cons]
      omega
  | postTaggedMatch p tagged pre msg post split even accepts live skipped =>
      exact absurd (fun _ => by simp [split]) hbreak
  | postTaggedMiss p tagged nonempty even miss => exact absurd (fun _ => nonempty) hbreak
  | postUntaggedEmpty p untagged empty =>
      exact absurd (fun htagged => by simp [untagged] at htagged) hbreak
  | postUntaggedMatch p untagged msg rest split live =>
      exact absurd (fun htagged => by simp [untagged] at htagged) hbreak
  | incomingOther msg live other => exact absurd trivial hbreak
  | incomingTaggedMatch msg live tagged pre r post split even accepts skipped =>
      exact absurd trivial hbreak
  | incomingTaggedMiss msg live tagged even miss => exact absurd trivial hbreak
  | incomingUntaggedEmpty msg live untagged empty => exact absurd trivial hbreak
  | incomingUntaggedMatch msg live untagged r rest split => exact absurd trivial hbreak

theorem calls_posted_snoc {as : List Action} {s : State} {a : Action} (h : s.posts = posted as) :
    calls (posted (as ++ [a])) = calls (posted as) ++ newCalls s a := by
  cases a with
  | incoming msg => simp [newCalls]
  | postRecv p => simp [newCalls, h, calls, List.zipIdx_append]

/-- The account with its surplus: the uses of receives are the posted calls, and the second nodes
that tagged posts made. -/
structure ReceiveAccount (sumi : Sumi) (as : List Action) (s : State)
    (surplus : List (Bool × Nat)) : Prop where
  balance : ∀ x, (uses s).count x = (calls (posted as)).count x + surplus.count x
  posted : ∀ x ∈ surplus, x ∈ calls (posted as)
  exact : surplus = [] ↔ StepsMeet (step sumi) UnexpectedWaiting {} as

theorem ReceiveAccount.snoc {as : List Action} {s s' : State} {a : Action}
    {surplus : List (Bool × Nat)} (h : ReceiveAccount sumi as s surplus)
    (hrun : run (step sumi) {} as = .ok s) (hs : Step sumi s a s') :
    ∃ surplus', ReceiveAccount sumi (as ++ [a]) s' surplus' := by
  have hcalls := calls_posted_snoc (a := a) (posts_run hrun)
  by_cases hmeet : UnexpectedWaiting s a
  · refine ⟨surplus, ?_, ?_, ?_⟩
    · intro x
      rw [count_uses_of_unexpectedWaiting hs hmeet, h.balance, hcalls, List.count_append]
      omega
    · intro x hx
      rw [hcalls]
      exact List.mem_append_left _ (h.posted x hx)
    · rw [stepsMeet_snoc_of_run hrun, h.exact]
      simp [hmeet]
  · obtain ⟨hnew, hcount⟩ := count_uses_of_unexpectedEmpty hs hmeet
    refine ⟨(true, s.posts.length) :: surplus, ?_, ?_, ?_⟩
    · intro x
      rw [hcount, h.balance, hcalls, List.count_append, hnew]
      simp only [List.count_cons, List.count_nil]
      omega
    · intro x hx
      rw [hcalls, hnew]
      rcases List.mem_cons.mp hx with rfl | hx
      · exact List.mem_append_right _ (List.mem_singleton.mpr rfl)
      · exact List.mem_append_left _ (h.posted x hx)
    · rw [stepsMeet_snoc_of_run hrun]
      simp [hmeet]

theorem receiveAccount_run {as : List Action} {s : State} (h : run (step sumi) {} as = .ok s) :
    ∃ surplus, ReceiveAccount sumi as s surplus := by
  refine run_induction (P := fun as s => ∃ surplus, ReceiveAccount sumi as s surplus) ?_ ?_ h
  · exact ⟨[], by simp [uses, calls, State.matches], by simp, by simp [StepsMeet]⟩
  · rintro as s a s' hrun ⟨surplus, hacc⟩ hstep
    exact hacc.snoc hrun (step_inv hstep)

/-- The uses of a call are its pending nodes and its consumers. -/
theorem count_uses_snd (s : State) (i : Nat) :
    ((uses s).map Prod.snd).count i = (pendingCalls s).count i + (consumers s i).length := by
  have hcons : (consumers s i).length = (s.matches.map (·.call)).count i := by
    rw [consumers, List.length_map, List.count_eq_countP, List.countP_map,
      List.countP_eq_length_filter]
    rfl
  rw [hcons]
  simp [uses, pendingCalls, List.count_append, Function.comp_def, Nat.add_assoc]

/-- The uses of a kind are its pending list and its `finishMatch` calls. -/
theorem count_uses_fst (s : State) (kind : Bool) :
    ((uses s).map Prod.fst).count kind = pendingLength s kind + finishes s kind := by
  have hfin : finishes s kind = (s.matches.map (·.tagged)).count kind := by
    rw [finishes, List.count_eq_countP, List.countP_map]
    rfl
  rw [hfin]
  cases kind <;>
    simp [uses, pendingLength, List.count_append, Function.comp_def, List.map_const',
      List.count_replicate]

theorem calls_map_snd (ps : List PostRecv) : (calls ps).map Prod.snd = List.range ps.length := by
  simp [calls, Function.comp_def, List.zipIdx_map_snd, List.range_eq_range']

theorem calls_map_fst (ps : List PostRecv) (kind : Bool) :
    ((calls ps).map Prod.fst).count kind = ps.countP (·.tagged == kind) := by
  have hmap : (calls ps).map Prod.fst = (ps.zipIdx.map Prod.fst).map (·.tagged) := by
    simp only [calls, List.map_map]
    rfl
  rw [hmap, List.zipIdx_map_fst, List.count_eq_countP, List.countP_map]
  rfl

/-- **Receive conservation, exactly.** In every run, the state reached has every posted receive
pending once or consumed once, and both pending lists as long as the posts exceed the matches, if
and only if no tagged post of the run was made while `unexp_tagged_recvs` was empty. -/
theorem receives_conserved_iff (sumi : Sumi) (as : List Action) (s : State)
    (h : run (step sumi) {} as = .ok s) :
    ReceivesConserved as s ↔ StepsMeet (step sumi) UnexpectedWaiting {} as := by
  obtain ⟨surplus, hacc⟩ := receiveAccount_run h
  have hperm : (uses s).Perm (calls (posted as) ++ surplus) :=
    List.perm_iff_count.mpr fun x => by rw [hacc.balance, List.count_append]
  -- the balance, call by call
  have hcall : ∀ i, (pendingCalls s).count i + (consumers s i).length =
      (List.range (posted as).length).count i + (surplus.map Prod.snd).count i := by
    intro i
    rw [← count_uses_snd, (hperm.map Prod.snd).count_eq, List.map_append, calls_map_snd,
      List.count_append]
  -- the balance, kind by kind
  have hkind : ∀ kind, pendingLength s kind + finishes s kind =
      postedOfKind as kind + (surplus.map Prod.fst).count kind := by
    intro kind
    rw [← count_uses_fst, (hperm.map Prod.fst).count_eq, List.map_append, List.count_append,
      calls_map_fst, postedOfKind]
  rw [← hacc.exact]
  constructor
  · intro hcons
    by_contra hne
    obtain ⟨x, hx⟩ := List.exists_mem_of_ne_nil surplus hne
    have hmem : x.2 ∈ List.range (posted as).length := by
      rw [← calls_map_snd]
      exact List.mem_map_of_mem (hacc.posted x hx)
    have honce := hcons.once x.2 (List.mem_range.mp hmem)
    have hpos : 0 < (surplus.map Prod.snd).count x.2 :=
      List.count_pos_iff.mpr (List.mem_map_of_mem hx)
    rw [hcall, List.count_eq_one_of_mem List.nodup_range hmem] at honce
    omega
  · rintro rfl
    refine ⟨?_, ?_⟩
    · intro i hi
      rw [hcall, List.count_eq_one_of_mem List.nodup_range (List.mem_range.mpr hi)]
      rfl
    · intro kind
      have hk := hkind kind
      simp only [List.map_nil, List.count_nil] at hk
      omega

/-- A tagged receive that finds other unexpected messages is enqueued once. -/
def waitingRun : List Action :=
  [.incoming (sampleTaggedSend 0 5), .incoming (sampleTaggedSend 1 6),
    .postRecv (sampleTaggedPost 16 7), .incoming (sampleTaggedSend 2 7)]

theorem waitingRun_receives_conserved :
    ∃ s, run (step copyingSumi) {} waitingRun = .ok s ∧ ReceivesConserved waitingRun s :=
  ⟨_, rfl, (receives_conserved_iff copyingSumi waitingRun _ rfl).mpr (by decide)⟩

/-- A single tagged post into an empty queue leaves two nodes for one receive. -/
theorem firstTaggedPost_not_conserved :
    ∃ s, run (step copyingSumi) {} [.postRecv (sampleTaggedPost 16 5)] = .ok s ∧
      ¬ ReceivesConserved [.postRecv (sampleTaggedPost 16 5)] s := by
  refine ⟨_, rfl, ?_⟩
  intro h
  have hcount := h.once 0 (by decide)
  revert hcount
  decide

end SstTransports.Fabric
