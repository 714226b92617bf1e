/-
# SstTransports.Ugni.Interchange — the two ways to get a short message.

With the tag `GNI_SMSG_ANY_TAG`, `GNI_SmsgGetNextWTag` is to do what `GNI_SmsgGetNext` does and store
the sender's tag besides, so that an application may use either.  The tag is stored as it was sent.
But the calls were written separately: the one stores the address of the message and does not make the
message current, the other makes it current and does not store its address; and both read the type of
an event from null if none has arrived.  `gets_interchange_iff`: in a run, either may stand for the
other exactly if each of the gets finds an event that is no short message.
-/
import SstTransports.Ugni.Events
import SstTransports.Ugni.Send

namespace SstTransports.Ugni

open SstTransports.Lib
open SstTransports.Fabric (Ptr)

/-! ## §1 — what an application observes -/

/-- The transport, and the codes and addresses that the calls so far have returned. -/
structure Observed where
  transport : Transport := {}
  results : List (GniReturn × Option Ptr) := []

/-- A call returns. -/
def Observed.returns (o : Observed) (ret : GniReturn) (header : Option Ptr) (t : Transport) :
    Observed :=
  { transport := t, results := o.results ++ [(ret, header)] }

def observe (o : Observed) : Action → Except Fault Observed
  | .cqCreate newCq => do
    let t ← allocateCq o.transport newCq
    return o.returns .success none t
  | .arrive cqId e => return { o with transport := arrive o.transport cqId e }
  | .cqGetEvent cqHndl =>
    let (ret, _, t) := gniCqGetEvent o.transport cqHndl
    return o.returns ret none t
  | .smsgGetNext ep => do
    let (get, t) ← gniSmsgGetNext o.transport ep
    return o.returns get.ret get.header t
  | .smsgGetNextWTag ep tag => do
    let (get, t) ← gniSmsgGetNextWTag o.transport ep tag
    return o.returns get.ret get.header t
  | .smsgRelease ep => do
    let (ret, t) ← gniSmsgRelease o.transport ep
    return o.returns ret none t

/-- The endpoint of a get that takes any message. -/
def Action.anyGet : Action → Option Ep
  | .smsgGetNext ep => some ep
  | .smsgGetNextWTag ep tag => if tag = gniSmsgAnyTag then some ep else none
  | _ => none

/-! ## §2 — the promise -/

/-- The two calls return the same code, store the same address if they succeed, and leave the same
queue and the same pending message. -/
def GetsAgree (t : Transport) (ep : Ep) : Prop :=
  ∃ plain tagged t₁ t₂, gniSmsgGetNext t ep = .ok (plain, t₁) ∧
    gniSmsgGetNextWTag t ep gniSmsgAnyTag = .ok (tagged, t₂) ∧
    tagged.ret = plain.ret ∧ (tagged.ret = .success → tagged.header = plain.header) ∧
    t₂.cqs ep.cqId = t₁.cqs ep.cqId ∧ t₂.slot ep.cqId = t₁.slot ep.cqId

/-- The tag that the sender of a message has given: to `GNI_SmsgSendWTag`, or none to `GNI_SmsgSend`,
which counts as `GNI_SMSG_ANY_TAG`. -/
inductive SentWithTag (msg : GniSmsgMessage) : BitVec 8 → Prop
  | tagged {noAck rank : BitVec 32} {ep : Ep} {header data : Part} {msgId : BitVec 32}
      {tag : BitVec 8} {ret : GniReturn} {req : SmsgRequest} {mem : Buffers}
      (hsent : gniSmsgSendWTag noAck rank ep header data msgId tag = .ok (ret, req))
      (hdelivery : Delivery mem req msg) : SentWithTag msg tag
  | plain {noAck rank : BitVec 32} {ep : Ep} {header data : Part} {msgId : BitVec 32}
      {ret : GniReturn} {req : SmsgRequest} {mem : Buffers}
      (hsent : gniSmsgSend noAck rank ep header data msgId = .ok (ret, req))
      (hdelivery : Delivery mem req msg) : SentWithTag msg gniSmsgAnyTag

/-- A tagged get that succeeds stores the tag of the sender. -/
def StoresSendersTag (t : Transport) (ep : Ep) : Prop :=
  ∀ get t' smsg tag, gniSmsgGetNextWTag t ep gniSmsgAnyTag = .ok (get, t') → get.ret = .success →
    t.nextSmsg ep.cqId = some smsg → SentWithTag smsg tag → get.tag = some tag

/-- An action may be replaced by itself, and a get that takes any message by the other one. -/
def MayReplace (a b : Action) : Prop := a = b ∨ ∃ ep, a.anyGet = some ep ∧ b.anyGet = some ep

/-- At every get the two calls agree, the tagged one stores the tag; and wherever the run is stopped,
the calls so far might have been replaced: what was returned and what is left is the same. -/
structure GetsInterchange (o : Observed) (as : List Action) : Prop where
  agree : StepsMeet observe (fun o a => ∀ ep, a.anyGet = some ep →
    GetsAgree o.transport ep ∧ StoresSendersTag o.transport ep) o as
  replace : ∀ pre, pre <+: as → ∀ bs, List.Forall₂ MayReplace pre bs →
    run observe o bs = run observe o pre

/-- The oldest event of a queue is there, and is no short message. -/
def Transport.OtherEvent (t : Transport) (cqId : BitVec 32) : Prop :=
  ∃ e ∈ (t.cqs cqId).head?, e.nextSmsg = none

/-- A get that takes any message finds something else. -/
def FindsOtherEvent (o : Observed) (a : Action) : Prop :=
  ∀ ep, a.anyGet = some ep → o.transport.OtherEvent ep.cqId

/-! ## §3 — one get -/

variable {t : Transport} {ep : Ep}

theorem otherEvent_iff {c : BitVec 32} :
    t.OtherEvent c ↔ ∃ e rest, t.cqs c = e :: rest ∧ e.nextSmsg = none := by
  cases hq : t.cqs c with
  | nil => simp [Transport.OtherEvent, hq]
  | cons e rest => simp [Transport.OtherEvent, hq]

theorem nextSmsg_eq_some_iff {c : BitVec 32} {smsg : GniSmsgMessage} :
    t.nextSmsg c = some smsg ↔ ∃ e rest, t.cqs c = e :: rest ∧ e.nextSmsg = some smsg := by
  cases hq : t.cqs c with
  | nil => simp [Transport.nextSmsg, hq]
  | cons e rest => simp [nextSmsg_of_cons hq]

/-- Of another event both calls take notice in the same way. -/
theorem gets_eq_of_otherEvent (h : t.OtherEvent ep.cqId) :
    ∃ t', gniSmsgGetNext t ep = .ok ({ ret := .notDone }, t') ∧
      gniSmsgGetNextWTag t ep gniSmsgAnyTag = .ok ({ ret := .notDone }, t') := by
  obtain ⟨e, rest, hq, hnone⟩ := otherEvent_iff.mp h
  exact ⟨_, gniSmsgGetNext_none hq hnone, gniSmsgGetNextWTag_none hq hnone⟩

/-- The two calls agree exactly on other events: with no event neither returns, and of a short message
only the plain call stores the address. -/
theorem getsAgree_iff : GetsAgree t ep ↔ t.OtherEvent ep.cqId := by
  constructor
  · rintro ⟨plain, tagged, t₁, t₂, hplain, htagged, -, hheader, -, -⟩
    cases hq : t.cqs ep.cqId with
    | nil =>
        rw [gniSmsgGetNext_nil hq] at hplain
        cases hplain
    | cons e rest =>
        refine otherEvent_iff.mpr ⟨e, rest, hq, ?_⟩
        by_contra hne
        obtain ⟨smsg, hsmsg⟩ := Option.ne_none_iff_exists'.mp hne
        have htag : tagMatches gniSmsgAnyTag smsg = true := by simp [tagMatches]
        rw [gniSmsgGetNext_some hq hsmsg] at hplain
        cases hplain
        by_cases htable : t.InTable ep.cqId
        · rw [gniSmsgGetNextWTag_match hq hsmsg htag htable] at htagged
          cases htagged
          exact absurd (hheader rfl) (by simp)
        · rw [gniSmsgGetNextWTag_outside hq hsmsg htag htable] at htagged
          cases htagged
  · intro h
    obtain ⟨t', hplain, htagged⟩ := gets_eq_of_otherEvent h
    exact ⟨_, _, t', t', hplain, htagged, rfl, fun _ => rfl, rfl, rfl⟩

theorem tag_of_sentWithTag {msg : GniSmsgMessage} {tag : BitVec 8} (h : SentWithTag msg tag) :
    msg.tag = tag.setWidth 32 := by
  cases h with
  | tagged hsent hdelivery =>
      obtain ⟨buf, -, hret⟩ := bind_eq_ok.mp hsent
      cases hret
      rw [hdelivery.made]
      rfl
  | plain hsent hdelivery =>
      obtain ⟨buf, -, hret⟩ := bind_eq_ok.mp hsent
      cases hret
      rw [hdelivery.made]
      rfl

/-- The tag that is stored has gone through an `int` and is the sender's. -/
theorem storesSendersTag (t : Transport) (ep : Ep) : StoresSendersTag t ep := by
  intro get t' smsg tag hget _ hnext hsent
  obtain ⟨e, rest, hq, hsmsg⟩ := nextSmsg_eq_some_iff.mp hnext
  have hany : tagMatches gniSmsgAnyTag smsg = true := by simp [tagMatches]
  have htag : smsg.tag.setWidth 8 = tag := by
    rw [tag_of_sentWithTag hsent, BitVec.setWidth_setWidth_of_le _ (by omega), BitVec.setWidth_eq]
  by_cases htable : t.InTable ep.cqId
  · rw [gniSmsgGetNextWTag_match hq hsmsg hany htable] at hget
    cases hget
    rw [htag]
  · rw [gniSmsgGetNextWTag_outside hq hsmsg hany htable] at hget
    cases hget

/-! ## §4 — runs -/

theorem anyGet_eq_some {a : Action} (h : a.anyGet = some ep) :
    a = .smsgGetNext ep ∨ a = .smsgGetNextWTag ep gniSmsgAnyTag := by
  cases a with
  | smsgGetNext ep' =>
      cases h
      exact Or.inl rfl
  | smsgGetNextWTag ep' tag =>
      by_cases htag : tag = gniSmsgAnyTag
      · rw [Action.anyGet, if_pos htag] at h
        cases h
        exact Or.inr (by rw [htag])
      · rw [Action.anyGet, if_neg htag] at h
        cases h
  | cqCreate newCq => cases h
  | arrive cqId e => cases h
  | cqGetEvent cqHndl => cases h
  | smsgRelease ep' => cases h

/-- A get that finds another event is observed the same whichever call it is. -/
theorem observe_anyGet {o : Observed} {a : Action} (ha : a.anyGet = some ep)
    (h : o.transport.OtherEvent ep.cqId) : observe o a = observe o (.smsgGetNext ep) := by
  obtain ⟨t', hplain, htagged⟩ := gets_eq_of_otherEvent h
  rcases anyGet_eq_some ha with rfl | rfl
  · rfl
  · rw [observe, observe, hplain, htagged]

theorem observe_mayReplace (o : Observed) (a b : Action) (hab : MayReplace a b)
    (h : FindsOtherEvent o a) : observe o b = observe o a := by
  rcases hab with rfl | ⟨ep, ha, hb⟩
  · rfl
  · rw [observe_anyGet ha (h ep ha), observe_anyGet hb (h ep ha)]

/-- **When the two calls may stand for each other.** In every run, from every state: at each get the
two calls return the same code, store the same address and leave queue and pending message the same,
the tagged one stores the sender's tag, and replacing the one by the other anywhere changes nothing,
exactly if each get that takes any message finds an event in its queue that is no short message. -/
theorem gets_interchange_iff (o : Observed) (as : List Action) :
    GetsInterchange o as ↔ StepsMeet observe FindsOtherEvent o as := by
  constructor
  · intro h
    refine h.agree.mono ?_
    intro o a hagree ep ha
    exact getsAgree_iff.mp (hagree ep ha).1
  · intro h
    refine ⟨h.mono ?_, ?_⟩
    · intro o a hother ep ha
      exact ⟨getsAgree_iff.mpr (hother ep ha), storesSendersTag o.transport ep⟩
    · intro pre hpre bs hbs
      exact run_eq_of_stepsMeet observe_mayReplace hbs (h.of_prefix hpre)

/-- The message arrives, is got and released: with `GNI_SmsgGetNext` its address is stored and the
release fails, with `GNI_SmsgGetNextWTag` no address is stored and the release succeeds. -/
theorem gets_do_not_interchange :
    let plain : List Action :=
      [.cqCreate 2, .arrive 2 (.smsg (sampleSmsg 0 5)), .smsgGetNext sampleGniEp,
        .smsgRelease sampleGniEp]
    let tagged : List Action :=
      [.cqCreate 2, .arrive 2 (.smsg (sampleSmsg 0 5)), .smsgGetNextWTag sampleGniEp gniSmsgAnyTag,
        .smsgRelease sampleGniEp]
    ¬ GetsInterchange {} plain ∧ List.Forall₂ MayReplace plain tagged ∧
      (run observe {} plain).map Observed.results =
        .ok [(.success, none), (.success, some 4096), (.invalidState, none)] ∧
      (run observe {} tagged).map Observed.results =
        .ok [(.success, none), (.success, none), (.success, none)] := by
  intro plain tagged
  have hreplace : List.Forall₂ MayReplace plain tagged :=
    .cons (.inl rfl) (.cons (.inl rfl) (.cons (.inr ⟨sampleGniEp, rfl, rfl⟩) (.cons (.inl rfl) .nil)))
  refine ⟨?_, hreplace, rfl, rfl⟩
  intro h
  have hsame := congrArg (Except.map Observed.results)
    (h.replace plain (List.prefix_refl plain) tagged hreplace)
  exact absurd hsame (by decide)

end SstTransports.Ugni
