/-
# SstTransports.Ugni.Send — short messages on their way out.

`GNI_SmsgSendWTag` copies the header and the data of a short message into one buffer and hands that to
sumi's `smsgSend`, which delivers it to the queue of the other side; `GNI_SmsgSend` is the same call
with the tag `(uint8_t) -1`.  The buffer holds the header and then the data.  The length that is
handed over with it is the length of the data alone, so the end of the message does not travel; and
the size of the buffer is a sum of two `uint32_t`, which can wrap around where the copies do not.

`smsg_carries_iff`: a message goes out whole exactly if its header has no bytes.
-/
import SstTransports.Ugni.Steps
import SstTransports.Lib.Memory

namespace SstTransports.Ugni

open SstTransports.Lib
open SstTransports.Fabric (Ptr)

/-! ## §1 — the calls -/

/-- The header or the data of a short message: null or a pointer to bytes, and how many there are. -/
structure Part where
  bytes : Option (List (BitVec 8))
  length : BitVec 32
  length_eq : length.toNat = (bytes.getD []).length

def Part.content (part : Part) : List (BitVec 8) := part.bytes.getD []

/-- `if (part) ::memcpy(buf + off, part, part_length)` -/
def copyPart (buf : Buffer (BitVec 8)) (off : Nat) (part : Part) :
    Except Fault (Buffer (BitVec 8)) :=
  match part.bytes with
  | none => .ok buf
  | some src =>
    match memcpy buf off src part.length.toNat with
    | none => .error .outOfBounds
    | some buf => .ok buf

/-- `data_buf` of `GNI_SmsgSendWTag`; the size that is allocated is a `uint32_t`. -/
def dataBuf (header data : Part) : Except Fault (Option (Buffer (BitVec 8))) := do
  if header.bytes.isNone ∧ data.bytes.isNone then return none
  else
    let buf := alloc (header.length + data.length).toNat
    let buf ← copyPart buf 0 header
    let buf ← copyPart buf header.length.toNat data
    return some buf

/-- A call of `smsgSend<GNISmsgMessage>`; the message class is always `pt2pt`.  The last three are
handed on to the message's constructor. -/
structure SmsgRequest where
  rank : BitVec 32
  byteLength : BitVec 64
  buffer : Option (Buffer (BitVec 8))
  localCq : BitVec 32
  remoteCq : BitVec 32
  qos : BitVec 32
  instId : BitVec 32
  msgId : BitVec 32
  tag : BitVec 8
  deriving DecidableEq, Repr

-- `sumi::Message::no_ack`, and the rank of the process
variable (noAck rank : BitVec 32)

/-- `GNI_SmsgSendWTag`: the code, and the request it makes. -/
def gniSmsgSendWTag (ep : Ep) (header data : Part) (msgId : BitVec 32) (tag : BitVec 8) :
    Except Fault (GniReturn × SmsgRequest) := do
  let buf ← dataBuf header data
  return (.success,
    { rank := ep.epId, byteLength := data.length.setWidth 64, buffer := buf
      localCq := noAck, remoteCq := ep.cqId, qos := 0
      instId := rank, msgId := msgId, tag := tag })

/-- `GNI_SmsgSend` -/
def gniSmsgSend (ep : Ep) (header data : Part) (msgId : BitVec 32) :
    Except Fault (GniReturn × SmsgRequest) :=
  gniSmsgSendWTag noAck rank ep header data msgId (BitVec.ofInt 8 (-1))

/-- The constructor of `GNISmsgMessage`, on the part of the message that sumi makes. -/
def SmsgRequest.message (req : SmsgRequest) (base : SumiMessage) : GniSmsgMessage :=
  { base with
    instId := req.instId.signExtend 64
    type := .fmaPut
    msgId := req.msgId.setWidth 64
    tag := req.tag.setWidth 32 }

/-! ## §2 — the promise -/

/-- The contents of the receiver's buffers. -/
abbrev Buffers := Ptr → Memory (Option (BitVec 8))

/-- What sumi delivers for a request: the message, with a buffer which holds what the sender's holds,
over the length that was asked for. -/
structure Delivery (mem : Buffers) (req : SmsgRequest) (msg : GniSmsgMessage) : Prop where
  made : msg = req.message msg.toSumiMessage
  networkType : msg.networkType = .smsgSend
  byteLength : msg.byteLength = req.byteLength
  contents : ∀ i < req.byteLength.toNat, mem msg.localBuffer i = (req.buffer.getD []).getD i none

/-- What is read of a buffer over a length. -/
def received (mem : Buffers) (buf : Ptr) (length : Nat) : Buffer (BitVec 8) :=
  (List.range length).map (mem buf)

/-- The request has the length of header and data together, which did not wrap around, and a buffer
with the header and then the data; and whoever gets the message next finds just these in the buffer,
over the length the message has. -/
structure CarriesWhole (header data : Part) (req : SmsgRequest) : Prop where
  byteLength : req.byteLength.toNat = header.length.toNat + data.length.toNat
  buffer : req.buffer.getD [] = (header.content ++ data.content).map some
  received : ∀ (mem : Buffers) (msg : GniSmsgMessage) (t : Transport) (ep : Ep) (rest : List Event),
    Delivery mem req msg → t.cqs ep.cqId = .smsg msg :: rest →
      ∃ buf t', gniSmsgGetNext t ep = .ok ({ ret := .success, header := some buf }, t') ∧
        received mem buf msg.byteLength.toNat = (header.content ++ data.content).map some

/-- The call returns, and either it returns an error or the message goes out whole. -/
def CarriesHeaderAndData (header data : Part) (sent : Except Fault (GniReturn × SmsgRequest)) : Prop :=
  ∃ ret req, sent = .ok (ret, req) ∧ (ret = .success → CarriesWhole header data req)

/-! ## §3 — the buffer -/

variable {header data : Part}

theorem Part.length_content (part : Part) : part.content.length = part.length.toNat :=
  part.length_eq.symm

/-- A part is copied to the end of what is written, or there is nothing to copy. -/
theorem copyPart_fill (done : List (BitVec 8)) (part : Part) (k : Nat) :
    copyPart (done.map some ++ alloc (part.length.toNat + k)) done.length part =
      .ok ((done ++ part.content).map some ++ alloc k) := by
  have hlength := part.length_content
  cases hbytes : part.bytes with
  | none =>
      have hnil : part.content = [] := by rw [Part.content, hbytes]; rfl
      rw [hnil] at hlength ⊢
      rw [copyPart, hbytes, ← hlength, List.length_nil, Nat.zero_add, List.append_nil]
  | some src =>
      have hsrc : part.content = src := by rw [Part.content, hbytes]; rfl
      rw [hsrc] at hlength ⊢
      rw [copyPart, hbytes, ← hlength]
      simp only [memcpy_fill]

/-- If the lengths have a sum in 32 bits, the buffer holds the header and then the data. -/
theorem dataBuf_eq (h : header.length.toNat + data.length.toNat < 2 ^ 32) :
    ∃ buf, dataBuf header data = .ok buf ∧
      buf.getD [] = (header.content ++ data.content).map some := by
  have hsum : (header.length + data.length).toNat = header.length.toNat + data.length.toNat :=
    BitVec.toNat_add_of_lt h
  have hfull : (alloc 0 : Buffer (BitVec 8)) = [] := rfl
  have hheader := copyPart_fill [] header data.length.toNat
  have hdata := copyPart_fill header.content data 0
  rw [List.map_nil, List.nil_append, List.length_nil, List.nil_append] at hheader
  rw [header.length_content, Nat.add_zero, hfull, List.append_nil] at hdata
  unfold dataBuf
  split
  · rename_i hnull
    refine ⟨none, rfl, ?_⟩
    rw [Part.content, Part.content, Option.isNone_iff_eq_none.mp hnull.1,
      Option.isNone_iff_eq_none.mp hnull.2]
    rfl
  · refine ⟨some ((header.content ++ data.content).map some), ?_, rfl⟩
    simp only [hsum, hheader, hdata, Bind.bind, Except.bind, pure, Except.pure]

/-- If they have none, the header alone is longer than the buffer. -/
theorem dataBuf_wraps (h : 2 ^ 32 ≤ header.length.toNat + data.length.toNat) :
    dataBuf header data = .error .outOfBounds := by
  have hdata := data.length.isLt
  have hsum : (header.length + data.length).toNat < header.length.toNat := by
    rw [BitVec.toNat_add]
    omega
  cases hbytes : header.bytes with
  | none =>
      have hlength := header.length_eq
      rw [hbytes, Option.getD_none, List.length_nil] at hlength
      omega
  | some src =>
      have hcopy : copyPart (alloc (header.length + data.length).toNat) 0 header =
          .error .outOfBounds := by
        rw [copyPart, hbytes]
        simp only
        rw [memcpy_eq_none]
        simpa [alloc] using hsum
      rw [dataBuf, if_neg (by simp [hbytes])]
      simp only [hcopy]
      rfl

/-! ## §4 — which messages go out whole -/

variable {noAck rank} {ep : Ep} {msgId : BitVec 32} {tag : BitVec 8}

/-- The call returns exactly if the lengths have a sum in 32 bits. -/
theorem gniSmsgSendWTag_returns_iff :
    (∃ sent, gniSmsgSendWTag noAck rank ep header data msgId tag = .ok sent) ↔
      header.length.toNat + data.length.toNat < 2 ^ 32 := by
  constructor
  · rintro ⟨sent, hsent⟩
    obtain ⟨buf, hbuf, -⟩ := bind_eq_ok.mp hsent
    by_contra hwraps
    rw [dataBuf_wraps (Nat.le_of_not_lt hwraps)] at hbuf
    cases hbuf
  · intro h
    obtain ⟨buf, hbuf, -⟩ := dataBuf_eq h
    exact ⟨_, by rw [gniSmsgSendWTag, hbuf]; rfl⟩

/-- What a get returns of a message that is delivered: the first bytes of what was sent, as many as
the request has said. -/
theorem received_of_delivery {mem : Buffers} {req : SmsgRequest} {msg : GniSmsgMessage}
    (hdelivery : Delivery mem req msg) (hlength : req.byteLength.toNat = (req.buffer.getD []).length)
    {t : Transport} {rest : List Event} (hq : t.cqs ep.cqId = .smsg msg :: rest) :
    ∃ buf t', gniSmsgGetNext t ep = .ok ({ ret := .success, header := some buf }, t') ∧
      received mem buf msg.byteLength.toNat = req.buffer.getD [] := by
  have hnext : (Event.smsg msg).nextSmsg = some msg :=
    nextSmsg_eq_some.mpr ⟨rfl, hdelivery.networkType⟩
  refine ⟨_, _, gniSmsgGetNext_some hq hnext, ?_⟩
  rw [hdelivery.byteLength, received]
  apply List.ext_getElem
  · rw [List.length_map, List.length_range, hlength]
  · intro i h₁ h₂
    rw [List.getElem_map, List.getElem_range, hdelivery.contents i (by omega),
      List.getD_eq_getElem _ _ h₂]

theorem carries_iff : CarriesHeaderAndData header data
    (gniSmsgSendWTag noAck rank ep header data msgId tag) ↔ header.length = 0 := by
  have hdataLength : (data.length.setWidth 64).toNat = data.length.toNat :=
    BitVec.toNat_setWidth_of_le (by omega)
  constructor
  · rintro ⟨ret, req, hsent, hwhole⟩
    obtain ⟨buf, -, hret⟩ := bind_eq_ok.mp hsent
    cases hret
    have hlength := (hwhole rfl).byteLength
    rw [hdataLength] at hlength
    exact BitVec.eq_of_toNat_eq (by simp; omega)
  · intro hzero
    have hlength : header.length.toNat + data.length.toNat = data.length.toNat := by
      simp [hzero]
    have hsum : header.length.toNat + data.length.toNat < 2 ^ 32 := by
      rw [hlength]
      exact data.length.isLt
    obtain ⟨buf, hbuf, hcontent⟩ := dataBuf_eq hsum
    refine ⟨.success, _, by rw [gniSmsgSendWTag, hbuf]; rfl, fun _ => ⟨?_, hcontent, ?_⟩⟩
    · rw [hdataLength, hlength]
    · intro mem msg t ep' rest hdelivery hq
      rw [← hcontent]
      refine received_of_delivery hdelivery ?_ hq
      rw [hdataLength, hcontent, List.length_map, List.length_append, Part.length_content,
        Part.length_content, hlength]

variable (noAck rank) in
/-- **Which short messages go out whole.** For every header and data, of any lengths and null or not:
the message that `GNI_SmsgSendWTag` or `GNI_SmsgSend` hands to the transport has the length of the two
together and holds the one and then the other, and so does the buffer that `GNI_SmsgGetNext` returns,
exactly if the header has no bytes. -/
theorem smsg_carries_iff (ep : Ep) (header data : Part) (msgId : BitVec 32) (tag : BitVec 8) :
    (CarriesHeaderAndData header data (gniSmsgSendWTag noAck rank ep header data msgId tag) ↔
        header.length = 0) ∧
      (CarriesHeaderAndData header data (gniSmsgSend noAck rank ep header data msgId) ↔
        header.length = 0) := by
  refine ⟨carries_iff, ?_⟩
  -- the plain call is the tagged one with the tag `(uint8_t) -1`
  exact carries_iff

/-- A header of four bytes and data of eight: the buffer has twelve bytes, the request says eight. -/
theorem header_cut_off :
    let header : Part := ⟨some [1, 2, 3, 4], 4, rfl⟩
    let data : Part := ⟨some [5, 6, 7, 8, 9, 10, 11, 12], 8, rfl⟩
    ¬ CarriesHeaderAndData header data (gniSmsgSendWTag 0 0 ⟨0, 1, 2⟩ header data 7 3) ∧
      (gniSmsgSendWTag 0 0 ⟨0, 1, 2⟩ header data 7 3).map (fun sent => (sent.2.byteLength, sent.2.buffer)) =
        .ok (8, some ([1, 2, 3, 4, 5, 6, 7, 8, 9, 10, 11, 12].map some)) := by
  intro header data
  refine ⟨?_, rfl⟩
  rw [carries_iff]
  decide

end SstTransports.Ugni
