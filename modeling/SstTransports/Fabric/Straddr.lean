/-
# SstTransports.Fabric.Straddr — addresses for printing.

`sstmac_av_straddr` allocates eight characters and puts the printed form of an address there.  On a
`FI_ADDR_STR` domain that is the record itself, which is made for eight characters.  On a
`FI_ADDR_SSTMAC` domain it is rank, completion queue and queue in decimal with dots between them, and
the fields are taken out by `ADDR_RANK`, `ADDR_CQ` and `ADDR_QUEUE`, which report the same values for
all addresses: every address prints as `4294967295.65535.65535`, 22 characters and a terminator.

`av_straddr_iff`: an address is printed into the buffer, and told from others, exactly if its domain
has the format `FI_ADDR_STR`.
-/
import SstTransports.Fabric.Address
import SstTransports.Fabric.AddressVector

namespace SstTransports.Fabric

open SstTransports.Lib

/-! ## §1 — the operation -/

/-- What `"%" PRIu32 ".%" PRIu16 ".%" PRIu16` makes of the fields. -/
def dottedFields (rank : BitVec 32) (cq rx : BitVec 16) : List Char :=
  Nat.toDigits 10 rank.toNat ++ '.' :: Nat.toDigits 10 cq.toNat ++ '.' :: Nat.toDigits 10 rx.toNat

/-- The text that `strcpy` or `sprintf` is about to write. -/
def straddrText (p : Provider) (av : Nat) (addr : List Char) : Except AvExit (List Char) := do
  let format ← (avAddrFormat p av).mapError .fault
  if format = fiAddrStr then
    match cText addr with
    | none => .error .overrun
    | some text => return text
  else if format = fiAddrSstmac then
    match readSstmac addr with
    | none => .error .overrun
    | some a =>
      return dottedFields ((addrRank a).setWidth 32) ((addrCq a).setWidth 16)
        ((addrQueue a).setWidth 16)
  else .error .abort

/-- The buffer that is returned, and `*len`. -/
structure Straddr where
  ret : List Char
  len : Nat
  deriving DecidableEq, Repr

/-- `sstmac_av_straddr`; `fresh` is what the allocated characters hold. -/
def sstmacAvStraddr (p : Provider) (av : Nat) (addr : List Char)
    (fresh : Vector Char sstmacMaxAddrLen) : Except AvExit Straddr := do
  let text ← straddrText p av addr
  let ret ← overwrite fresh.toList (text ++ [nul])
  match strlen ret with
  | none => .error .overrun
  | some len => return ⟨ret, len⟩

/-! ## §2 — the promise -/

/-- What an application has to print: an address on a `FI_ADDR_SSTMAC` domain, a record that a lookup
has written on a `FI_ADDR_STR` domain. -/
inductive PrintableAddr (p : Provider) (av : Nat) : List Char → Prop
  | sstmac (a : FiAddr) (hformat : avAddrFormat p av = .ok fiAddrSstmac) :
      PrintableAddr p av (toBytes sizeofUint64 a.toNat)
  | str (c : LookupCall) (record : List Char) (hformat : avAddrFormat p av = .ok fiAddrStr)
      (hrecord : avRecord p av c = some record) : PrintableAddr p av record

/-- The rank, the completion queue or the queue of two addresses is not the same. -/
def FieldsDiffer (a b : FiAddr) : Prop :=
  a.extractLsb' 32 32 ≠ b.extractLsb' 32 32 ∨ a.extractLsb' 16 16 ≠ b.extractLsb' 16 16 ∨
    a.extractLsb' 0 16 ≠ b.extractLsb' 0 16

/-- The text and its terminator are no longer than the buffer, the buffer comes back with the text in
it and `*len` is its length.  On a `FI_ADDR_SSTMAC` domain an address with another rank, completion
queue or queue has another text. -/
structure PrintsFaithfully (p : Provider) (av : Nat) (addr : List Char) : Prop where
  fits : ∃ text, straddrText p av addr = .ok text ∧ text.length + 1 ≤ sstmacMaxAddrLen ∧
    ∀ fresh, ∃ ret, sstmacAvStraddr p av addr fresh = .ok ⟨ret, text.length⟩ ∧ cText ret = some text
  distinct : avAddrFormat p av = .ok fiAddrSstmac → ∀ a b : FiAddr,
    addr = toBytes sizeofUint64 a.toNat → FieldsDiffer a b →
      straddrText p av addr ≠ straddrText p av (toBytes sizeofUint64 b.toNat)

/-! ## §3 — what is printed -/

variable {p : Provider} {av : Nat} {addr text : List Char}

/-- A text that fits is what the buffer holds. -/
theorem sstmacAvStraddr_of_fits (htext : straddrText p av addr = .ok text) (hnul : nul ∉ text)
    (hfits : text.length + 1 ≤ sstmacMaxAddrLen) (fresh : Vector Char sstmacMaxAddrLen) :
    ∃ ret, sstmacAvStraddr p av addr fresh = .ok ⟨ret, text.length⟩ ∧ cText ret = some text := by
  have hread := cText_append hnul (fresh.toList.drop (text ++ [nul]).length)
  have hroom : ¬ fresh.toList.length < (text ++ [nul]).length := by
    rw [Vector.length_toList, List.length_append, List.length_singleton]
    omega
  rw [← List.singleton_append, ← List.append_assoc] at hread
  refine ⟨_, ?_, hread⟩
  simp only [sstmacAvStraddr, htext, overwrite, if_neg hroom, bind, Except.bind, strlen, hread,
    Option.map_some, pure, Except.pure]

/-- The characters of a record before its terminator. -/
def recordText (fiAddr : FiAddr) : List Char :=
  List.replicate (sstmacMaxAddrChars - (Nat.toDigits 10 fiAddr.toNat).length) ' ' ++
    keptDigits fiAddr

theorem strRecord_eq_recordText (fiAddr : FiAddr) :
    strRecord fiAddr = recordText fiAddr ++ [nul] :=
  strRecord_eq fiAddr

theorem length_recordText (fiAddr : FiAddr) :
    (recordText fiAddr).length + 1 = sstmacMaxAddrLen := by
  rw [← length_strRecord fiAddr, strRecord_eq_recordText, List.length_append, List.length_singleton]

theorem nul_notMem_recordText (fiAddr : FiAddr) : nul ∉ recordText fiAddr := by
  rw [recordText, List.mem_append, not_or]
  refine ⟨?_, ?_⟩
  · intro h
    exact absurd (List.eq_of_mem_replicate h) (by decide)
  · intro h
    exact absurd (keptDigits_isDigit h) (by decide)

/-- On a `FI_ADDR_STR` domain a record is printed as it is, less its terminator. -/
theorem straddrText_str (hformat : avAddrFormat p av = .ok fiAddrStr) (fiAddr : FiAddr) :
    straddrText p av (strRecord fiAddr) = .ok (recordText fiAddr) := by
  have hread := cText_append (nul_notMem_recordText fiAddr) []
  rw [← strRecord_eq_recordText] at hread
  simp only [straddrText, hformat, Except.mapError, bind, Except.bind, if_true, hread, pure,
    Except.pure]

/-- On a `FI_ADDR_SSTMAC` domain there is one text for all addresses. -/
theorem straddrText_sstmac (hformat : avAddrFormat p av = .ok fiAddrSstmac) (a : FiAddr) :
    straddrText p av (toBytes sizeofUint64 a.toNat) =
      .ok (dottedFields (BitVec.allOnes 32) (BitVec.allOnes 16) (BitVec.allOnes 16)) := by
  have hne : fiAddrSstmac ≠ fiAddrStr := by decide
  have hread := readSstmac_toBytes a []
  have hrank : (addrRank a).setWidth 32 = BitVec.allOnes 32 := by
    rw [addrRank_eq]
    rfl
  rw [List.append_nil] at hread
  simp only [straddrText, hformat, Except.mapError, bind, Except.bind, if_neg hne, if_true, hread,
    hrank, addrCq_setWidth, addrQueue_setWidth, pure, Except.pure]

/-- That text is too long for the buffer. -/
theorem length_dottedFields_allOnes :
    (dottedFields (BitVec.allOnes 32) (BitVec.allOnes 16) (BitVec.allOnes 16)).length = 22 := by
  decide +kernel

/-- No address of a `FI_ADDR_SSTMAC` domain is printed within the buffer. -/
theorem not_fits_sstmac (hformat : avAddrFormat p av = .ok fiAddrSstmac) (a : FiAddr) :
    ¬ PrintsFaithfully p av (toBytes sizeofUint64 a.toNat) := by
  rintro ⟨⟨text, htext, hfits, -⟩, -⟩
  rw [straddrText_sstmac hformat] at htext
  rw [← Except.ok.inj htext, length_dottedFields_allOnes] at hfits
  exact absurd hfits (by decide)

/-- Every record of a `FI_ADDR_STR` domain is. -/
theorem fits_str (hformat : avAddrFormat p av = .ok fiAddrStr) (fiAddr : FiAddr) :
    PrintsFaithfully p av (strRecord fiAddr) := by
  have htext := straddrText_str hformat fiAddr
  have hlength := Nat.le_of_eq (length_recordText fiAddr)
  refine ⟨⟨_, htext, hlength, ?_⟩, ?_⟩
  · exact sstmacAvStraddr_of_fits htext (nul_notMem_recordText fiAddr) hlength
  · intro hsstmac
    rw [hformat] at hsstmac
    exact absurd (Except.ok.inj hsstmac) (by decide)

/-- **Which addresses are printed faithfully.** For every address of a `FI_ADDR_SSTMAC` domain and
every record that a lookup has written on a `FI_ADDR_STR` domain: what `sstmac_av_straddr` prints fits
its buffer, has the length it reports and tells addresses apart exactly on a `FI_ADDR_STR` domain. -/
theorem av_straddr_iff (p : Provider) (av : Nat) (addr : List Char) (haddr : PrintableAddr p av addr) :
    PrintsFaithfully p av addr ↔ avAddrFormat p av = .ok fiAddrStr := by
  cases haddr with
  | sstmac a hformat =>
      constructor
      · intro h
        exact absurd h (not_fits_sstmac hformat a)
      · intro h
        rw [hformat] at h
        exact absurd (Except.ok.inj h) (by decide)
  | str c _ hformat hrecord =>
      rw [avRecord_str hformat] at hrecord
      split at hrecord
      · cases hrecord
      · rw [← Option.some.inj hrecord]
        exact iff_of_true (fits_str hformat c.fiAddr) hformat

theorem av_straddr_iff_rank : PrintsFaithfully strProvider 0 (strRecord 42) :=
  (av_straddr_iff strProvider 0 _ (.str (lookupInto 42) _ rfl rfl)).mpr rfl

/-- An address vector on a domain whose addresses are numbers. -/
def sstmacProvider : Provider where
  fabrics := [{ fclass := .fabric }]
  domains := [{ fclass := .domain, fabric := some 0, addrFormat := fiAddrSstmac }]
  avs := [{ fclass := .av, domain := some 0 }]

/-- The first two queues of rank 1 differ in their queue and print as one text, which overruns the
buffer. -/
theorem packed_addresses_print_alike :
    PrintableAddr sstmacProvider 0 (toBytes sizeofUint64 (packAddr 1 0 0).toNat) ∧
      FieldsDiffer (packAddr 1 0 0) (packAddr 1 0 1) ∧
      ¬ PrintsFaithfully sstmacProvider 0 (toBytes sizeofUint64 (packAddr 1 0 0).toNat) ∧
      straddrText sstmacProvider 0 (toBytes sizeofUint64 (packAddr 1 0 0).toNat) =
        straddrText sstmacProvider 0 (toBytes sizeofUint64 (packAddr 1 0 1).toNat) ∧
      straddrText sstmacProvider 0 (toBytes sizeofUint64 (packAddr 1 0 0).toNat) =
        .ok "4294967295.65535.65535".toList ∧
      sstmacAvStraddr sstmacProvider 0 (toBytes sizeofUint64 (packAddr 1 0 0).toNat)
        (Vector.replicate _ nul) = .error .overrun := by
  refine ⟨.sstmac _ rfl, ?_, not_fits_sstmac rfl _, ?_, ?_, ?_⟩
  · exact Or.inr (Or.inr (by decide))
  · rw [straddrText_sstmac rfl, straddrText_sstmac rfl]
  · decide +kernel
  · decide +kernel

end SstTransports.Fabric
