/-
# SstTransports.Fabric.AddressVector — addresses as text.

An address vector of this provider stores nothing: `sstmac_av_lookup` writes an address out as a
record of eight characters, and `sstmac_av_insert` reads records back.  On a `FI_ADDR_STR` domain the
record is the address in decimal, at least seven characters wide and cut to seven.

`av_round_trip_iff` says which addresses come back: those of at most seven digits, in lists that the
`int` counter of the loop can count.  A packed address with a rank other than zero has ten digits or
more.  On a `FI_ADDR_SSTMAC` domain every address comes back (`sstmac_av_round_trip`).
-/
import SstTransports.Lib.CString
import SstTransports.Fabric.Objects

namespace SstTransports.Fabric

open SstTransports.Lib

/-! ## §1 — the operations -/

/-- How an operation ends other than by returning. -/
inductive AvExit
  | fault (f : Fault)
  /-- `spkt_abort_printf` -/
  | abort
  /-- The caller's buffer ends before what is read or written does. -/
  | overrun
  /-- The counter of a loop, an `int`, is incremented past its range. -/
  | overflow
  deriving DecidableEq, Repr

/-- `SSTMAC_MAX_ADDR_CHARS` -/
def sstmacMaxAddrChars : Nat := 7

/-- `SSTMAC_MAX_ADDR_LEN` -/
def sstmacMaxAddrLen : Nat := sstmacMaxAddrChars + 1

/-- What `SSTMAC_ADDR_FORMAT_STR` makes of an address. -/
def sstmacAddrFormatStr (fiAddr : FiAddr) : List Char :=
  (Nat.toDigits 10 fiAddr.toNat).leftpad 7 ' '

/-- Writing to the front of a buffer. -/
def overwrite (buf chars : List Char) : Except AvExit (List Char) :=
  if buf.length < chars.length then .error .overrun else .ok (chars ++ buf.drop chars.length)

/-- The code returned by a lookup, the caller's buffer and `*addrlen` after it. -/
structure AvLookup where
  ret : Int
  addr : List Char
  addrlen : Nat
  deriving DecidableEq, Repr

/-- `sizeof(uint64_t)` -/
def sizeofUint64 : Nat := 8

/-- `sstmac_av_lookup` -/
def sstmacAvLookup (p : Provider) (av : Nat) (fiAddr : FiAddr) (addr : List Char) (addrlen : Nat) :
    Except AvExit AvLookup := do
  let format ← (avAddrFormat p av).mapError .fault
  if format = fiAddrSstmac then
    if addrlen < sizeofUint64 then return ⟨-fiEinval, addr, addrlen⟩
    else
      let addr ← overwrite addr (toBytes sizeofUint64 fiAddr.toNat)
      return ⟨0, addr, addrlen⟩
  else if format = fiAddrStr then
    if addrlen < sstmacMaxAddrLen then return ⟨-fiEinval, addr, addrlen⟩
    else
      let addr ← overwrite addr (snprintf sstmacMaxAddrLen (sstmacAddrFormatStr fiAddr))
      return ⟨0, addr, sstmacMaxAddrLen⟩
  else .error .abort

/-- The loops of `sstmac_av_insert`, with `todo` rounds to go before `i` is `count`. -/
def avInsertLoop (read : List Char → Option FiAddr) (stride : Nat) :
    (todo i : Nat) → List Char → Except AvExit (List FiAddr)
  | 0, _, _ => .ok []
  | todo + 1, i, addr =>
    match read addr with
    | none => .error .overrun
    | some fiAddr =>
      if i = 2 ^ 31 - 1 then .error .overflow
      else (avInsertLoop read stride todo (i + 1) (addr.drop stride)).map (fiAddr :: ·)

/-- `fi_addr[i] = std::atoll(addr_str)` -/
def readStr (addr : List Char) : Option FiAddr := (atoll addr).map (BitVec.ofInt 64)

/-- `fi_addr[i] = addr_list[i]` -/
def readSstmac (addr : List Char) : Option FiAddr :=
  if addr.length < sizeofUint64 then none
  else some (BitVec.ofNat 64 (ofBytes (addr.take sizeofUint64)))

/-- `sstmac_av_insert`: the code it returns, and what it writes to `fi_addr`. -/
def sstmacAvInsert (p : Provider) (av : Nat) (addr : List Char) (count : Nat) :
    Except AvExit (Int × List FiAddr) := do
  let format ← (avAddrFormat p av).mapError .fault
  if format = fiAddrStr then
    let fiAddrs ← avInsertLoop readStr sstmacMaxAddrLen count 0 addr
    return (0, fiAddrs)
  else if format = fiAddrSstmac then
    let fiAddrs ← avInsertLoop readSstmac sizeofUint64 count 0 addr
    return (0, fiAddrs)
  else .error .abort

/-! ## §2 — the promise -/

/-- The arguments of a lookup. -/
structure LookupCall where
  fiAddr : FiAddr
  addr : List Char
  addrlen : Nat
  deriving DecidableEq, Repr

/-- The record a lookup has written, if it accepts. -/
def avRecord (p : Provider) (av : Nat) (c : LookupCall) : Option (List Char) :=
  match sstmacAvLookup p av c.fiAddr c.addr c.addrlen with
  | .ok r => if r.ret = 0 then some (r.addr.take r.addrlen) else none
  | .error _ => none

/-- Inserting the records returns the addresses, and different addresses have different records. -/
def RecordsRoundTrip (p : Provider) (av : Nat) (calls : List LookupCall)
    (records : List (List Char)) : Prop :=
  sstmacAvInsert p av records.flatten calls.length = .ok (0, calls.map (·.fiAddr)) ∧
    ∀ c ∈ calls, ∀ d ∈ calls, c.fiAddr ≠ d.fiAddr → avRecord p av c ≠ avRecord p av d

/-! ## §3 — records -/

variable {p : Provider} {av : Nat}

/-- The record of an address on a `FI_ADDR_STR` domain. -/
def strRecord (fiAddr : FiAddr) : List Char :=
  snprintf sstmacMaxAddrLen (sstmacAddrFormatStr fiAddr)

/-- The digits that are left of an address. -/
def keptDigits (fiAddr : FiAddr) : List Char :=
  (Nat.toDigits 10 fiAddr.toNat).take sstmacMaxAddrChars

/-- The address that is read of a record. -/
def readBack (fiAddr : FiAddr) : FiAddr :=
  BitVec.ofNat 64 (Nat.ofDigitChars 10 (keptDigits fiAddr) 0)

/-- A record is blanks, the digits that are left, and the terminator. -/
theorem strRecord_eq (fiAddr : FiAddr) :
    strRecord fiAddr =
      List.replicate (sstmacMaxAddrChars - (Nat.toDigits 10 fiAddr.toNat).length) ' ' ++
        keptDigits fiAddr ++ [nul] := by
  rw [strRecord, sstmacMaxAddrLen, snprintf, sstmacAddrFormatStr]
  exact congrArg (· ++ [nul]) (take_leftpad sstmacMaxAddrChars ' ' _)

theorem length_strRecord (fiAddr : FiAddr) : (strRecord fiAddr).length = sstmacMaxAddrLen := by
  simp only [strRecord_eq, keptDigits, List.length_append, List.length_replicate, List.length_take,
    List.length_singleton, sstmacMaxAddrLen]
  omega

theorem keptDigits_isDigit {fiAddr : FiAddr} {c : Char} (h : c ∈ keptDigits fiAddr) :
    c.isDigit = true :=
  Nat.isDigit_of_mem_toDigits (by decide) (by decide) (List.mem_of_mem_take h)

theorem ofDigitChars_keptDigits_lt (fiAddr : FiAddr) :
    Nat.ofDigitChars 10 (keptDigits fiAddr) 0 < 10 ^ 7 := by
  have hlength : (keptDigits fiAddr).length ≤ 7 := List.length_take_le _ _
  calc Nat.ofDigitChars 10 (keptDigits fiAddr) 0 < 10 ^ (keptDigits fiAddr).length :=
        ofDigitChars_lt fun _ hc => keptDigits_isDigit hc
    _ ≤ 10 ^ 7 := Nat.pow_le_pow_right (by decide) hlength

/-- What is read of a record, whatever comes after it. -/
theorem readStr_strRecord (fiAddr : FiAddr) (rest : List Char) :
    readStr (strRecord fiAddr ++ rest) = some (readBack fiAddr) := by
  have hlt := ofDigitChars_keptDigits_lt fiAddr
  have hne : keptDigits fiAddr ≠ [] := by
    simp [keptDigits, sstmacMaxAddrChars, Nat.toDigits_ne_nil]
  rw [readStr, strRecord_eq, List.append_assoc, List.singleton_append,
    atoll_digits _ rest (fun _ hc => keptDigits_isDigit hc) hne rfl (by omega)]
  exact congrArg some (BitVec.ofInt_natCast _ _)

/-- An address is read back exactly if it has at most seven digits. -/
theorem readBack_eq_iff (fiAddr : FiAddr) : readBack fiAddr = fiAddr ↔ fiAddr.toNat < 10 ^ 7 := by
  have hlt := ofDigitChars_keptDigits_lt fiAddr
  constructor
  · intro h
    have htoNat := congrArg BitVec.toNat h
    rw [readBack, BitVec.toNat_ofNat, Nat.mod_eq_of_lt (by omega)] at htoNat
    omega
  · intro h
    have hlength : (Nat.toDigits 10 fiAddr.toNat).length ≤ sstmacMaxAddrChars :=
      (Nat.length_toDigits_le_iff (by decide) (by decide)).mpr h
    rw [readBack, keptDigits, List.take_of_length_le hlength, Nat.ofDigitChars_ten_toDigits,
      BitVec.ofNat_toNat, BitVec.setWidth_eq]

theorem readSstmac_toBytes (fiAddr : FiAddr) (rest : List Char) :
    readSstmac (toBytes sizeofUint64 fiAddr.toNat ++ rest) = some fiAddr := by
  have hlength := length_toBytes sizeofUint64 fiAddr.toNat
  have htake : (toBytes sizeofUint64 fiAddr.toNat ++ rest).take sizeofUint64 =
      toBytes sizeofUint64 fiAddr.toNat := by
    rw [List.take_append_of_le_length (Nat.le_of_eq hlength.symm),
      List.take_of_length_le (Nat.le_of_eq hlength)]
  rw [readSstmac, if_neg (by simp [hlength]), htake, ofBytes_toBytes _ _ fiAddr.isLt,
    BitVec.ofNat_toNat, BitVec.setWidth_eq]

/-! ## §4 — lists of records -/

/-- The loop over records of one size, each of which is read on its own: it returns what is read, or
its counter overflows. -/
theorem avInsertLoop_records {read : List Char → Option FiAddr} {record : FiAddr → List Char}
    {stride : Nat} {f : FiAddr → FiAddr} (hlength : ∀ a, (record a).length = stride)
    (hread : ∀ a rest, read (record a ++ rest) = some (f a)) (as : List FiAddr) {i : Nat}
    (hi : i < 2 ^ 31) :
    avInsertLoop read stride as.length i (as.map record).flatten =
      if i + as.length < 2 ^ 31 then .ok (as.map f) else .error .overflow := by
  induction as generalizing i with
  | nil => rw [List.length_nil, Nat.add_zero, if_pos hi]; rfl
  | cons a as ih =>
      have hdrop : (record a ++ (as.map record).flatten).drop stride = (as.map record).flatten := by
        rw [← hlength a, List.drop_left]
      rw [List.map_cons, List.flatten_cons, List.length_cons, avInsertLoop, hread]
      simp only
      by_cases hlast : i = 2 ^ 31 - 1
      · rw [if_pos hlast, if_neg (by omega)]
      · rw [if_neg hlast, hdrop, ih (by omega)]
        by_cases hcount : i + 1 + as.length < 2 ^ 31
        · rw [if_pos hcount, if_pos (by omega)]
          rfl
        · rw [if_neg hcount, if_neg (by omega)]
          rfl

/-- A lookup on a `FI_ADDR_STR` domain accepts if there is room for a record, and writes it. -/
theorem avRecord_str (hformat : avAddrFormat p av = .ok fiAddrStr) (c : LookupCall) :
    avRecord p av c =
      if c.addrlen < sstmacMaxAddrLen ∨ c.addr.length < sstmacMaxAddrLen then none
      else some (strRecord c.fiAddr) := by
  have hlength := length_strRecord c.fiAddr
  have hne : fiAddrStr ≠ fiAddrSstmac := by decide
  simp only [avRecord, sstmacAvLookup, hformat, Except.mapError, bind, Except.bind, if_neg hne, if_true]
  by_cases hlen : c.addrlen < sstmacMaxAddrLen
  · rw [if_pos (Or.inl hlen), if_pos hlen]
    simp [fiEinval, pure, Except.pure]
  · rw [if_neg hlen, ← strRecord, overwrite, hlength]
    by_cases hroom : c.addr.length < sstmacMaxAddrLen
    · simp [hroom]
    · simp [hroom, hlen, pure, Except.pure, hlength]

/-- Lists of accepted lookups, record by record. -/
theorem records_eq {record : FiAddr → List Char} {calls : List LookupCall}
    {records : List (List Char)} (h : calls.map (avRecord p av) = records.map some)
    (hrecord : ∀ c ∈ calls, ∀ r, avRecord p av c = some r → r = record c.fiAddr) :
    records = (calls.map (·.fiAddr)).map record := by
  induction calls generalizing records with
  | nil => simpa using h
  | cons c calls ih =>
      cases records with
      | nil => cases h
      | cons r records =>
          obtain ⟨hc, hcs⟩ := List.cons.inj h
          rw [List.map_cons, List.map_cons, ← hrecord c List.mem_cons_self r hc,
            ← ih hcs fun d hd => hrecord d (List.mem_cons_of_mem c hd)]

/-- Inserting the records of a list of addresses. -/
theorem sstmacAvInsert_str (hformat : avAddrFormat p av = .ok fiAddrStr) (as : List FiAddr) :
    sstmacAvInsert p av (as.map strRecord).flatten as.length =
      if as.length < 2 ^ 31 then .ok (0, as.map readBack) else .error .overflow := by
  have hloop := avInsertLoop_records length_strRecord readStr_strRecord as (i := 0) (by decide)
  rw [Nat.zero_add] at hloop
  simp only [sstmacAvInsert, hformat, Except.mapError, bind, Except.bind, if_true, hloop]
  by_cases hcount : as.length < 2 ^ 31
  · rw [if_pos hcount, if_pos hcount]
    rfl
  · rw [if_neg hcount, if_neg hcount]

/-- Short addresses with one record are one. -/
theorem strRecord_inj {a b : FiAddr} (ha : a.toNat < 10 ^ 7) (hb : b.toNat < 10 ^ 7)
    (h : strRecord a = strRecord b) : a = b := by
  have hread : some (readBack a) = some (readBack b) := by
    rw [← readStr_strRecord a [], ← readStr_strRecord b [], h]
  rwa [(readBack_eq_iff a).mpr ha, (readBack_eq_iff b).mpr hb, Option.some.injEq] at hread

/-- A lookup on a `FI_ADDR_SSTMAC` domain with room for just a record. -/
theorem avRecord_sstmac (hformat : avAddrFormat p av = .ok fiAddrSstmac) {c : LookupCall}
    (hlen : c.addrlen = sizeofUint64) {r : List Char} (h : avRecord p av c = some r) :
    r = toBytes sizeofUint64 c.fiAddr.toNat := by
  have hlength := length_toBytes sizeofUint64 c.fiAddr.toNat
  simp only [avRecord, sstmacAvLookup, hformat, Except.mapError, bind, Except.bind, if_true, hlen,
    lt_irrefl, if_false, overwrite, hlength] at h
  by_cases hroom : c.addr.length < sizeofUint64
  · simp [hroom] at h
  · simpa [hroom, pure, Except.pure, hlength] using h.symm

/-- On a `FI_ADDR_SSTMAC` domain every address comes back. -/
theorem sstmac_av_round_trip (hformat : avAddrFormat p av = .ok fiAddrSstmac)
    {calls : List LookupCall} {records : List (List Char)}
    (hlen : ∀ c ∈ calls, c.addrlen = sizeofUint64)
    (hrecords : calls.map (avRecord p av) = records.map some) (hcount : calls.length < 2 ^ 31) :
    sstmacAvInsert p av records.flatten calls.length = .ok (0, calls.map (·.fiAddr)) := by
  have hne : fiAddrSstmac ≠ fiAddrStr := by decide
  have hloop := avInsertLoop_records (fun a => length_toBytes sizeofUint64 a.toNat)
    readSstmac_toBytes (calls.map (·.fiAddr)) (i := 0) (by decide)
  rw [← records_eq hrecords fun c hc r => avRecord_sstmac hformat (hlen c hc), List.length_map,
    Nat.zero_add, if_pos hcount, List.map_id'] at hloop
  simp only [sstmacAvInsert, hformat, Except.mapError, bind, Except.bind, if_neg hne, if_true, hloop]
  rfl

/-- **Which addresses come back.** On a `FI_ADDR_STR` domain, for any list of lookups that are
accepted, inserting the records they have written returns the addresses that were looked up exactly
if all of these are below ten million and there are fewer than 2^31. -/
theorem av_round_trip_iff (p : Provider) (av : Nat) (hformat : avAddrFormat p av = .ok fiAddrStr)
    (calls : List LookupCall) (records : List (List Char))
    (hrecords : calls.map (avRecord p av) = records.map some) :
    RecordsRoundTrip p av calls records ↔
      (∀ c ∈ calls, c.fiAddr.toNat < 10 ^ 7) ∧ calls.length < 2 ^ 31 := by
  have hrecord : ∀ c r, avRecord p av c = some r → r = strRecord c.fiAddr := by
    intro c r h
    rw [avRecord_str hformat] at h
    split at h
    · cases h
    · exact (Option.some.inj h).symm
  have hinsert := sstmacAvInsert_str hformat (calls.map (·.fiAddr))
  rw [List.length_map, ← records_eq hrecords fun c _ => hrecord c] at hinsert
  constructor
  · rintro ⟨hback, -⟩
    rw [hinsert] at hback
    split at hback
    · rename_i hcount
      refine ⟨?_, hcount⟩
      intro c hc
      have hmap : (calls.map (·.fiAddr)).map readBack = calls.map (·.fiAddr) :=
        (Prod.mk.inj (Except.ok.inj hback)).2
      rw [List.map_map] at hmap
      exact (readBack_eq_iff _).mp (List.map_inj_left.mp hmap c hc)
    · cases hback
  · rintro ⟨hshort, hcount⟩
    refine ⟨?_, ?_⟩
    · rw [hinsert, if_pos hcount, List.map_map]
      refine congrArg (fun l => Except.ok (0, l)) (List.map_congr_left ?_)
      intro c hc
      exact (readBack_eq_iff _).mpr (hshort c hc)
    · intro c hc d hd hne heq
      have hmem : avRecord p av c ∈ records.map some := hrecords ▸ List.mem_map_of_mem hc
      obtain ⟨r, -, hr⟩ := List.mem_map.mp hmem
      have hsame : strRecord c.fiAddr = strRecord d.fiAddr :=
        (hrecord c r hr.symm).symm.trans (hrecord d r (heq ▸ hr.symm))
      exact hne (strRecord_inj (hshort c hc) (hshort d hd) hsame)

/-- An address vector on a domain whose addresses are text. -/
def strProvider : Provider where
  fabrics := [{ fclass := .fabric }]
  domains := [{ fclass := .domain, fabric := some 0, addrFormat := fiAddrStr }]
  avs := [{ fclass := .av, domain := some 0 }]

/-- A lookup into a buffer of eight characters. -/
def lookupInto (fiAddr : FiAddr) : LookupCall := ⟨fiAddr, List.replicate 8 nul, 8⟩

theorem av_round_trip_iff_ranks :
    RecordsRoundTrip strProvider 0 [lookupInto 0, lookupInto 42, lookupInto 9999999]
      [strRecord 0, strRecord 42, strRecord 9999999] :=
  (av_round_trip_iff strProvider 0 rfl _ _ rfl).mpr ⟨by decide, by decide⟩

/-- The addresses of the first two queues of rank 1, 4294967296 and 4294967297, have one record, and
what comes back for both is 4294967. -/
theorem packed_addresses_collide :
    [lookupInto (packAddr 1 0 0), lookupInto (packAddr 1 0 1)].map (avRecord strProvider 0) =
        [strRecord (packAddr 1 0 0), strRecord (packAddr 1 0 1)].map some ∧
      ¬ RecordsRoundTrip strProvider 0 [lookupInto (packAddr 1 0 0), lookupInto (packAddr 1 0 1)]
        [strRecord (packAddr 1 0 0), strRecord (packAddr 1 0 1)] ∧
      packAddr 1 0 0 ≠ packAddr 1 0 1 ∧
      strRecord (packAddr 1 0 0) = strRecord (packAddr 1 0 1) ∧
      sstmacAvInsert strProvider 0 (strRecord (packAddr 1 0 0) ++ strRecord (packAddr 1 0 1)) 2 =
        .ok (0, [4294967, 4294967]) := by
  have hinsert : sstmacAvInsert strProvider 0
      (strRecord (packAddr 1 0 0) ++ strRecord (packAddr 1 0 1)) 2 = .ok (0, [4294967, 4294967]) := by
    decide +kernel
  refine ⟨rfl, ?_, by decide, by decide +kernel, hinsert⟩
  rintro ⟨hback, -⟩
  exact absurd hback (by decide +kernel)

end SstTransports.Fabric
