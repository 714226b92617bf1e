/-
# SstTransports.Lib.CString — text and numbers in C buffers.

A buffer is a list of characters, one a byte, and a pointer into it is what is left of it from there.
`snprintf` cuts a text to a buffer; `atoll` reads a number at the front of one, `strcpy` and `strlen`
read up to a terminator.  The rules say what is read back of a text, and of a number that was written,
with blanks in front, and cut.
-/
import Mathlib.Data.List.Induction
import Mathlib.Algebra.Group.Int.Defs
import Mathlib.Algebra.Group.Nat.Defs

namespace SstTransports.Lib

/-! ## §1 — writing -/

def nul : Char := Char.ofNat 0

/-- `snprintf` into `size` characters. -/
def snprintf (size : Nat) (text : List Char) : List Char :=
  match size with
  | 0 => []
  | size + 1 => text.take size ++ [nul]

/-- The first `size` bytes of a number, the lowest one first. -/
def toBytes : (size n : Nat) → List Char
  | 0, _ => []
  | size + 1, n => Char.ofNat (n % 256) :: toBytes size (n / 256)

/-! ## §2 — reading -/

/-- `isspace`, in the C locale -/
def isspace (c : Char) : Bool := c == ' ' || (9 ≤ c.toNat && c.toNat ≤ 13)

/-- A `long long` is as near to the number as it can be. -/
def clampLongLong (n : Int) : Int := max (-2 ^ 63) (min n (2 ^ 63 - 1))

/-- `atoll`; none if no character of the buffer ends the number. -/
def atoll (text : List Char) : Option Int :=
  let text := text.dropWhile isspace
  let negative := text.head? == some '-'
  let text := if text.head? = some '-' ∨ text.head? = some '+' then text.tail else text
  let digits := text.takeWhile Char.isDigit
  if digits.length = text.length then none
  else
    let n : Int := Nat.ofDigitChars 10 digits 0
    some (clampLongLong (if negative then -n else n))

/-- The number whose bytes these are. -/
def ofBytes : List Char → Nat
  | [] => 0
  | c :: cs => c.toNat + 256 * ofBytes cs

/-- The text that `strcpy` copies from a buffer; none if no terminator ends it. -/
def cText (buf : List Char) : Option (List Char) :=
  if nul ∈ buf then some (buf.takeWhile (· != nul)) else none

/-- `strlen` -/
def strlen (buf : List Char) : Option Nat := (cText buf).map List.length

/-! ## §3 — what was written is read back -/

theorem length_toBytes (size n : Nat) : (toBytes size n).length = size := by
  induction size generalizing n with
  | zero => rfl
  | succ size ih => rw [toBytes, List.length_cons, ih]

theorem toNat_ofNat_byte {n : Nat} (h : n < 256) : (Char.ofNat n).toNat = n := by
  rw [Char.ofNat, dif_pos (Or.inl (by omega))]
  rfl

theorem ofBytes_toBytes (size n : Nat) (h : n < 256 ^ size) : ofBytes (toBytes size n) = n := by
  induction size generalizing n with
  | zero =>
      rw [Nat.pow_zero, Nat.lt_one_iff] at h
      rw [h]
      rfl
  | succ size ih =>
      have hdiv : n / 256 < 256 ^ size := Nat.div_lt_of_lt_mul (by rwa [Nat.pow_succ'] at h)
      rw [toBytes, ofBytes, ih _ hdiv, toNat_ofNat_byte (Nat.mod_lt n (by omega))]
      omega

/-- A text is read back up to its terminator, whatever comes after it. -/
theorem cText_append {text : List Char} (h : nul ∉ text) (rest : List Char) :
    cText (text ++ nul :: rest) = some text := by
  have htext : ∀ c ∈ text, (c != nul) = true := by
    intro c hc
    rw [bne_iff_ne]
    rintro rfl
    exact h hc
  rw [cText, if_pos (by simp), List.takeWhile_append_of_pos htext,
    List.takeWhile_cons_of_neg (by simp), List.append_nil]

/-- Padding and cutting a text to one width. -/
theorem take_leftpad {α : Type*} (w : Nat) (a : α) (l : List α) :
    (l.leftpad w a).take w = List.replicate (w - l.length) a ++ l.take w := by
  rw [List.leftpad, List.take_append, List.length_replicate]
  by_cases h : w ≤ l.length
  · simp [Nat.sub_eq_zero_of_le h]
  · rw [List.take_of_length_le (by simp), List.take_of_length_le (by omega),
      List.take_of_length_le (by omega)]

theorem toNat_of_isDigit {c : Char} (h : c.isDigit = true) : 48 ≤ c.toNat ∧ c.toNat ≤ 57 :=
  Char.isDigit_iff_toNat.mp h

/-- A digit is neither blank nor a sign. -/
theorem isspace_of_isDigit {c : Char} (h : c.isDigit = true) :
    isspace c = false ∧ c ≠ '-' ∧ c ≠ '+' := by
  have hc := toNat_of_isDigit h
  refine ⟨?_, ?_, ?_⟩
  · rw [isspace, Bool.or_eq_false_iff]
    constructor
    · rw [beq_eq_false_iff_ne]
      rintro rfl
      exact absurd hc (by decide)
    · simp only [Bool.and_eq_false_iff, decide_eq_false_iff_not]
      omega
  · rintro rfl
    exact absurd hc (by decide)
  · rintro rfl
    exact absurd hc (by decide)

theorem ofDigitChars_lt {ds : List Char} (h : ∀ c ∈ ds, c.isDigit = true) :
    Nat.ofDigitChars 10 ds 0 < 10 ^ ds.length := by
  induction ds using List.reverseRecOn with
  | nil => decide
  | append_singleton ds c ih =>
      obtain ⟨hds, hc⟩ := List.forall_mem_append.mp h
      have hlt := ih hds
      have hdigit := toNat_of_isDigit (hc c List.mem_cons_self)
      rw [Nat.ofDigitChars_append, Nat.ofDigitChars_cons, Nat.ofDigitChars_nil, List.length_append,
        List.length_singleton, Nat.pow_succ]
      show 10 * Nat.ofDigitChars 10 ds 0 + (c.toNat - 48) < _
      omega

/-- **What `atoll` reads.** Blanks, then digits up to a character that is none. -/
theorem atoll_digits (blanks : Nat) {ds : List Char} {stop : Char} (rest : List Char)
    (hds : ∀ c ∈ ds, c.isDigit = true) (hne : ds ≠ []) (hstop : stop.isDigit = false)
    (hsmall : Nat.ofDigitChars 10 ds 0 < 2 ^ 63) :
    atoll (List.replicate blanks ' ' ++ ds ++ stop :: rest) = some (Nat.ofDigitChars 10 ds 0) := by
  obtain ⟨d, ds', rfl⟩ := List.exists_cons_of_ne_nil hne
  obtain ⟨hspace, hminus, hplus⟩ := isspace_of_isDigit (hds d List.mem_cons_self)
  have hblanks : (List.replicate blanks ' ' ++ (d :: ds') ++ stop :: rest).dropWhile isspace =
      (d :: ds') ++ stop :: rest := by
    rw [List.append_assoc, List.dropWhile_append_of_pos, List.cons_append, List.dropWhile_cons_of_neg]
    · simp [hspace]
    · intro c hc
      rw [List.eq_of_mem_replicate hc]
      rfl
  have hdigits : ((d :: ds') ++ stop :: rest).takeWhile Char.isDigit = d :: ds' := by
    rw [List.takeWhile_append_of_pos hds, List.takeWhile_cons_of_neg (by simp [hstop]),
      List.append_nil]
  have hhead : ((d :: ds') ++ stop :: rest).head? = some d := rfl
  have hclamp : clampLongLong (Nat.ofDigitChars 10 (d :: ds') 0) = Nat.ofDigitChars 10 (d :: ds') 0 := by
    unfold clampLongLong
    omega
  simp only [atoll, hblanks, hhead, Option.some.injEq, hminus, hplus, or_self, if_false, hdigits]
  rw [if_neg (by simp), beq_eq_false_iff_ne.mpr (by simpa using hminus)]
  exact congrArg some hclamp

end SstTransports.Lib
