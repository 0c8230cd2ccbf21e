import TableQuery.Text.Hex

/- Universally unique identifiers: 128 bits, written as five groups of lower case digits. -/
namespace TableQuery

structure Uuid where
  bits : BitVec 128
  deriving DecidableEq, Repr

namespace Uuid

/-- The order of the bits read as a number. -/
def order (a b : Uuid) : Ordering :=
  compare a.bits.toNat b.bits.toNat

def text (u : Uuid) : String :=
  let digits := Text.hexDigits u.bits.toNat 32
  let group (start length : Nat) := String.ofList ((digits.drop start).take length)
  "-".intercalate [group 0 8, group 8 4, group 12 4, group 16 4, group 20 12]

/-- Reads the five groups, in either case. -/
def parse? (s : String) : Option Uuid :=
  let cs := s.toList
  let digits := cs.filter (· ≠ '-')
  let dashes := [8, 13, 18, 23].all fun i => cs[i]? = some '-'
  if cs.length = 36 ∧ digits.length = 32 ∧ dashes then
    (Text.hexNumber? digits).map fun n => ⟨BitVec.ofNat 128 n⟩
  else none

end Uuid

end TableQuery
