import TableQuery.Operator
import TableQuery.Text.Blank
import TableQuery.Text.Case
import TableQuery.Text.Like
import TableQuery.Truth
import TableQuery.Value.Literal
import TableQuery.Value.Order

/- What the scalar operators do to values. Comparisons with null are unknown, integers are exact or
   null, and the text functions take any value by its literal. -/
namespace TableQuery

namespace Truth

/-- A value as a condition: booleans and integers can hold, and null is unknown. -/
def ofValue (v : Value) : Truth :=
  match v with
  | .null => unknown
  | .bool b => ofBool b
  | v => ofBool (v.toInt?.any (· != 0))

def toValue : Truth → Value
  | no => .bool false
  | unknown => .null
  | yes => .bool true

end Truth

namespace Value

def holds (v : Value) : Bool :=
  Truth.ofValue v == .yes

/-- What a test of the order of two values says; it fails for values that do not compare. -/
def compareWith (accept : Ordering → Bool) (a b : Value) : Truth :=
  if a.isNull || b.isNull then .unknown else .ofBool ((order? a b).any accept)

def equals (a b : Value) : Truth :=
  compareWith (· == .eq) a b

def isBetween (v low high : Value) : Truth :=
  (compareWith (·.isGE) v low).and (compareWith (·.isLE) v high)

/-- Equal to one of the values. A null among them leaves it open whether it is, if no other is equal. -/
def isAmong (v : Value) (vs : List Value) : Truth :=
  if v.isNull then .unknown
  else if vs.any fun w => equals v w == .yes then .yes
  else if vs.any isNull then .unknown
  else .no

/-- Arithmetic on integers: exact, or nothing where the divisor is zero or the quotient or the result
does not fit 64 bits. -/
def intArithmetic? (op : Operator) (x y : Int) : Option Value :=
  match op with
  | .add => ofInt64? (x + y)
  | .sub => ofInt64? (x - y)
  | .mul => ofInt64? (x * y)
  | .div => if y = 0 then none else ofInt64? (x.tdiv y)
  | .rem => if y = 0 then none else (ofInt64? (x.tdiv y)).bind fun _ => ofInt64? (x.tmod y)
  | _ => none

def doubleArithmetic? (op : Operator) (x y : Float) : Option Value :=
  match op with
  | .add => some (double (x + y))
  | .sub => some (double (x - y))
  | .mul => some (double (x * y))
  | .div => if y == 0 then none else some (double (x / y))
  | .rem => if y == 0 then none else some (double (Double.remainder x y))
  | _ => none

/-- Arithmetic on integers as integers, and on doubles if only one of the numbers is an integer. -/
def arithmetic? (op : Operator) (a b : Value) : Option Value :=
  match a.toInt?, b.toInt? with
  | some x, some y => intArithmetic? op x y
  | _, _ =>
    match a.toDouble?, b.toDouble? with
    | some x, some y => doubleArithmetic? op x y
    | _, _ => none

/-- The opposite number, of the same kind. -/
def negate : Value → Value
  | int n => (ofInt32? (-n.toInt)).getD .null
  | long n => (ofInt64? (-n.toInt)).getD .null
  | double x => double (-x)
  | _ => .null

/-- The text that text functions see: that of a text, and the literal of any other value but null. -/
def asText? : Value → Option String
  | null => none
  | text s => some s
  | v => some v.literal

def mapText (f : String → Value) (v : Value) : Value :=
  match v.asText? with
  | some s => f s
  | none => .null

def matchesLike (v pattern : Value) : Truth :=
  match v.asText?, pattern.asText? with
  | some s, some p => .ofBool (Text.like s p)
  | _, _ => .unknown

/-- The characters of `s` from `start` on, which counts from 1, as many as `length` if it is given. -/
def substring (s : String) (start : Int) (length : Option Int) : String :=
  let cs := s.toList.drop ((max start 1).toNat - 1)
  String.ofList (match length with
    | some n => cs.take n.toNat
    | none => cs)

/-- The texts of the values one after the other, or null if one of them is null. -/
def concat (vs : List Value) : Value :=
  match vs.mapM asText? with
  | some ss => text (String.join ss)
  | none => .null

def firstKnown (vs : List Value) : Value :=
  (vs.find? fun v => !v.isNull).getD .null

def textLength (s : String) : Value :=
  long (Int64.ofNat s.length)

/-- Applies a scalar operator. Arguments that are missing are null, and further ones are ignored. -/
def applyOperator (op : Operator) (v : Value) (args : List Value) : Value :=
  let first := args.headD .null
  match op with
  | .not => (Truth.ofValue v).not.toValue
  | .and => (args.foldl (fun t a => t.and (Truth.ofValue a)) (Truth.ofValue v)).toValue
  | .or => (args.foldl (fun t a => t.or (Truth.ofValue a)) (Truth.ofValue v)).toValue
  | .eq => (equals v first).toValue
  | .ne => (equals v first).not.toValue
  | .gt => (compareWith (·.isGT) v first).toValue
  | .ge => (compareWith (·.isGE) v first).toValue
  | .lt => (compareWith (·.isLT) v first).toValue
  | .le => (compareWith (·.isLE) v first).toValue
  | .like => (matchesLike v first).toValue
  | .notLike => (matchesLike v first).not.toValue
  | .isIn => (isAmong v args).toValue
  | .isNotIn => (isAmong v args).not.toValue
  | .between => (isBetween v first ((args[1]?).getD .null)).toValue
  | .isNull => .bool v.isNull
  | .isNotNull => .bool !v.isNull
  | .add | .sub | .mul | .div | .rem => (arithmetic? op v first).getD .null
  | .neg => negate v
  | .lower => mapText (fun s => text (Text.lower s)) v
  | .upper => mapText (fun s => text (Text.upper s)) v
  | .trim => mapText (fun s => text (Text.trim s)) v
  | .length => mapText textLength v
  | .substring =>
    mapText (fun s => text (substring s (first.toInt?.getD 1) ((args[1]?).bind toInt?))) v
  | .concat => concat (v :: args)
  | .coalesce => firstKnown (v :: args)
  | .count | .sum | .avg | .min | .max => .null

end Value

end TableQuery
