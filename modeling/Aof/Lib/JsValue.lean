import Aof.Lib.Dict
import Mathlib.Data.Rat.Defs
import Mathlib.Algebra.Order.Ring.Rat
import Mathlib.Data.Rat.Floor

/-!
# JavaScript values

The part of the language that a condition on untyped data can observe: the JSON-like values,
property reads, strict equality, `Array.prototype.includes`, the conversion of a value to a number
and the numeric comparison.  Only own properties are read; objects compare by identity, so two
values that come from different places are never equal as objects.
-/

/-- A Number: a rational, an infinity or `NaN`.  The two zeros are not told apart, which no
operation of this module can observe. -/
inductive JsNumber where
  | finite (value : Rat)
  | posInf
  | negInf
  | nan
  deriving DecidableEq, Repr

namespace JsNumber

def less : JsNumber → JsNumber → Bool
  | nan, _ | _, nan => false
  | finite a, finite b => decide (a < b)
  | negInf, b => decide (b ≠ negInf)
  | _, negInf => false
  | posInf, _ => false
  | finite _, posInf => true

/-- `a <= b` is "not `b < a`", except on `NaN`. -/
def lessEq (a b : JsNumber) : Bool :=
  decide (a ≠ nan) && decide (b ≠ nan) && !less b a

def strictEq (a b : JsNumber) : Bool :=
  decide (a ≠ nan) && decide (a = b)

/-- The quotient `num / den` rounded to an integer, ties to even. -/
def roundHalfEven (num den : Nat) : Nat :=
  let quotient := num / den
  let twice := 2 * (num % den)
  if twice < den ∨ (twice = den ∧ quotient % 2 = 0) then quotient else quotient + 1

/-- The double nearest to `num / den`: 53 significant bits, exponents from -1074, overflow to
infinity. -/
def nearestDouble (num den : Nat) : JsNumber :=
  if num = 0 then finite 0
  else
    let guess : Int := num.log2 - den.log2
    let isFloor := if 0 ≤ guess then den * 2 ^ guess.toNat ≤ num
      else den ≤ num * 2 ^ (-guess).toNat
    let exponent := if isFloor then guess else guess - 1
    let ulp := max (exponent - 52) (-1074)
    if 0 ≤ ulp then
      let rounded := roundHalfEven num (den * 2 ^ ulp.toNat) * 2 ^ ulp.toNat
      if 2 ^ 1024 ≤ rounded then posInf else finite rounded
    else
      let scale := 2 ^ (-ulp).toNat
      finite (mkRat (roundHalfEven (num * scale) den) scale)

def negate : JsNumber → JsNumber
  | finite value => finite (-value)
  | posInf => negInf
  | negInf => posInf
  | nan => nan

end JsNumber

namespace JsString

/-- The characters that `trim` removes and that may surround a numeric literal. -/
def isWhitespace (c : Char) : Bool :=
  c.toNat ∈ [0x09, 0x0A, 0x0B, 0x0C, 0x0D, 0x20, 0xA0, 0x1680, 0x2028, 0x2029, 0x202F, 0x205F,
    0x3000, 0xFEFF] || (0x2000 ≤ c.toNat && c.toNat ≤ 0x200A)

def trim (cs : List Char) : List Char :=
  ((cs.dropWhile isWhitespace).reverse.dropWhile isWhitespace).reverse

def digit? (base : Nat) (c : Char) : Option Nat :=
  let value :=
    if '0' ≤ c ∧ c ≤ '9' then some (c.toNat - '0'.toNat)
    else if 'a' ≤ c ∧ c ≤ 'f' then some (c.toNat - 'a'.toNat + 10)
    else if 'A' ≤ c ∧ c ≤ 'F' then some (c.toNat - 'A'.toNat + 10)
    else none
  value.filter (· < base)

def digits? (base : Nat) (cs : List Char) : Option Nat :=
  cs.foldlM (fun acc c => (digit? base c).map fun d => acc * base + d) 0

/-- A canonical array index: decimal digits without a leading zero, below `2 ^ 32 - 1`. -/
def arrayIndex? (key : String) : Option Nat :=
  match key.toList with
  | [] => none
  | ['0'] => some 0
  | '0' :: _ => none
  | cs => (digits? 10 cs).filter (· < 2 ^ 32 - 1)

/-- `digits`, `digits.digits`, `.digits` or `digits.` as a numerator over a power of ten. -/
def mantissa? (cs : List Char) : Option (Nat × Nat) :=
  match cs.splitOn '.' with
  | [whole] => if whole = [] then none else (digits? 10 whole).map fun n => (n, 0)
  | [whole, fraction] =>
      if whole = [] ∧ fraction = [] then none
      else (digits? 10 (whole ++ fraction)).map fun n => (n, fraction.length)
  | _ => none

def exponent? : List Char → Option Int
  | '-' :: cs => if cs = [] then none else (digits? 10 cs).map fun n => -(n : Int)
  | '+' :: cs => if cs = [] then none else (digits? 10 cs).map fun n => (n : Int)
  | cs => if cs = [] then none else (digits? 10 cs).map fun n => (n : Int)

def unsignedDecimal (cs : List Char) : JsNumber :=
  if cs = "Infinity".toList then .posInf
  else
    let parts : Option (List Char × Int) :=
      match cs.splitOnP fun c => c == 'e' || c == 'E' with
      | [mantissa] => some (mantissa, 0)
      | [mantissa, exponent] => (exponent? exponent).map fun e => (mantissa, e)
      | _ => none
    match parts with
    | none => .nan
    | some (mantissa, e) =>
        match mantissa? mantissa with
        | none => .nan
        | some (n, scale) =>
            let power := e - scale
            if 0 ≤ power then .nearestDouble (n * 10 ^ power.toNat) 1
            else .nearestDouble n (10 ^ (-power).toNat)

def radixLiteral (base : Nat) (cs : List Char) : JsNumber :=
  match cs, digits? base cs with
  | [], _ | _, none => .nan
  | _, some n => .nearestDouble n 1

def toNumber (text : String) : JsNumber :=
  match trim text.toList with
  | [] => .finite 0
  | '0' :: 'x' :: cs | '0' :: 'X' :: cs => radixLiteral 16 cs
  | '0' :: 'o' :: cs | '0' :: 'O' :: cs => radixLiteral 8 cs
  | '0' :: 'b' :: cs | '0' :: 'B' :: cs => radixLiteral 2 cs
  | '-' :: cs => (unsignedDecimal cs).negate
  | '+' :: cs => unsignedDecimal cs
  | cs => unsignedDecimal cs

def splitDots (text : String) : List String :=
  (text.toList.splitOn '.').map String.ofList

end JsString

inductive JsValue where
  | undefined
  | null
  | bool (value : Bool)
  | num (value : JsNumber)
  | str (value : String)
  | arr (items : List JsValue)
  | obj (properties : List (String × JsValue))
  deriving Repr

abbrev JsObject := List (String × JsValue)

namespace JsValue

/-- `value[key]` on a value whose `typeof` is `"object"`; `none` on any other value. -/
def readProperty (key : String) : JsValue → Option JsValue
  | arr items =>
      if key = "length" then some (num (.finite items.length))
      else some (((JsString.arrayIndex? key).bind (items[·]?)).getD undefined)
  | obj properties => some ((Dict.getEntries key properties).getD undefined)
  | _ => none

def strictEq : JsValue → JsValue → Bool
  | undefined, undefined => true
  | null, null => true
  | bool a, bool b => a == b
  | num a, num b => a.strictEq b
  | str a, str b => a == b
  | _, _ => false

def isTruthy : JsValue → Bool
  | undefined | null => false
  | bool value => value
  | num value => !(value = .finite 0 ∨ value = .nan)
  | str text => text ≠ ""
  | arr _ | obj _ => true

/-- The comparison of `includes`, which finds `NaN`. -/
def sameValueZero : JsValue → JsValue → Bool
  | num a, num b => decide (a = b)
  | a, b => strictEq a b

def includes (items : List JsValue) (value : JsValue) : Bool :=
  items.any (sameValueZero · value)

/-- The number that a comparison with a number sees.  An array converts through its string: none
of several elements, joined by commas, is a numeric literal, and one element stands for itself,
`null` and `undefined` as the empty string. -/
def toNumber : JsValue → JsNumber
  | undefined => .nan
  | null => .finite 0
  | bool value => .finite (if value then 1 else 0)
  | num value => value
  | str value => JsString.toNumber value
  | arr [] => .finite 0
  | arr [undefined] => .finite 0
  | arr [null] => .finite 0
  | arr [bool _] => .nan
  | arr [item] => toNumber item
  | arr _ => .nan
  | obj _ => .nan

end JsValue

namespace Dict

/-- `Object.entries`: the array-index keys in ascending order, then the others as they were set. -/
def objectEntries {Value : Type*} (d : Dict String Value) : List (String × Value) :=
  let isIndex (entry : String × Value) := (JsString.arrayIndex? entry.1).isSome
  (d.entries.filter isIndex).insertionSort
      (fun a b => (JsString.arrayIndex? a.1).getD 0 ≤ (JsString.arrayIndex? b.1).getD 0) ++
    d.entries.filter fun entry => !isIndex entry

theorem mem_objectEntries {Value : Type*} {d : Dict String Value} {entry : String × Value} :
    entry ∈ d.objectEntries ↔ entry ∈ d.entries := by
  unfold objectEntries
  simp only [List.mem_append, List.mem_insertionSort, List.mem_filter]
  by_cases hindex : (JsString.arrayIndex? entry.1).isSome <;> simp [hindex]

end Dict

/-!
## The arithmetic of JavaScript numbers

The operations on doubles: the exact result is rounded to the nearest one.  A zero counts as
positive.
-/

namespace JsNumber

def ofRat (value : Rat) : JsNumber :=
  if value < 0 then negate (nearestDouble value.num.natAbs value.den)
  else nearestDouble value.num.natAbs value.den

def isFinite : JsNumber → Bool
  | finite _ => true
  | _ => false

def signedInf (value : Rat) : JsNumber :=
  if value = 0 then nan else if value < 0 then negInf else posInf

def add : JsNumber → JsNumber → JsNumber
  | nan, _ | _, nan => nan
  | posInf, negInf | negInf, posInf => nan
  | posInf, _ | _, posInf => posInf
  | negInf, _ | _, negInf => negInf
  | finite a, finite b => ofRat (a + b)

def mul : JsNumber → JsNumber → JsNumber
  | nan, _ | _, nan => nan
  | posInf, posInf | negInf, negInf => posInf
  | posInf, negInf | negInf, posInf => negInf
  | posInf, finite a | finite a, posInf => signedInf a
  | negInf, finite a | finite a, negInf => signedInf (-a)
  | finite a, finite b => ofRat (a * b)

def div : JsNumber → JsNumber → JsNumber
  | nan, _ | _, nan => nan
  | finite _, posInf | finite _, negInf => finite 0
  | posInf, finite b => if b < 0 then negInf else posInf
  | negInf, finite b => if b < 0 then posInf else negInf
  | posInf, _ | negInf, _ => nan
  | finite a, finite b => if b = 0 then signedInf a else ofRat (a / b)

def max (a b : JsNumber) : JsNumber :=
  if a = nan ∨ b = nan then nan else if less a b then b else a

def ceil : JsNumber → JsNumber
  | finite value => finite ⌈value⌉
  | number => number

theorem less_self (number : JsNumber) : less number number = false := by
  cases number with
  | finite value => exact decide_eq_false (lt_irrefl value)
  | _ => rfl

theorem max_zero_of_lessEq {number : JsNumber} (hle : lessEq number (finite 0) = true) :
    max (finite 0) number = finite 0 := by
  simp only [lessEq, Bool.and_eq_true, decide_eq_true_eq, Bool.not_eq_true'] at hle
  obtain ⟨⟨hnan, -⟩, hless⟩ := hle
  rw [max, if_neg (by simp [hnan]), hless]
  rfl

end JsNumber
