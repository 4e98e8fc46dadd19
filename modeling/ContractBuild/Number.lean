/-! Numbers and their decimal texts: natural numbers by their digits, unsigned numbers that may
stand behind a plus sign, and binary64 numbers. These are a sign, a whole significand and a power of
two; a ratio is rounded to the nearest of them, a tie to the even significand, and arithmetic rounds
the exact ratio. A binary64 number is written as the shortest decimal that reads back as it, and of
those with so many digits the nearest: for one digit, two digits and so on, the value's two
neighbours on that decimal grid are tried against the interval of reals that round to the number. -/

namespace ContractBuild

namespace Digits

def digits (n : Nat) : List Char := Nat.toDigits 10 n

def value (c : Char) : Nat := c.toNat - '0'.toNat

def push (n : Nat) (c : Char) : Nat := 10 * n + value c

def number (digits : List Char) : Nat := digits.foldl push 0

@[simp] theorem number_digits (n : Nat) : number (digits n) = n := Nat.ofDigitChars_ten_toDigits

theorem digits_ne_nil (n : Nat) : digits n ≠ [] := Nat.toDigits_ne_nil

def text (n : Nat) : String := .ofList (digits n)

end Digits

namespace Unsigned

inductive Fault
  | empty
  | notDigit
  | tooLarge
  deriving DecidableEq, Repr

def Fault.message : Fault → String
  | empty => "cannot parse integer from empty string"
  | notDigit => "invalid digit found in string"
  | tooLarge => "number too large to fit in target type"

def append (limit n : Nat) : List Char → Except Fault Nat
  | [] => .ok n
  | c :: rest =>
    if c.isDigit then
      if Digits.push n c < limit then append limit (Digits.push n c) rest else .error .tooLarge
    else .error .notDigit

def read (limit : Nat) : List Char → Except Fault Nat
  | [] => .error .empty
  | ['+'] => .error .notDigit
  | '+' :: digits => append limit 0 digits
  | digits => append limit 0 digits

end Unsigned

structure Binary64 where
  negative : Bool
  significand : Nat
  exponent : Int
  deriving DecidableEq, Repr

namespace Binary64

def leastExponent : Int := -1074
def greatestExponent : Int := 971
def precision : Nat := 9007199254740992

def zero : Binary64 := ⟨false, 0, 0⟩

def isZero (x : Binary64) : Bool := x.significand == 0

def ratio (x : Binary64) : Nat × Nat :=
  if 0 ≤ x.exponent then (x.significand * Nat.pow 2 x.exponent.toNat, 1)
  else (x.significand, Nat.pow 2 (-x.exponent).toNat)

def roundDiv (num den : Nat) : Nat :=
  let q := num / den
  let r := num % den
  if den < 2 * r ∨ den = 2 * r ∧ q % 2 = 1 then q + 1 else q

/-- The exponent at which `num / den` has 53 bits, or the least one. -/
def exponentOf (num den : Nat) : Int :=
  let k : Int := num.log2 - den.log2
  let below := if 0 ≤ k then num < den * Nat.pow 2 k.toNat else num * Nat.pow 2 (-k).toNat < den
  max leastExponent (if below then k - 53 else k - 52)

/-- The nearest number to `num / den`; none if that is out of range. -/
def ofRatio (num den : Nat) : Option Binary64 :=
  if num = 0 then some zero
  else
    let e := exponentOf num den
    let q := if 0 ≤ e then roundDiv num (den * Nat.pow 2 e.toNat)
      else roundDiv (num * Nat.pow 2 (-e).toNat) den
    let (q, e) := if q = precision then (precision / 2, e + 1) else (q, e)
    if q = 0 then some zero else if greatestExponent < e then none else some ⟨false, q, e⟩

def ofNat (n : Nat) : Option Binary64 := ofRatio n 1

def mul (x y : Binary64) : Option Binary64 :=
  ofRatio (x.ratio.1 * y.ratio.1) (x.ratio.2 * y.ratio.2)

def div (x y : Binary64) : Option Binary64 :=
  ofRatio (x.ratio.1 * y.ratio.2) (x.ratio.2 * y.ratio.1)

def greatestPower : Nat := 308

def power (k : Nat) : Binary64 := (ofNat (Nat.pow 10 k)).getD zero

def shrink (x : Binary64) : Nat → Option Binary64
  | 0 => some x
  | steps + 1 => if x.isZero then some x else x.div (power greatestPower) >>= (shrink · steps)

def scaleDown (x : Binary64) (k : Nat) : Option Binary64 :=
  let steps := (k - 1) / greatestPower
  x.shrink steps >>= (·.div (power (k - steps * greatestPower)))

/-- The number read for `significand` times a power of ten: both are rounded first and then
multiplied or divided. None if it is out of range. -/
def ofDecimal (significand : Nat) (exponent : Int) : Option Binary64 := do
  let x ← ofNat significand
  if exponent < 0 then x.scaleDown (-exponent).toNat
  else if exponent.toNat ≤ greatestPower then x.mul (power exponent.toNat)
  else if x.isZero then some x
  else none

end Binary64

namespace Shortest

def digitCount (n : Nat) : Nat := (Digits.digits n).length

/-- The `k` with `10 ^ (k - 1) ≤ num / den < 10 ^ k`. -/
def magnitude (num den : Nat) : Int :=
  if den ≤ num then digitCount (num / den) else 1 - (digitCount ((den - 1) / num) : Nat)

/-- Reals that round to one number, as ratios over a shared denominator; the ends belong to it
if `closed`. -/
structure Interval where
  low : Nat
  value : Nat
  high : Nat
  den : Nat
  closed : Bool
  deriving DecidableEq, Repr

def interval (x : Binary64) : Interval :=
  let (num, den) := (Binary64.ratio ⟨false, 1, x.exponent⟩)
  let down := if x.significand = Binary64.precision / 2 ∧ Binary64.leastExponent < x.exponent then 1
    else 2
  { low := (4 * x.significand - down) * num
    value := 4 * x.significand * num
    high := (4 * x.significand + 2) * num
    den := 4 * den
    closed := x.significand % 2 = 0 }

def point (n : Nat) (p : Int) : Nat × Nat :=
  if 0 ≤ p then (n * Nat.pow 10 p.toNat, 1) else (n, Nat.pow 10 (-p).toNat)

def Interval.holds (i : Interval) (n : Nat) (p : Int) : Bool :=
  let (num, den) := point n p
  let below := i.low * den
  let here := num * i.den
  let above := i.high * den
  if i.closed then below ≤ here && here ≤ above else below < here && here < above

def Interval.floor (i : Interval) (p : Int) : Nat :=
  if 0 ≤ p then i.value / (i.den * Nat.pow 10 p.toNat)
  else i.value * Nat.pow 10 (-p).toNat / i.den

def Interval.nearer (i : Interval) (n : Nat) (p : Int) : Nat :=
  let (num, den) := point (2 * n + 1) p
  match compare (2 * i.value * den) (num * i.den) with
  | .lt => n
  | .gt => n + 1
  | .eq => if n % 2 = 0 then n else n + 1

def Interval.onGrid (i : Interval) (p : Int) : Option Nat :=
  let n := i.floor p
  match i.holds n p, i.holds (n + 1) p with
  | true, true => some (i.nearer n p)
  | true, false => some n
  | false, true => some (n + 1)
  | false, false => none

/-- The first grid with a hit, of those with `digits`, `digits + 1`, … digits. The upper
neighbour may be the next power of ten, which has one digit. -/
def Interval.search (i : Interval) (top : Int) : Nat → Nat → Nat × Int
  | _, 0 => (0, 0)
  | digits, tries + 1 => match i.onGrid (top - digits) with
    | some n => if n = Nat.pow 10 digits then (1, top) else (n, top - digits)
    | none => search i top (digits + 1) tries

/-- Digits `n` and an exponent `p`: the magnitude of `x` is read from `n * 10 ^ p`. -/
def decimal (x : Binary64) : Nat × Int :=
  if x.isZero then (0, 0)
  else
    let i := interval x
    i.search (magnitude i.value i.den) 1 17

structure Style where
  leastPositional : Int
  greatestPositional : Int
  fraction : List Char
  upward : List Char
  downward : List Char

def zeros (n : Nat) : List Char := List.replicate n '0'

def positional (f : Style) (digits : List Char) (point : Int) : List Char :=
  if digits.length ≤ point then digits ++ zeros (point.toNat - digits.length) ++ f.fraction
  else if 0 < point then digits.take point.toNat ++ '.' :: digits.drop point.toNat
  else '0' :: '.' :: zeros (-point).toNat ++ digits

def scientific (f : Style) (digits : List Char) (point : Int) : List Char :=
  let mantissa := match digits with
    | [] => []
    | [d] => [d]
    | d :: rest => d :: '.' :: rest
  let e := point - 1
  mantissa ++ (if 0 ≤ e then f.upward else f.downward) ++ Digits.digits e.natAbs

def write (f : Style) (x : Binary64) : List Char :=
  let sign := if x.negative then ['-'] else []
  if x.isZero then sign ++ '0' :: f.fraction
  else
    let (n, p) := decimal x
    let digits := Digits.digits n
    let point : Int := digits.length + p
    sign ++ if f.leastPositional ≤ point ∧ point ≤ f.greatestPositional then
      positional f digits point else scientific f digits point

end Shortest
end ContractBuild
