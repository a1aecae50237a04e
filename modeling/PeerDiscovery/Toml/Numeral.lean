/-! Numerals: integers in four bases, and floats.
Single underscores may stand between digits. Integers have 64 bits. A float is only told from what is
no float; one that is too large is none. -/
namespace PeerDiscovery
namespace Toml

def digit? (base : Nat) (c : Char) : Option Nat :=
  let n :=
    if c.isDigit then c.toNat - 48
    else if 'a' ≤ c ∧ c ≤ 'f' then c.toNat - 87
    else if 'A' ≤ c ∧ c ≤ 'F' then c.toNat - 55
    else base
  if n < base then some n else none

def number? (base : Nat) (digits : List Char) : Option Nat :=
  digits.foldlM (fun n c => (digit? base c).map (base * n + ·)) 0

/-- The number with some digits as far as it is at most `bound`; any larger number is `bound + 1`. -/
def numberUpTo? (bound base : Nat) (digits : List Char) : Option Nat :=
  digits.foldlM (fun n c => (digit? base c).map fun d => min (base * n + d) (bound + 1)) 0

def AreDigits (base : Nat) (digits : List Char) : Prop := ∀ c ∈ digits, (digit? base c).isSome

instance (base : Nat) (digits : List Char) : Decidable (AreDigits base digits) :=
  List.decidableBAll (fun c => (digit? base c).isSome) digits

/-- Drops the underscores between digits; `done` has been read and stands in reverse. -/
def ungroupOnto (done : List Char) : List Char → Option (List Char)
  | [] => none
  | [c] => some (c :: done).reverse
  | c :: '_' :: rest => ungroupOnto (c :: done) rest
  | c :: rest => ungroupOnto (c :: done) rest

/-- The digits of a numeral without the underscores between them; there is at least one digit. -/
def ungroup? (base : Nat) (text : List Char) : Option (List Char) :=
  (ungroupOnto [] text).filter (AreDigits base ·)

/-- The digits of a decimal number without needless zeros in front. -/
def whole? : List Char → Option (List Char)
  | '0' :: _ :: _ => none
  | text => ungroup? 10 text

def sign : List Char → Bool × List Char
  | '-' :: rest => (true, rest)
  | '+' :: rest => (false, rest)
  | text => (false, text)

def signed (negative : Bool) (n : Nat) : Int := if negative then -n else n

def integerBound : Nat := UInt64.size

def integer? (text : List Char) : Option Int := do
  let based (base : Nat) (digits : List Char) : Option Int :=
    (ungroup? base digits >>= numberUpTo? integerBound base).map Int.ofNat
  let n ← match text with
    | '0' :: 'x' :: digits => based 16 digits
    | '0' :: 'o' :: digits => based 8 digits
    | '0' :: 'b' :: digits => based 2 digits
    | _ => (whole? (sign text).2 >>= numberUpTo? integerBound 10).map (signed (sign text).1)
  if Int64.minValue.toInt ≤ n ∧ n ≤ Int64.maxValue.toInt then some n else none

/-- The least number that is too large for a float of 64 bits. -/
def floatBound : Nat := 1 <<< 1024 - 1 <<< 970

def floatDigits : Nat := 309

/-- Whether `digits × 10 ^ exponent` is too large for a float. Only a number with as many digits before the
point as the bound is compared with it, without what stands behind the point. -/
def isTooLarge (digits : List Char) (exponent : Int) : Bool :=
  let digits := digits.dropWhile (· = '0')
  let size : Int := digits.length + exponent
  if digits = [] ∨ size < floatDigits then false
  else if floatDigits < size then true
  else floatBound ≤ (number? 10 ((digits ++ List.replicate floatDigits '0').take floatDigits)).getD 0

/-- Exponents from here on are not told apart by further digits. -/
def exponentBound : Nat := 65536

/-- The number that the digits of an exponent denote. Once it has come to `exponentBound` the digits
that are left do not count: the float is zero or too large by then, unless its digits are as many. -/
def exponentSize (digits : List Char) : Nat :=
  digits.foldl (fun n c => if n < exponentBound then 10 * n + (digit? 10 c).getD 0 else n) 0

def exponent? (text : List Char) : Option Int :=
  (ungroup? 10 (sign text).2).map fun digits => signed (sign text).1 (exponentSize digits)

/-- Whether a text is a float. A negative one may be as large as it likes. -/
def isFloat (text : List Char) : Bool :=
  let (negative, body) := sign text
  let (mantissa, power) := body.span fun c => c ≠ 'e' ∧ c ≠ 'E'
  let (before, part) := mantissa.span (· ≠ '.')
  let checked : Option Bool := do
    if power = [] ∧ part = [] then none
    let exponent ← if power = [] then some 0 else exponent? (power.drop 1)
    let places ← if part = [] then some [] else ungroup? 10 (part.drop 1)
    let whole ← whole? before
    return negative || !isTooLarge (whole ++ places) (exponent - places.length)
  body = ['i', 'n', 'f'] ∨ body = ['n', 'a', 'n'] ∨ checked = some true

end Toml
end PeerDiscovery
