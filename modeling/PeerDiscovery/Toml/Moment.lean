import PeerDiscovery.Toml.Numeral

/-! Dates and times of day.
They are read into one canonical text: `T` between date and time, `Z` for the zero offset written so, and
a fraction of a second with at most nine digits and no needless zeros. -/
namespace PeerDiscovery
namespace Toml

def pair? (least most : Nat) (a b : Char) : Option Nat := do
  let n ← number? 10 [a, b]
  if least ≤ n ∧ n ≤ most then some n else none

def IsLeap (year : Nat) : Prop := year % 4 = 0 ∧ (year % 100 ≠ 0 ∨ year % 400 = 0)

instance (year : Nat) : Decidable (IsLeap year) := inferInstanceAs (Decidable (_ ∧ _))

def daysIn (year month : Nat) : Nat :=
  if month = 2 then if IsLeap year then 29 else 28
  else if month = 4 ∨ month = 6 ∨ month = 9 ∨ month = 11 then 30
  else 31

def date? : List Char → Option (List Char × List Char)
  | y₁ :: y₂ :: y₃ :: y₄ :: '-' :: m₁ :: m₂ :: '-' :: d₁ :: d₂ :: rest => do
    let year ← number? 10 [y₁, y₂, y₃, y₄]
    let month ← pair? 1 12 m₁ m₂
    discard (pair? 1 (daysIn year month) d₁ d₂)
    some ([y₁, y₂, y₃, y₄, '-', m₁, m₂, '-', d₁, d₂], rest)
  | _ => none

def clock? (h₁ h₂ m₁ m₂ : Char) : Option (List Char) := do
  discard (pair? 0 23 h₁ h₂)
  discard (pair? 0 59 m₁ m₂)
  some [h₁, h₂, ':', m₁, m₂]

def fraction (digits : List Char) : List Char :=
  match (digits.take 9).reverse.dropWhile (· = '0') with
  | [] => []
  | kept => '.' :: kept.reverse

def time? : List Char → Option (List Char × List Char)
  | h₁ :: h₂ :: ':' :: m₁ :: m₂ :: ':' :: s₁ :: s₂ :: rest => do
    let minutes ← clock? h₁ h₂ m₁ m₂
    discard (pair? 0 60 s₁ s₂)
    let seconds := minutes ++ [':', s₁, s₂]
    match rest with
    | '.' :: places =>
      match places.span Char.isDigit with
      | ([], _) => some (seconds, rest)
      | (digits, rest) => some (seconds ++ fraction digits, rest)
    | _ => some (seconds, rest)
  | _ => none

def offset? : List Char → Option (List Char)
  | [] => some []
  | ['Z'] => some ['Z']
  | ['z'] => some ['Z']
  | [s, h₁, h₂, ':', m₁, m₂] =>
    if s = '+' ∨ s = '-' then
      (clock? h₁ h₂ m₁ m₂).map fun c => (if c = ['0', '0', ':', '0', '0'] then '+' else s) :: c
    else none
  | _ => none

def moment? (text : List Char) : Option (List Char) :=
  match date? text with
  | some (date, []) => some date
  | some (date, mark :: rest) =>
    if mark = 'T' ∨ mark = 't' ∨ mark = ' ' then do
      let (time, rest) ← time? rest
      return date ++ 'T' :: time ++ (← offset? rest)
    else none
  | none =>
    match time? text with
    | some (time, []) => some time
    | _ => none

end Toml
end PeerDiscovery
