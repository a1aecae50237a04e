import PeerDiscovery.Toml.Moment
import PeerDiscovery.Toml.Table

/-! Reading values: texts, words, arrays and tables in braces. -/
namespace PeerDiscovery
namespace Toml

/-- How deep arrays and tables in braces may stand in one another. -/
def maxDepth : Nat := 79

/-- A character of a number, a moment or one of the words for other values. -/
def IsWordChar (c : Char) : Prop := c.isAlphanum ∨ c ∈ ['+', '-', '_', '.', ':']

instance (c : Char) : Decidable (IsWordChar c) := inferInstanceAs (Decidable (_ ∨ _))

def word? (word : List Char) : Option Value :=
  if word = ['t', 'r', 'u', 'e'] then some (.boolean true)
  else if word = ['f', 'a', 'l', 's', 'e'] then some (.boolean false)
  else
    match integer? word, moment? word with
    | some n, _ => some (.integer n)
    | none, some m => some (.moment (String.ofList m))
    | none, none => if isFloat word then some (.float (String.ofList word)) else none

/-- Reads a value that is one word, or a date and a time with a blank between them. -/
def words? (text : List Char) : Option (Value × List Char) :=
  let (word, rest) := text.span (IsWordChar ·)
  match date? word, rest with
  | some (date, []), ' ' :: after =>
    let (time, later) := after.span (IsWordChar ·)
    match moment? (date ++ ' ' :: time) with
    | some m => some (.moment (String.ofList m), later)
    | none => some (.moment (String.ofList date), rest)
  | _, _ => (word? word).map (·, rest)

/-- Reads the items of an array, at most so many, and the closing bracket. -/
def items? (value? : List Char → Option (Value × List Char)) : Nat → List Char → Option (List Value × List Char)
  | 0, _ => none
  | most + 1, text =>
    match skipLines false text with
    | ']' :: rest => some ([], rest)
    | text => do
      let (item, rest) ← value? text
      match skipLines false rest with
      | ']' :: rest => some ([item], rest)
      | ',' :: rest =>
        let (items, rest) ← items? value? most rest
        some (item :: items, rest)
      | _ => none

def pairing? (value? : List Char → Option (Value × List Char)) (text : List Char) :
    Option ((Key × Value) × List Char) := do
  let (key, rest) ← key? text
  match rest with
  | '=' :: rest =>
    let (value, rest) ← value? (skipBlanks rest)
    some ((key, value), rest)
  | _ => none

/-- Reads the entries of a table in braces, at most so many, and the closing brace. -/
def entries? (value? : List Char → Option (Value × List Char)) :
    Nat → Entries → List Char → Option (Entries × List Char)
  | 0, _, _ => none
  | most + 1, entries, text => do
    let ((key, value), rest) ← pairing? value? text
    let entries ← Entries.set key value .braces entries
    match skipBlanks rest with
    | '\x7d' :: rest => some (entries, rest)
    | ',' :: rest => entries? value? most entries rest
    | _ => none

/-- Reads a value in which arrays and tables stand at most so deep. -/
def value? : Nat → List Char → Option (Value × List Char)
  | depth + 1, '[' :: rest => do
    let (items, rest) ← items? (value? depth) (rest.length + 1) rest
    some (.array items, rest)
  | depth + 1, '\x7b' :: rest =>
    match skipBlanks rest with
    | '\x7d' :: rest => some (.table .braces [], rest)
    | rest => do
      let (entries, rest) ← entries? (value? depth) (rest.length + 1) [] rest
      some (.table .braces entries, rest)
  | _, '"' :: rest => (quoted? ('"' :: rest)).map fun (text, rest) => (.text text, rest)
  | _, '\'' :: rest => (quoted? ('\'' :: rest)).map fun (text, rest) => (.text text, rest)
  | _, text => words? text

end Toml
end PeerDiscovery
