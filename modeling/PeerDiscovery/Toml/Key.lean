import PeerDiscovery.Toml.Quoted

/-! Keys: one or more names with points between them. -/
namespace PeerDiscovery
namespace Toml

structure Key where
  /-- The names of the tables on the way. -/
  path : List String
  name : String

def maxNames : Nat := 79

def IsBare (c : Char) : Prop := c.isAlphanum ∨ c = '-' ∨ c = '_'

instance (c : Char) : Decidable (IsBare c) := inferInstanceAs (Decidable (_ ∨ _))

def name? (text : List Char) : Option (String × List Char) :=
  match text with
  | '"' :: _ => quotedLine? text
  | '\'' :: _ => quotedLine? text
  | _ =>
    match text.span (IsBare ·) with
    | ([], _) => none
    | (name, rest) => some (String.ofList name, rest)

/-- Reads up to so many names and the blanks around them. -/
def names? : Nat → List Char → Option (List String × List Char)
  | 0, _ => none
  | most + 1, text => do
    let (name, rest) ← name? (skipBlanks text)
    match skipBlanks rest with
    | '.' :: rest =>
      let (names, rest) ← names? most rest
      some (name :: names, rest)
    | rest => some ([name], rest)

def key? (text : List Char) : Option (Key × List Char) := do
  let (names, rest) ← names? maxNames text
  let name ← names.getLast?
  some (⟨names.dropLast, name⟩, rest)

end Toml
end PeerDiscovery
