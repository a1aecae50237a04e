import PeerDiscovery.Toml.Literal

/-! Documents: lines with headers and with keys and their values. -/
namespace PeerDiscovery
namespace Toml

/-- A document as far as it has been read. -/
structure Draft where
  entries : Entries := []
  /-- The way to the table that the latest header names. -/
  way : List String := []

namespace Draft

def key (d : Draft) (key : Key) (value : Value) : Option Draft :=
  (d.entries.setBelow d.way key value).map fun entries => { d with entries }

def header (d : Draft) (key : Key) : Option Draft :=
  (d.entries.define key).map fun entries => { entries, way := key.path ++ [key.name] }

def headerOfOne (d : Draft) (key : Key) : Option Draft :=
  (d.entries.extend key).map fun entries => { entries, way := key.path ++ [key.name] }

/-- Reads a line that is neither blank nor a comment. -/
def line? (d : Draft) : List Char → Option (Draft × List Char)
  | '[' :: '[' :: rest => do
    let (key, rest) ← key? rest
    match rest with
    | ']' :: ']' :: rest => return (← d.headerOfOne key, ← endLine? rest)
    | _ => none
  | '[' :: rest => do
    let (key, rest) ← key? rest
    match rest with
    | ']' :: rest => return (← d.header key, ← endLine? rest)
    | _ => none
  | text => do
    let ((key, value), rest) ← pairing? (value? maxDepth) text
    return (← d.key key value, ← endLine? rest)

def lines? : Nat → Draft → List Char → Option Draft
  | 0, _, _ => none
  | most + 1, d, text =>
    match skipBlanks text with
    | [] => some d
    | '#' :: rest => endLine? ('#' :: rest) >>= lines? most d
    | c :: rest =>
      match newline? (c :: rest) with
      | some rest => lines? most d rest
      | none => do
        let (d, rest) ← d.line? (c :: rest)
        lines? most d rest

end Draft

/-- The mark for the order of bytes, with which a document may begin. -/
def byteOrderMark : Char := Char.ofNat 0xFEFF

def parse? (text : String) : Option Value :=
  let chars := match text.toList with
    | c :: rest => if c = byteOrderMark then rest else c :: rest
    | [] => []
  (Draft.lines? (chars.length + 1) {} chars).map fun d => .table .header d.entries

end Toml
end PeerDiscovery
