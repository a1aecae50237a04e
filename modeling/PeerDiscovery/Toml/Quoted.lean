import PeerDiscovery.Toml.Blank
import PeerDiscovery.Toml.Numeral

/-! Texts in quotation marks, on one line or on several.
Between double marks a backslash begins an escape; between single ones all characters stand for
themselves. Each reader is given what follows the opening marks and returns what follows the closing
ones. On several lines, line ends are read as `\n`, and up to two marks may stand before the closing ones. -/
namespace PeerDiscovery
namespace Toml

/-- The character with a code, given by its hexadecimal digits. -/
def codePoint? (digits : List Char) : Option Char := do
  let n ← number? 16 digits
  if n.isValidChar then some (Char.ofNat n) else none

/-- The character that a backslash and a letter denote. -/
def escape? : Char → Option Char
  | 'b' => some (Char.ofNat 8)
  | 't' => some '\t'
  | 'n' => some '\n'
  | 'f' => some (Char.ofNat 12)
  | 'r' => some '\r'
  | '"' => some '"'
  | '\\' => some '\\'
  | _ => none

def escaped? : List Char → Option (Char × List Char)
  | 'u' :: a :: b :: c :: d :: rest => (codePoint? [a, b, c, d]).map (·, rest)
  | 'U' :: a :: b :: c :: d :: e :: f :: g :: h :: rest =>
    (codePoint? [a, b, c, d, e, f, g, h]).map (·, rest)
  | c :: rest => (escape? c).map (·, rest)
  | [] => none

theorem length_escaped? {text rest : List Char} {c : Char} (h : escaped? text = some (c, rest)) :
    rest.length < text.length := by
  unfold escaped? at h
  split at h <;> simp only [Option.map_eq_some_iff, Prod.mk.injEq, reduceCtorEq] at h
  all_goals
    obtain ⟨_, _, _, rfl⟩ := h
    simp only [List.length_cons]
    omega

/-- What follows a backslash at the end of a line, without the blanks and line ends after it. -/
def folded? (text : List Char) : Option (List Char) := (newline? (skipBlanks text)).map skipSpace

theorem length_folded? {text rest : List Char} (h : folded? text = some rest) : rest.length < text.length := by
  obtain ⟨line, hl, rfl⟩ := Option.map_eq_some_iff.1 h
  have h₁ := length_newline? hl
  have h₂ := length_skipBlanks_le text
  have h₃ := length_skipSpace_le line
  omega

/-- Reads a text on one line between double marks; `read` has been read and stands in reverse. -/
def line? (read : List Char) (text : List Char) : Option (String × List Char) :=
  match text with
  | [] => none
  | '"' :: rest => some (String.ofList read.reverse, rest)
  | '\\' :: rest =>
    match _h : escaped? rest with
    | none => none
    | some (c, rest) => line? (c :: read) rest
  | c :: rest => if IsPlain c then line? (c :: read) rest else none
termination_by text.length
decreasing_by
  · have := length_escaped? _h
    simp only [List.length_cons]
    omega
  · simp

/-- Up to two marks before the closing ones, when three have been passed over. -/
def surplus (mark : Char) (text : List Char) : List Char := (text.take 2).takeWhile (· = mark)

/-- The end of a text on several lines, behind the first three of the marks in a row. -/
def close (mark : Char) (read : List Char) (text : List Char) : String × List Char :=
  let marks := surplus mark text
  (String.ofList (read.reverse ++ marks), text.drop marks.length)

/-- Reads a text on several lines between double marks. -/
def lines? (read : List Char) (text : List Char) : Option (String × List Char) :=
  match text with
  | [] => none
  | '"' :: '"' :: '"' :: rest => some (close '"' read rest)
  | '\r' :: '\n' :: rest => lines? ('\n' :: read) rest
  | '\\' :: rest =>
    match _h : folded? rest with
    | some rest => lines? read rest
    | none =>
      match _h' : escaped? rest with
      | none => none
      | some (c, rest) => lines? (c :: read) rest
  | c :: rest => if c = '\n' ∨ IsPlain c then lines? (c :: read) rest else none
termination_by text.length
decreasing_by
  · simp only [List.length_cons]
    omega
  · have := length_folded? _h
    simp only [List.length_cons]
    omega
  · have := length_escaped? _h'
    simp only [List.length_cons]
    omega
  · simp

def literalLine? (text : List Char) : Option (String × List Char) :=
  match text.span fun c => c ≠ '\'' ∧ IsPlain c with
  | (read, '\'' :: rest) => some (String.ofList read, rest)
  | _ => none

/-- Reads a text on several lines between single marks. -/
def literalLines? (read : List Char) : List Char → Option (String × List Char)
  | [] => none
  | '\'' :: '\'' :: '\'' :: rest => some (close '\'' read rest)
  | '\r' :: '\n' :: rest => literalLines? ('\n' :: read) rest
  | c :: rest => if c = '\n' ∨ IsPlain c then literalLines? (c :: read) rest else none

/-- What follows the opening marks on several lines; a line end directly behind them is left out. -/
def opened (text : List Char) : List Char := (newline? text).getD text

def quotedLine? : List Char → Option (String × List Char)
  | '"' :: rest => line? [] rest
  | '\'' :: rest => literalLine? rest
  | _ => none

def quoted? : List Char → Option (String × List Char)
  | '"' :: '"' :: '"' :: rest => lines? [] (opened rest)
  | '\'' :: '\'' :: '\'' :: rest => literalLines? [] (opened rest)
  | text => quotedLine? text

end Toml
end PeerDiscovery
