/-! What stands between the parts of a document: blanks, line ends and comments. -/
namespace PeerDiscovery
namespace Toml

def IsBlank (c : Char) : Prop := c = ' ' ∨ c = '\t'

instance (c : Char) : Decidable (IsBlank c) := inferInstanceAs (Decidable (_ ∨ _))

/-- A character that stands for itself in comments and texts: a tab or no ASCII control character. -/
def IsPlain (c : Char) : Prop := c = '\t' ∨ 32 ≤ c.toNat ∧ c.toNat ≠ 127

instance (c : Char) : Decidable (IsPlain c) := inferInstanceAs (Decidable (_ ∨ _))

def skipBlanks (text : List Char) : List Char := text.dropWhile (IsBlank ·)

def newline? : List Char → Option (List Char)
  | '\n' :: rest => some rest
  | '\r' :: '\n' :: rest => some rest
  | _ => none

/-- What follows the rest of a line on which nothing but blanks and a comment is left. -/
def endLine? (text : List Char) : Option (List Char) :=
  let rest := match skipBlanks text with
    | '#' :: comment => comment.dropWhile (IsPlain ·)
    | rest => rest
  match rest with
  | [] => some []
  | _ => newline? rest

def skipSpace : List Char → List Char
  | [] => []
  | '\n' :: rest => skipSpace rest
  | '\r' :: '\n' :: rest => skipSpace rest
  | c :: rest => if IsBlank c then skipSpace rest else c :: rest

theorem length_skipSpace_le (text : List Char) : (skipSpace text).length ≤ text.length := by
  fun_induction skipSpace text <;> grind

theorem length_skipBlanks_le (text : List Char) : (skipBlanks text).length ≤ text.length :=
  (List.dropWhile_sublist _).length_le

theorem length_newline? {text rest : List Char} (h : newline? text = some rest) :
    rest.length < text.length := by
  unfold newline? at h
  split at h <;> grind

/-- What follows blanks, line ends and comments; `comment` says whether the text begins in one. -/
def skipLines (comment : Bool) : List Char → List Char
  | [] => []
  | '\n' :: rest => skipLines false rest
  | '\r' :: '\n' :: rest => skipLines false rest
  | c :: rest =>
    if comment then if IsPlain c then skipLines true rest else c :: rest
    else if IsBlank c then skipLines false rest
    else if c = '#' then skipLines true rest
    else c :: rest

end Toml
end PeerDiscovery
