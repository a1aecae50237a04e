import PeerDiscovery.Text.Extender
import PeerDiscovery.Text.Printable

/-! Texts in quotation marks, for records that people read.
Quotation marks and backslashes are escaped, and so is what could not be told by its looks: extenders
and characters that are not printable. All else stands for itself. -/
namespace PeerDiscovery
namespace Text

def escape (c : Char) : List Char :=
  if c = '"' ∨ c = '\\' then ['\\', c]
  else if c = '\n' then ['\\', 'n']
  else if c = '\r' then ['\\', 'r']
  else if c = '\t' then ['\\', 't']
  else if c.toNat = 0 then ['\\', '0']
  else if IsExtender c ∨ ¬IsPrintable c then ['\\', 'u', '\x7b'] ++ Nat.toDigits 16 c.toNat ++ ['\x7d']
  else [c]

def quote (text : String) : String :=
  String.ofList ('"' :: text.toList.flatMap escape ++ ['"'])

end Text
end PeerDiscovery
