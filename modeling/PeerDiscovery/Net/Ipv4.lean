import PeerDiscovery.Text.Decimal

/-! IPv4 addresses and their dotted text.
An octet has one to three digits and no needless zero in front, so an address has one text. -/
namespace PeerDiscovery
namespace Net

structure Ipv4 where
  a : UInt8
  b : UInt8
  c : UInt8
  d : UInt8
  deriving DecidableEq, Repr

namespace Ipv4

def unspecified : Ipv4 := ⟨0, 0, 0, 0⟩

def octets (ip : Ipv4) : List UInt8 := [ip.a, ip.b, ip.c, ip.d]

def print (ip : Ipv4) : List Char :=
  ['.'].intercalate (ip.octets.map fun octet => Decimal.print octet.toNat)

def octet? (digits : List Char) : Option UInt8 :=
  if digits.length ≤ 3 ∧ (digits.length = 1 ∨ digits.head? ≠ some '0') then
    (Decimal.digits? 255 digits).map UInt8.ofNat
  else none

def parse? (text : List Char) : Option Ipv4 :=
  match List.splitOn '.' text with
  | [a, b, c, d] => do return ⟨← octet? a, ← octet? b, ← octet? c, ← octet? d⟩
  | _ => none

end Ipv4
end Net
end PeerDiscovery
