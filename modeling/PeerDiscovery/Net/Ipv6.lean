import PeerDiscovery.Net.Ipv4
import PeerDiscovery.Text.Split

/-! IPv6 addresses and their text.
Eight groups of up to four hexadecimal digits stand between colons. A double colon stands for one
or more groups of zeros, and the last two groups may be written as an IPv4 address. Printing leaves
out the first of the longest runs of two or more zero groups and writes an IPv4-mapped address with
its dotted tail. -/
namespace PeerDiscovery
namespace Net

structure Ipv6 where
  groups : List UInt16
  length_eq : groups.length = 8 := by rfl
  deriving DecidableEq, Repr

namespace Ipv6

def unspecified : Ipv6 := ⟨List.replicate 8 0, rfl⟩

def loopback : Ipv6 := ⟨List.replicate 7 0 ++ [1], rfl⟩

def ofGroups? (groups : List UInt16) : Option Ipv6 :=
  if h : groups.length = 8 then some ⟨groups, h⟩ else none

/-- The IPv4 address that an address of the form `::ffff:a.b.c.d` stands for. -/
def mapped? (ip : Ipv6) : Option Ipv4 :=
  match ip.groups with
  | [0, 0, 0, 0, 0, 0xffff, high, low] =>
    some ⟨(high >>> 8).toUInt8, high.toUInt8, (low >>> 8).toUInt8, low.toUInt8⟩
  | _ => none

/-- A run of groups by its first place and its length. -/
structure Run where
  start : Nat
  length : Nat

/-- The first of the longest runs of zero groups. `current` is the run that ends at place `i`. -/
def longestZerosFrom (i : Nat) (current longest : Run) : List UInt16 → Run
  | [] => longest
  | group :: rest =>
    if group = 0 then
      let current := if current.length = 0 then ⟨i, 1⟩ else ⟨current.start, current.length + 1⟩
      longestZerosFrom (i + 1) current (if longest.length < current.length then current else longest) rest
    else longestZerosFrom (i + 1) ⟨0, 0⟩ longest rest

def longestZeros (groups : List UInt16) : Run := longestZerosFrom 0 ⟨0, 0⟩ ⟨0, 0⟩ groups

def printGroups (groups : List UInt16) : List Char :=
  [':'].intercalate (groups.map fun group => Nat.toDigits 16 group.toNat)

def print (ip : Ipv6) : List Char :=
  match ip.mapped? with
  | some tail => "::ffff:".toList ++ tail.print
  | none =>
    let zeros := longestZeros ip.groups
    if 1 < zeros.length then
      printGroups (ip.groups.take zeros.start) ++ [':', ':']
        ++ printGroups (ip.groups.drop (zeros.start + zeros.length))
    else printGroups ip.groups

/-- The value of a hexadecimal digit in either case. -/
def hexDigit? (c : Char) : Option Nat :=
  if c.isDigit then some (c.toNat - '0'.toNat)
  else if 'a' ≤ c ∧ c ≤ 'f' then some (c.toNat - 'a'.toNat + 10)
  else if 'A' ≤ c ∧ c ≤ 'F' then some (c.toNat - 'A'.toNat + 10)
  else none

def group? (text : List Char) : Option UInt16 :=
  if text ≠ [] ∧ text.length ≤ 4 then
    (text.foldlM (fun n c => (hexDigit? c).map (16 * n + ·)) 0).map UInt16.ofNat
  else none

def hexGroups? (text : List Char) : Option (List UInt16) :=
  if text = [] then some [] else (List.splitOn ':' text).mapM group?

def ofIpv4 (ip : Ipv4) : List UInt16 :=
  [ip.a.toUInt16 <<< 8 ||| ip.b.toUInt16, ip.c.toUInt16 <<< 8 ||| ip.d.toUInt16]

/-- Groups between colons, the last two of which may stand as an IPv4 address. -/
def groups? (text : List Char) : Option (List UInt16) :=
  match Text.cutLast? ':' text with
  | none =>
    match Ipv4.parse? text with
    | some tail => some (ofIpv4 tail)
    | none => hexGroups? text
  | some (front, back) =>
    match Ipv4.parse? back with
    | some tail => do return (← (List.splitOn ':' front).mapM group?) ++ ofIpv4 tail
    | none => hexGroups? text

def parse? (text : List Char) : Option Ipv6 :=
  match Text.cut? [':', ':'] text with
  | none => do ofGroups? (← groups? text)
  | some (front, back) => do
    let front ← hexGroups? front
    let back ← groups? back
    let zeros := 8 - (front.length + back.length)
    if zeros = 0 then none else ofGroups? (front ++ List.replicate zeros 0 ++ back)

end Ipv6
end Net
end PeerDiscovery
