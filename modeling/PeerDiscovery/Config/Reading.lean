import PeerDiscovery.Config
import PeerDiscovery.Toml.Document

/-! Reading a configuration from a document.
A record is a table with a key for each field, or an array of the fields in their order. A field that is
not there has its default, and what is no field is passed over. A value of a wrong kind or out of range
makes the whole configuration unreadable. `ofText?_template` says that the text of the default
configuration reads back. -/
namespace PeerDiscovery
namespace Config

open Toml (Value)

abbrev Fields := String → Nat → Option Value

/-- A moment is a record too, with no field of a known name. -/
def fields? : Value → Option Fields
  | .table _ entries => some fun name _ => entries.lookup name
  | .array items => some fun _ place => items[place]?
  | .tables items => some fun _ place => items[place]?
  | .moment _ => some fun _ _ => none
  | _ => none

def readField {α : Type} (read? : Value → Option α) (default : α) : Option Value → Option α
  | none => some default
  | some value => read? value

def text? : Value → Option String
  | .text text => some text
  | _ => none

def boolean? : Value → Option Bool
  | .boolean b => some b
  | _ => none

def natural? (max : Nat) : Value → Option Nat
  | .integer n => if 0 ≤ n ∧ n ≤ max then some n.toNat else none
  | _ => none

def port? (value : Value) : Option UInt16 := (natural? (UInt16.size - 1) value).map UInt16.ofNat

def seconds? (value : Value) : Option UInt64 := (natural? (UInt64.size - 1) value).map UInt64.ofNat

def network? (value : Value) : Option NetworkSettings := do
  let field ← fields? value
  let standard : NetworkSettings := {}
  return {
    mailbox := ← readField text? standard.mailbox (field "mailbox" 0)
    broadcastPort := ← readField port? standard.broadcastPort (field "broadcast_port" 1)
    broadcastIntervalSecs :=
      ← readField seconds? standard.broadcastIntervalSecs (field "broadcast_interval_secs" 2)
    activeBroadcast := ← readField boolean? standard.activeBroadcast (field "active_broadcast" 3)
    shutdownTimeoutSecs :=
      ← readField seconds? standard.shutdownTimeoutSecs (field "shutdown_timeout_secs" 4) }

def momentKey : String := "$__toml_private_datetime"

/-- Facts: a table of texts, or a moment, which is one fact. -/
def facts? : Value → Option FactSet
  | .table _ entries => (entries.mapM fun e => (text? e.2).map fun text => (e.1, text)).map FactSet.ofPairs
  | .moment text => some (.ofPairs [(momentKey, text)])
  | _ => none

def service? (value : Value) : Option FactSet := do
  let field ← fields? value
  readField facts? ∅ (field "facts" 0)

def services? : Value → Option (List FactSet)
  | .array items => items.mapM service?
  | .tables items => items.mapM service?
  | _ => none

def ofValue? (value : Value) : Option Config := do
  let field ← fields? value
  return {
    network := ← readField network? {} (field "network" 0)
    services := ← readField services? [] (field "services" 1) }

def ofText? (text : String) : Option Config := Toml.parse? text >>= ofValue?

def template : String :=
  let standard : NetworkSettings := {}
  "[network]\nmailbox = \"" ++ standard.mailbox
    ++ "\"\nbroadcast_port = " ++ toString standard.broadcastPort.toNat
    ++ "\nbroadcast_interval_secs = " ++ toString standard.broadcastIntervalSecs.toNat
    ++ "\nactive_broadcast = " ++ toString standard.activeBroadcast
    ++ "\nshutdown_timeout_secs = " ++ toString standard.shutdownTimeoutSecs.toNat ++ "\n"

theorem ofText?_template : ofText? template = some {} := by decide +kernel

end Config
end PeerDiscovery
