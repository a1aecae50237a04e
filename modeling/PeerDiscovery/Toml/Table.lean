import PeerDiscovery.Toml.Key
import PeerDiscovery.Toml.Value

/-! Building tables from keys and headers.
A key has one value. A table is defined once, by a header, by braces or by the keys that name it;
headers may define tables below it, and a table that was only named on the way may be defined later. -/
namespace PeerDiscovery
namespace Toml

namespace Entries

def put (entries : Entries) (name : String) (value : Value) : Entries :=
  if (entries.lookup name).isSome then entries.map fun e => if e.1 = name then (name, value) else e
  else entries ++ [(name, value)]

/-- Whether a way may lead through a table, where `made` is the form of the tables that it makes. -/
def IsOpen (made form : Form) : Prop :=
  match form with
  | .braces => False
  | .header => made ≠ .dotted
  | .implied | .dotted => True

instance (made form : Form) : Decidable (IsOpen made form) := by
  cases form <;> unfold IsOpen <;> infer_instance

/-- Changes the table at the end of a way. Tables that are not there are made; of tables under headers
of the same name the latest one counts. -/
def change (made : Form) (f : Form → Entries → Option Entries) :
    List String → Form → Entries → Option Entries
  | [], form, entries => f form entries
  | name :: way, _, entries =>
    match entries.lookup name with
    | none => (change made f way made []).map fun below => entries.put name (.table made below)
    | some (.table form below) =>
      if IsOpen made form then
        (change made f way form below).map fun below => entries.put name (.table form below)
      else none
    | some (.tables items) =>
      match items.getLast? with
      | some (.table form below) =>
        (change made f way form below).map fun below =>
          entries.put name (.tables (items.dropLast ++ [.table form below]))
      | _ => none
    | some _ => none

/-- Gives a value to a new key. Tables on its way are made by this key or others like it. -/
def set (key : Key) (value : Value) : Form → Entries → Option Entries :=
  change .dotted (fun form entries =>
    if (key.path ≠ [] ∧ form ≠ .dotted) ∨ (entries.lookup key.name).isSome then none
    else some (entries.put key.name value)) key.path

def define (key : Key) : Entries → Option Entries :=
  change .implied (fun _ entries =>
    match entries.lookup key.name with
    | none => some (entries.put key.name (.table .header []))
    | some (.table .implied below) => some (entries.put key.name (.table .header below))
    | some _ => none) key.path .header

def extend (key : Key) : Entries → Option Entries :=
  change .implied (fun _ entries =>
    match entries.lookup key.name with
    | none => some (entries.put key.name (.tables [.table .header []]))
    | some (.tables items) => some (entries.put key.name (.tables (items ++ [.table .header []])))
    | some _ => none) key.path .header

/-- Gives a value to a new key below the table at the end of a way that was defined. -/
def setBelow (way : List String) (key : Key) (value : Value) : Entries → Option Entries :=
  change .implied (set key value) way .header

end Entries
end Toml
end PeerDiscovery
