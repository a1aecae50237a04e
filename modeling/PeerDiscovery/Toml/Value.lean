/-! The values of a TOML document.
A table knows how it was written, for that decides what may be added to it further on. -/
namespace PeerDiscovery
namespace Toml

/-- How a table was written. -/
inductive Form where
  /-- Between braces. -/
  | braces
  /-- Under a header of its own. -/
  | header
  /-- Named on the way to another table in a header. -/
  | implied
  /-- Named on the way to a key. -/
  | dotted
  deriving DecidableEq, Repr

inductive Value where
  | text (text : String)
  | integer (n : Int)
  /-- A float, as it is written. -/
  | float (numeral : String)
  | boolean (b : Bool)
  /-- A date, a time of day or both, in a form of its own. -/
  | moment (text : String)
  | array (items : List Value)
  /-- Tables of the same name, each under a header of its own. -/
  | tables (items : List Value)
  | table (form : Form) (entries : List (String × Value))
  deriving Repr

abbrev Entries := List (String × Value)

end Toml
end PeerDiscovery
