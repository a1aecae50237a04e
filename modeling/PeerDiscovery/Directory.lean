import PeerDiscovery.Endpoint
import PeerDiscovery.FactSet

/-! The directory: which endpoint has which facts.
An endpoint has one set of facts, the last one added. A query gives the endpoints whose facts
contain all of its own, in the order of their texts. -/
namespace PeerDiscovery

structure Directory where
  entries : List (Endpoint × FactSet)
  nodup : (entries.map Prod.fst).Nodup
  deriving DecidableEq

namespace Directory

instance : Repr Directory := ⟨fun d n => reprPrec d.entries n⟩

def empty : Directory := ⟨[], .nil⟩

instance : EmptyCollection Directory := ⟨empty⟩

instance : Inhabited Directory := ⟨empty⟩

def get? (d : Directory) (endpoint : Endpoint) : Option FactSet := d.entries.lookup endpoint

def size (d : Directory) : Nat := d.entries.length

def IsEmpty (d : Directory) : Prop := d.entries = []

instance (d : Directory) : Decidable d.IsEmpty := inferInstanceAs (Decidable (_ = _))

def erase (d : Directory) (endpoint : Endpoint) : Directory where
  entries := d.entries.filter fun entry => entry.1 ≠ endpoint
  nodup := d.nodup.sublist (List.filter_sublist.map _)

/-- Sets the facts of an endpoint. -/
def add (d : Directory) (endpoint : Endpoint) (facts : FactSet) : Directory where
  entries := (d.erase endpoint).entries ++ [(endpoint, facts)]
  nodup := by
    rw [List.map_append, List.nodup_append]
    refine ⟨(d.erase endpoint).nodup, by simp, fun a ha b hb => ?_⟩
    simp only [erase, List.mem_map, List.mem_filter, decide_eq_true_eq] at ha
    obtain ⟨entry, ⟨-, hne⟩, rfl⟩ := ha
    simp only [List.map_cons, List.map_nil, List.mem_singleton] at hb
    exact hb ▸ hne

/-- Sets the facts of an endpoint, and tells whether it had none before. -/
def insert (d : Directory) (endpoint : Endpoint) (facts : FactSet) : Directory × Bool :=
  (d.add endpoint facts, (d.get? endpoint).isNone)

/-- Takes an endpoint out, and gives the facts that it had. -/
def remove (d : Directory) (endpoint : Endpoint) : Directory × Option FactSet := (d.erase endpoint, d.get? endpoint)

def textLE (e e' : Endpoint) : Bool := ¬Text.Before e'.text e.text

def query (d : Directory) (facts : FactSet) : List Endpoint :=
  ((d.entries.filter fun entry => entry.2.ContainsAll facts).map Prod.fst).mergeSort textLE

end Directory
end PeerDiscovery
