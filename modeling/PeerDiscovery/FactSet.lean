import PeerDiscovery.Text.Order
import PeerDiscovery.Wire.Record

/-! Facts: the keys and values that describe a service or a query.
A set of facts has one value for a key. It is kept as its pairs in the order of their keys, so that
two sets are equal when their pairs are. `get?_insert` is the law of insertion. -/
namespace PeerDiscovery

structure FactSet where
  pairs : List (String × String)
  sorted : pairs.Pairwise fun p q => Text.Before p.1 q.1
  deriving DecidableEq

namespace FactSet

instance : Repr FactSet := ⟨fun f n => reprPrec f.pairs n⟩

@[ext] theorem ext {f g : FactSet} (h : f.pairs = g.pairs) : f = g := by
  cases f
  cases g
  simpa using h

def empty : FactSet := ⟨[], .nil⟩

instance : EmptyCollection FactSet := ⟨empty⟩

instance : Inhabited FactSet := ⟨empty⟩

/-- Puts a pair at its place, instead of the pair with its key if there is one. -/
def insertPair (key value : String) : List (String × String) → List (String × String)
  | [] => [(key, value)]
  | p :: rest =>
    if Text.Before p.1 key then p :: insertPair key value rest
    else if p.1 = key then (key, value) :: rest
    else (key, value) :: p :: rest

theorem mem_insertPair {key value : String} {pairs : List (String × String)} {p : String × String}
    (h : p ∈ insertPair key value pairs) : p = (key, value) ∨ p ∈ pairs := by
  induction pairs with
  | nil => simpa [insertPair] using h
  | cons q rest ih => grind [insertPair]

theorem pairwise_insertPair (key value : String) {pairs : List (String × String)}
    (h : pairs.Pairwise fun p q => Text.Before p.1 q.1) :
    (insertPair key value pairs).Pairwise fun p q => Text.Before p.1 q.1 := by
  induction pairs with
  | nil => simp [insertPair]
  | cons p rest ih =>
    obtain ⟨hp, hr⟩ := List.pairwise_cons.1 h
    unfold insertPair
    split
    · next hlt =>
      refine List.pairwise_cons.2 ⟨fun q hq => ?_, ih hr⟩
      rcases mem_insertPair hq with rfl | hq
      · exact hlt
      · exact hp q hq
    · next hlt =>
      split
      · next heq => exact List.pairwise_cons.2 ⟨fun q hq => heq ▸ hp q hq, hr⟩
      · next hne =>
        have hkp : Text.Before key p.1 :=
          Decidable.byContradiction fun hk => hne (Text.eq_of_not_before hlt hk)
        refine List.pairwise_cons.2 ⟨fun q hq => ?_, h⟩
        rcases List.mem_cons.1 hq with rfl | hq
        · exact hkp
        · exact hkp.trans (hp q hq)

def insert (f : FactSet) (key value : String) : FactSet :=
  ⟨insertPair key value f.pairs, pairwise_insertPair key value f.sorted⟩

def get? (f : FactSet) (key : String) : Option String := f.pairs.lookup key

theorem lookup_insertPair (key value k : String) (pairs : List (String × String))
    (h : pairs.Pairwise fun p q => Text.Before p.1 q.1) :
    (insertPair key value pairs).lookup k = if k = key then some value else pairs.lookup k := by
  induction pairs with
  | nil => grind [insertPair]
  | cons p rest ih =>
    have hr := (List.pairwise_cons.1 h).2
    have hp := Text.Before.irrefl key
    grind [insertPair]

theorem get?_insert (f : FactSet) (key value k : String) :
    (f.insert key value).get? k = if k = key then some value else f.get? k :=
  lookup_insertPair key value k f.pairs f.sorted

/-- The value that a pair with this key takes the place of. Where a greater key stands there is none. -/
def replaced? (key : String) : List (String × String) → Option String
  | [] => none
  | p :: rest =>
    if Text.Before p.1 key then replaced? key rest
    else if p.1 = key then some p.2
    else none

theorem replaced?_eq_lookup (key : String) {pairs : List (String × String)}
    (h : pairs.Pairwise fun p q => Text.Before p.1 q.1) : replaced? key pairs = pairs.lookup key := by
  induction pairs with
  | nil => rfl
  | cons p rest ih =>
    obtain ⟨hp, hr⟩ := List.pairwise_cons.1 h
    unfold replaced?
    split
    · next hlt =>
      have hne : key ≠ p.1 := fun he => Text.Before.irrefl key (he ▸ hlt)
      rw [ih hr, List.lookup_cons, beq_false_of_ne hne]
    · next hlt =>
      split
      · next heq => rw [List.lookup_cons, beq_iff_eq.2 heq.symm]
      · next hne =>
        have hkp : Text.Before key p.1 :=
          Decidable.byContradiction fun hk => hne (Text.eq_of_not_before hlt hk)
        refine (List.lookup_eq_none_iff.2 fun q hq => ?_).symm
        rcases List.mem_cons.1 hq with rfl | hq
        · exact bne_iff_ne.2 (Ne.symm hne)
        · refine bne_iff_ne.2 fun he => ?_
          have hlt := hkp.trans (hp q hq)
          rw [← he] at hlt
          exact Text.Before.irrefl key hlt

/-- Puts a fact in, and gives the value that it replaces. -/
def put (f : FactSet) (key value : String) : FactSet × Option String := (f.insert key value, replaced? key f.pairs)

theorem put_eq (f : FactSet) (key value : String) : f.put key value = (f.insert key value, f.get? key) := by
  rw [put, replaced?_eq_lookup key f.sorted, get?]

/-- Of pairs with the same key the last one counts. -/
def ofPairs (pairs : List (String × String)) : FactSet :=
  pairs.foldl (fun f p => f.insert p.1 p.2) ∅

def size (f : FactSet) : Nat := f.pairs.length

def IsEmpty (f : FactSet) : Prop := f.pairs = []

instance (f : FactSet) : Decidable f.IsEmpty := inferInstanceAs (Decidable (_ = _))

/-- Every fact of `query` is in `f`, with the same value. -/
def ContainsAll (f query : FactSet) : Prop := ∀ p ∈ query.pairs, f.get? p.1 = some p.2

instance (f query : FactSet) : Decidable (f.ContainsAll query) :=
  inferInstanceAs (Decidable (∀ p ∈ _, _))

def ofRecords (records : List Wire.PairRecord) : FactSet :=
  ofPairs (records.map fun r => (r.key, r.value))

def records (f : FactSet) : List Wire.PairRecord := f.pairs.map fun p => ⟨p.1, p.2⟩

end FactSet
end PeerDiscovery
