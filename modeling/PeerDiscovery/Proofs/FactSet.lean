import Mathlib.Data.List.Induction
import Mathlib.Data.List.Nodup
import PeerDiscovery.FactSet
import PeerDiscovery.Proofs.Lists

/-! A set of facts is what its keys are mapped to: `FactSet.eq_of_get?`, and of records with the same key the last one
counts: `FactSet.get?_ofRecords`. -/
namespace PeerDiscovery
namespace FactSet

theorem nodup_keys (f : FactSet) : (f.pairs.map Prod.fst).Nodup := by
  refine List.pairwise_map.2 (f.sorted.imp fun {p q} h he => ?_)
  rw [he] at h
  exact Text.Before.irrefl _ h

theorem mem_pairs_iff (f : FactSet) (p : String × String) : p ∈ f.pairs ↔ f.get? p.1 = some p.2 :=
  (lookup_eq_some_iff_mem f.nodup_keys).symm

theorem eq_of_get? {f g : FactSet} (h : ∀ key, f.get? key = g.get? key) : f = g := by
  have hperm : f.pairs.Perm g.pairs := by
    refine (List.perm_ext_iff_of_nodup f.nodup_keys.of_map g.nodup_keys.of_map).2 fun p => ?_
    rw [mem_pairs_iff, mem_pairs_iff, h]
  exact FactSet.ext (hperm.eq_of_pairwise (fun p q _ _ hpq hqp => absurd hqp hpq.asymm) f.sorted g.sorted)

theorem mem_records_iff (f : FactSet) (r : Wire.PairRecord) : r ∈ f.records ↔ f.get? r.key = some r.value := by
  rw [← f.mem_pairs_iff (r.key, r.value), records, List.mem_map]
  constructor
  · rintro ⟨p, hp, rfl⟩
    exact hp
  · intro h
    exact ⟨_, h, rfl⟩

theorem containsAll_iff {f query : FactSet} : f.ContainsAll query ↔ ∀ p ∈ query.pairs, p ∈ f.pairs := by
  simp only [ContainsAll, mem_pairs_iff]

theorem ofRecords_concat (records : List Wire.PairRecord) (r : Wire.PairRecord) :
    ofRecords (records ++ [r]) = (ofRecords records).insert r.key r.value := by
  simp [ofRecords, ofPairs]

def valuesIn (records : List Wire.PairRecord) (key : String) : List String :=
  (records.filter fun r => r.key = key).map fun r => r.value

theorem get?_ofRecords (records : List Wire.PairRecord) (key : String) :
    (ofRecords records).get? key = (valuesIn records key).getLast? := by
  induction records using List.reverseRecOn with
  | nil => rfl
  | append_singleton records r ih =>
    rw [ofRecords_concat, get?_insert, valuesIn, List.filter_append, List.map_append]
    split
    · next h => simp [h]
    · next h =>
      have hne : r.key ≠ key := Ne.symm h
      rw [ih, valuesIn]
      simp [hne]

/-- Facts are those of records just if each key has its last value. -/
theorem eq_ofRecords_iff {f : FactSet} {records : List Wire.PairRecord} :
    f = ofRecords records ↔ ∀ key, f.get? key = (valuesIn records key).getLast? := by
  constructor
  · rintro rfl
    exact get?_ofRecords records
  · intro h
    exact eq_of_get? fun key => (h key).trans (get?_ofRecords records key).symm

end FactSet
end PeerDiscovery
