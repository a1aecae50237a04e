import PeerDiscovery.Proofs.Directory

/-! Queries that ask for more: `Directory.query_narrows`.
Sets of facts are partly ordered by what they contain. A query with more facts takes endpoints out of the answer and
leaves the others where they are. -/
namespace PeerDiscovery

namespace FactSet

variable {f g h asked : FactSet}

theorem containsAll_refl (f : FactSet) : f.ContainsAll f := containsAll_iff.2 fun _ hp => hp

theorem ContainsAll.trans (hfg : f.ContainsAll g) (hgh : g.ContainsAll h) : f.ContainsAll h :=
  containsAll_iff.2 fun p hp => containsAll_iff.1 hfg p (containsAll_iff.1 hgh p hp)

theorem ContainsAll.antisymm (hfg : f.ContainsAll g) (hgf : g.ContainsAll f) : f = g := by
  refine eq_of_get? fun key => Option.ext fun value => ?_
  rw [← f.mem_pairs_iff (key, value), ← g.mem_pairs_iff (key, value)]
  exact ⟨containsAll_iff.1 hgf (key, value), containsAll_iff.1 hfg (key, value)⟩

theorem containsAll_iff_records : f.ContainsAll asked ↔ ∀ r ∈ asked.records, r ∈ f.records := by
  constructor
  · intro h r hr
    rw [mem_records_iff] at hr ⊢
    exact h (r.key, r.value) ((asked.mem_pairs_iff _).2 hr)
  · intro h p hp
    exact (f.mem_records_iff ⟨p.1, p.2⟩).1 (h _ ((asked.mem_records_iff _).2 ((asked.mem_pairs_iff p).1 hp)))

theorem containsAll_insert {key value : String} (hkey : asked.get? key = none) :
    f.ContainsAll (asked.insert key value) ↔ f.ContainsAll asked ∧ f.get? key = some value := by
  simp only [ContainsAll, mem_pairs_iff, get?_insert]
  constructor
  · intro h
    refine ⟨fun p hp => h p ?_, h (key, value) (if_pos rfl)⟩
    have hne : p.1 ≠ key := fun he => by rw [he, hkey] at hp; cases hp
    rw [if_neg hne, hp]
  · rintro ⟨h, hvalue⟩ p hp
    split at hp
    · next he => rw [he, hvalue, hp]
    · exact h p hp

end FactSet

namespace Directory

variable {d : Directory} {wide narrow asked : FactSet}

theorem mem_query_iff_containsAll {endpoint : Endpoint} :
    endpoint ∈ d.query asked ↔ ∃ facts, d.get? endpoint = some facts ∧ facts.ContainsAll asked := by
  simp only [mem_query_iff, FactSet.containsAll_iff]

/-- An answer is part of another one as soon as its endpoints are: both stand in the order of their texts. -/
theorem query_eq_filter {P : Endpoint → Prop} [DecidablePred P]
    (h : ∀ endpoint, endpoint ∈ d.query narrow ↔ endpoint ∈ d.query wide ∧ P endpoint) :
    d.query narrow = (d.query wide).filter fun endpoint => P endpoint :=
  eq_of_pairwise_text (d.pairwise_query narrow) ((d.pairwise_query wide).filter _) fun endpoint => by
    rw [h, List.mem_filter, decide_eq_true_eq]

theorem query_sublist (h : narrow.ContainsAll wide) : (d.query narrow).Sublist (d.query wide) := by
  have hfilter : d.query narrow = (d.query wide).filter fun endpoint => endpoint ∈ d.query narrow := by
    refine query_eq_filter fun endpoint => ⟨fun hn => ⟨?_, hn⟩, fun hn => hn.2⟩
    obtain ⟨facts, hget, hall⟩ := mem_query_iff_containsAll.1 hn
    exact mem_query_iff_containsAll.2 ⟨facts, hget, hall.trans h⟩
  rw [hfilter]
  exact List.filter_sublist

/-- The entry of an endpoint has this value under a key. -/
def HasFact (d : Directory) (key value : String) (endpoint : Endpoint) : Prop :=
  ∃ facts, d.get? endpoint = some facts ∧ facts.get? key = some value

instance (d : Directory) (key value : String) : DecidablePred (d.HasFact key value) := fun endpoint =>
  decidable_of_iff ((d.get? endpoint).bind (fun facts => facts.get? key) = some value) Option.bind_eq_some_iff

theorem query_insert {key value : String} (hkey : asked.get? key = none) :
    d.query (asked.insert key value) = (d.query asked).filter fun endpoint => d.HasFact key value endpoint := by
  refine query_eq_filter fun endpoint => ?_
  simp only [mem_query_iff_containsAll, FactSet.containsAll_insert hkey, HasFact]
  constructor
  · rintro ⟨facts, hget, hall, hvalue⟩
    exact ⟨⟨facts, hget, hall⟩, facts, hget, hvalue⟩
  · rintro ⟨⟨facts, hget, hall⟩, facts', hget', hvalue⟩
    obtain rfl : facts = facts' := Option.some.inj (hget.symm.trans hget')
    exact ⟨facts, hget, hall, hvalue⟩

theorem query_empty_perm (d : Directory) : (d.query ∅).Perm (d.entries.map Prod.fst) := by
  refine (List.perm_ext_iff_of_nodup (d.nodup_query ∅) d.nodup).2 fun endpoint => ?_
  rw [mem_query_iff, mem_keys_iff]
  exact exists_congr fun facts => and_iff_left fun p hp => absurd hp List.not_mem_nil

/-- To contain all facts of another set is a partial order, and it is the inclusion of the records. A query that
contains another one has an answer that is a part of the other's answer, in the same order. The empty query is answered
with every entry. With one more fact under a new key just those endpoints of the answer remain that have this fact, and
an entry is always among the answers to its own facts. -/
theorem query_narrows :
    (∀ f : FactSet, f.ContainsAll f) ∧
    (∀ f g h : FactSet, f.ContainsAll g → g.ContainsAll h → f.ContainsAll h) ∧
    (∀ f g : FactSet, f.ContainsAll g → g.ContainsAll f → f = g) ∧
    (∀ f asked : FactSet, f.ContainsAll asked ↔ ∀ r ∈ asked.records, r ∈ f.records) ∧
    ∀ d : Directory,
      (∀ wide narrow : FactSet, narrow.ContainsAll wide → (d.query narrow).Sublist (d.query wide)) ∧
      (d.query ∅).Perm (d.entries.map Prod.fst) ∧
      (∀ (asked : FactSet) (key value : String), asked.get? key = none →
        d.query (asked.insert key value) = (d.query asked).filter fun endpoint => d.HasFact key value endpoint) ∧
      ∀ endpoint facts, d.get? endpoint = some facts → endpoint ∈ d.query facts :=
  ⟨FactSet.containsAll_refl, fun _ _ _ => FactSet.ContainsAll.trans, fun _ _ => FactSet.ContainsAll.antisymm,
    fun _ _ => FactSet.containsAll_iff_records, fun d => ⟨fun _ _ => query_sublist, d.query_empty_perm,
      fun _ _ _ => query_insert, fun _ facts hget => mem_query_iff_containsAll.2 ⟨facts, hget, facts.containsAll_refl⟩⟩⟩

end Directory
end PeerDiscovery
