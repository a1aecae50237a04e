import Mathlib.Data.List.Induction
import PeerDiscovery.Directory
import PeerDiscovery.Proofs.Endpoint.Text
import PeerDiscovery.Proofs.FactSet

/-! The directory as a finite map: after any requests it has for each endpoint what was added last and not taken out
since, and every answer can be read off that (`finite_map`).
The answer to a query is sorted by the texts of its endpoints. No two endpoints have the same text, so there is one
such order, however the entries stand (`query_congr`). -/
namespace PeerDiscovery
namespace Directory

variable {d d' : Directory} {endpoint : Endpoint} {facts : FactSet}

@[simp] theorem get?_empty (endpoint : Endpoint) : (∅ : Directory).get? endpoint = none := rfl

theorem mem_entries_iff : (endpoint, facts) ∈ d.entries ↔ d.get? endpoint = some facts :=
  (lookup_eq_some_iff_mem d.nodup).symm

theorem get?_erase (d : Directory) (gone endpoint : Endpoint) :
    (d.erase gone).get? endpoint = if endpoint = gone then none else d.get? endpoint := by
  split
  · next h =>
    subst h
    exact lookup_filter_self d.entries endpoint
  · next h => exact lookup_filter_of_ne d.entries h

theorem get?_add (d : Directory) (own endpoint : Endpoint) (facts : FactSet) :
    (d.add own facts).get? endpoint = if endpoint = own then some facts else d.get? endpoint := by
  change ((d.erase own).entries ++ [(own, facts)]).lookup endpoint = _
  have herase := d.get?_erase own endpoint
  rw [List.lookup_append, show (d.erase own).entries.lookup endpoint = _ from herase]
  split
  · next h => simp [h]
  · next h =>
    have hne : (endpoint == own) = false := by simpa using h
    simp [List.lookup_cons, hne]

theorem mem_keys_iff : endpoint ∈ d.entries.map Prod.fst ↔ ∃ facts, d.get? endpoint = some facts := by
  simp only [← mem_entries_iff, List.mem_map, Prod.exists, exists_and_right, exists_eq_right]

theorem mem_query_iff {asked : FactSet} :
    endpoint ∈ d.query asked ↔ ∃ facts, d.get? endpoint = some facts ∧ ∀ p ∈ asked.pairs, p ∈ facts.pairs := by
  simp only [query, List.mem_mergeSort, List.mem_map, List.mem_filter, decide_eq_true_eq, Prod.exists,
    exists_and_right, exists_eq_right, mem_entries_iff, FactSet.containsAll_iff]

theorem textLE_trans {a b c : Endpoint} (hab : textLE a b = true) (hbc : textLE b c = true) : textLE a c = true := by
  simp only [textLE, decide_eq_true_eq] at *
  intro hca
  by_cases hcb : Text.Before c.text b.text
  · exact hbc hcb
  · by_cases hbc' : Text.Before b.text c.text
    · exact hab (hbc'.trans hca)
    · rw [Text.eq_of_not_before hcb hbc'] at hca
      exact hab hca

theorem textLE_total (a b : Endpoint) : (textLE a b || textLE b a) = true := by
  simp only [textLE, Bool.or_eq_true, decide_eq_true_eq]
  by_cases h : Text.Before b.text a.text
  · exact .inr h.asymm
  · exact .inl h

theorem nodup_query (d : Directory) (asked : FactSet) : (d.query asked).Nodup := by
  rw [Directory.query, (List.mergeSort_perm _ _).nodup_iff]
  exact d.nodup.sublist (List.filter_sublist.map _)

/-- The endpoints of an answer stand in the strict order of their texts. -/
theorem pairwise_query (d : Directory) (asked : FactSet) :
    (d.query asked).Pairwise fun a b => Text.Before a.text b.text := by
  have hsorted : (d.query asked).Pairwise fun a b => textLE a b = true := by
    refine List.pairwise_mergeSort ?_ ?_ _
    · intro a b c
      exact textLE_trans
    · intro a b
      exact textLE_total a b
  have hne : (d.query asked).Pairwise fun a b => a ≠ b := d.nodup_query asked
  refine hsorted.imp₂ (fun a b hab hne => ?_) hne
  simp only [textLE, decide_eq_true_eq] at hab
  by_contra hlt
  exact hne (Endpoint.text_injective (Text.eq_of_not_before hlt hab))

theorem eq_of_pairwise_text {l l' : List Endpoint} (hl : l.Pairwise fun a b => Text.Before a.text b.text)
    (hl' : l'.Pairwise fun a b => Text.Before a.text b.text) (h : ∀ endpoint, endpoint ∈ l ↔ endpoint ∈ l') : l = l' := by
  have hne : ∀ a b : Endpoint, Text.Before a.text b.text → a ≠ b := fun a b hab he =>
    Text.Before.irrefl a.text (by rwa [← he] at hab)
  have hperm : l.Perm l' :=
    (List.perm_ext_iff_of_nodup (hl.imp fun {a b} => hne a b) (hl'.imp fun {a b} => hne a b)).2 h
  exact hperm.eq_of_pairwise (fun a b _ _ hab hba => absurd hba hab.asymm) hl hl'

theorem query_congr (h : ∀ endpoint, d.get? endpoint = d'.get? endpoint) (asked : FactSet) :
    d.query asked = d'.query asked :=
  eq_of_pairwise_text (d.pairwise_query asked) (d'.pairwise_query asked) fun endpoint => by
    rw [mem_query_iff, mem_query_iff, h]

theorem get?_of_perm (h : d.entries.Perm d'.entries) (endpoint : Endpoint) : d.get? endpoint = d'.get? endpoint :=
  Option.ext fun facts => by rw [← mem_entries_iff, ← mem_entries_iff, h.mem_iff]

/-- What is asked of a directory. -/
inductive Request where
  | add (endpoint : Endpoint) (facts : FactSet)
  | remove (endpoint : Endpoint)
  | clear
  | get (endpoint : Endpoint)
  | query (facts : FactSet)
  | size
  deriving DecidableEq

inductive Answer where
  /-- Whether an endpoint that was added had no facts before. -/
  | isNew (new : Bool)
  | facts (found : Option FactSet)
  | endpoints (found : List Endpoint)
  | size (count : Nat)
  | done
  deriving DecidableEq

def perform (d : Directory) : Request → Directory × Answer
  | .add endpoint facts => (d.insert endpoint facts).map id .isNew
  | .remove endpoint => (d.remove endpoint).map id .facts
  | .clear => (∅, .done)
  | .get endpoint => (d, .facts (d.get? endpoint))
  | .query facts => (d, .endpoints (d.query facts))
  | .size => (d, .size d.size)

def after (d : Directory) (run : List Request) : Directory := run.foldl (fun d r => (d.perform r).1) d

theorem after_concat (d : Directory) (run : List Request) (r : Request) :
    d.after (run ++ [r]) = ((d.after run).perform r).1 := by simp [after]

/-- The request sets the facts of the endpoint, or takes it out. -/
def Request.Writes (endpoint : Endpoint) : Request → Prop
  | .add own _ => own = endpoint
  | .remove own => own = endpoint
  | .clear => True
  | _ => False

/-- The facts with which an endpoint was added last, if it was not taken out since then. -/
def AddedLast (run : List Request) (endpoint : Endpoint) (facts : FactSet) : Prop :=
  ∃ before later, run = before ++ .add endpoint facts :: later ∧ ∀ r ∈ later, ¬r.Writes endpoint

theorem not_addedLast_nil : ¬AddedLast [] endpoint facts := by
  rintro ⟨before, later, h, -⟩
  cases before <;> cases h

theorem addedLast_concat {run : List Request} {r : Request} :
    AddedLast (run ++ [r]) endpoint facts ↔
      r = .add endpoint facts ∨ ¬r.Writes endpoint ∧ AddedLast run endpoint facts := by
  constructor
  · rintro ⟨before, later, hrun, hlater⟩
    rcases concat_eq_append_cons hrun with ⟨rfl, rfl, -⟩ | ⟨later, rfl, rfl⟩
    · exact .inl rfl
    · exact .inr ⟨hlater r (by simp), before, later, rfl, fun r' hr' => hlater r' (by simp [hr'])⟩
  · rintro (rfl | ⟨hr, before, later, rfl, hlater⟩)
    · exact ⟨run, [], rfl, by simp⟩
    · refine ⟨before, later ++ [r], by simp, fun r' hr' => ?_⟩
      rcases List.mem_append.1 hr' with hr' | hr'
      · exact hlater r' hr'
      · exact List.mem_singleton.1 hr' ▸ hr

theorem get?_perform (d : Directory) (r : Request) :
    (d.perform r).1.get? endpoint = some facts ↔
      r = .add endpoint facts ∨ ¬r.Writes endpoint ∧ d.get? endpoint = some facts := by
  cases r with
  | add own service =>
    simp only [perform, insert, Prod.map_apply, id, get?_add, Request.Writes, Request.add.injEq]
    split
    · next h => simp [h, eq_comm]
    · next h => simp [Ne.symm h]
  | remove own =>
    simp only [perform, remove, Prod.map_apply, id, get?_erase, Request.Writes, reduceCtorEq, false_or]
    split
    · next h => simp [h]
    · next h => simp [Ne.symm h]
  | clear => simp [perform, Request.Writes]
  | get | query | size => simp [perform, Request.Writes]

theorem get?_after (run : List Request) (endpoint : Endpoint) (facts : FactSet) :
    ((∅ : Directory).after run).get? endpoint = some facts ↔ AddedLast run endpoint facts := by
  induction run using List.reverseRecOn with
  | nil => exact iff_of_false (by simp [after]) not_addedLast_nil
  | append_singleton run r ih => rw [after_concat, get?_perform, addedLast_concat, ih]

/-- A directory is a finite map. After any requests an endpoint has the facts with which it was added last, unless it
was taken out since then. An endpoint that is added is new if it has none; one that is removed or looked up is
answered with those that it has; and the size counts the endpoints that have some. A query is answered with the
endpoints whose facts have all its pairs, each once, in the strict order of their texts. So neither the way to the
entries nor the order in which they are kept makes a difference to any query. -/
theorem finite_map (run : List Request) :
    let d := (∅ : Directory).after run
    (∀ endpoint facts, d.get? endpoint = some facts ↔ AddedLast run endpoint facts) ∧
    (∀ endpoint facts, ∃ new, (d.perform (.add endpoint facts)).2 = .isNew new ∧
      (new = true ↔ ∀ facts', ¬AddedLast run endpoint facts')) ∧
    (∀ endpoint, ∃ found, (d.perform (.remove endpoint)).2 = .facts found ∧
      (d.perform (.get endpoint)).2 = .facts found ∧ ∀ facts, found = some facts ↔ AddedLast run endpoint facts) ∧
    (∃ endpoints : List Endpoint, endpoints.Nodup ∧
      (∀ endpoint, endpoint ∈ endpoints ↔ ∃ facts, AddedLast run endpoint facts) ∧
      (d.perform .size).2 = .size endpoints.length) ∧
    (∀ asked, ∃ found, (d.perform (.query asked)).2 = .endpoints found ∧
      (∀ endpoint, endpoint ∈ found ↔ ∃ facts, AddedLast run endpoint facts ∧ ∀ p ∈ asked.pairs, p ∈ facts.pairs) ∧
      found.Pairwise fun a b => Text.Before a.text b.text) ∧
    (∀ run', (∀ endpoint facts, AddedLast run' endpoint facts ↔ AddedLast run endpoint facts) →
      ∀ asked, ((∅ : Directory).after run').query asked = d.query asked) ∧
    ∀ d' : Directory, d'.entries.Perm d.entries → ∀ asked, d'.query asked = d.query asked := by
  intro d
  have hget : ∀ endpoint facts, d.get? endpoint = some facts ↔ AddedLast run endpoint facts := get?_after run
  refine ⟨hget, fun endpoint facts => ⟨_, rfl, ?_⟩, fun endpoint => ⟨_, rfl, rfl, hget endpoint⟩,
    ⟨d.entries.map Prod.fst, d.nodup, fun endpoint => ?_, ?_⟩,
    fun asked => ⟨_, rfl, fun endpoint => ?_, d.pairwise_query asked⟩, fun run' h asked => ?_, fun d' h asked => ?_⟩
  · simp only [Option.isNone_iff_eq_none, Option.eq_none_iff_forall_ne_some, ne_eq, hget]
  · simp only [mem_keys_iff, hget]
  · simp [perform, size]
  · simp only [mem_query_iff, hget]
  · refine query_congr (fun endpoint => Option.ext fun facts => ?_) asked
    rw [get?_after, hget, h]
  · exact query_congr (get?_of_perm h) asked

end Directory
end PeerDiscovery
