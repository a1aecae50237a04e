import Mathlib.Data.List.Induction
import PeerDiscovery.Proofs.Envelope
import PeerDiscovery.Proofs.FactSet

/-! What becomes of a set of facts by any number of updates: `FactSet.canonical_form`.
Each key has the last value that was given for it. The pairs of the set stand in the order of their keys, so neither
they nor the bytes of an announcement or a query tell in which order the facts came, or which values were replaced. -/
namespace PeerDiscovery

namespace FactSet

/-- What is done with a variable that holds a set of facts. -/
inductive Update where
  /-- A fact is put in, and the value that it replaces comes back. -/
  | insert (key value : String)
  /-- A fact is put in, and nothing comes back. -/
  | adding (key value : String)
  /-- The set is made anew, from pairs in any order. -/
  | collect (pairs : List (String × String))
  | ofRecords (records : List Wire.PairRecord)
  deriving DecidableEq, Repr

/-- The set after an update, and the value that comes back. -/
def perform (f : FactSet) : Update → FactSet × Option String
  | .insert key value => f.put key value
  | .adding key value => (f.insert key value, none)
  | .collect pairs => (ofPairs pairs, none)
  | .ofRecords records => (ofRecords records, none)

/-- The set after a run of updates. -/
def made (run : List Update) : FactSet := run.foldl (fun f u => (f.perform u).1) ∅

/-- The facts that were given for the set of now, after one more update. -/
def Update.onto (facts : List Wire.PairRecord) : Update → List Wire.PairRecord
  | .insert key value | .adding key value => facts ++ [⟨key, value⟩]
  | .collect pairs => pairs.map fun p => ⟨p.1, p.2⟩
  | .ofRecords records => records

def given (run : List Update) : List Wire.PairRecord := run.foldl Update.onto []

def lastGiven (run : List Update) (key : String) : Option String := (valuesIn (given run) key).getLast?

theorem ofRecords_onto (facts : List Wire.PairRecord) (u : Update) :
    ofRecords (u.onto facts) = ((ofRecords facts).perform u).1 := by
  cases u with
  | insert key value => rw [Update.onto, ofRecords_concat, perform, put_eq]
  | adding key value => exact ofRecords_concat facts ⟨key, value⟩
  | collect pairs => simp [Update.onto, perform, ofRecords, Function.comp_def]
  | ofRecords records => rfl

theorem made_eq_ofRecords (run : List Update) : made run = ofRecords (given run) := by
  induction run using List.reverseRecOn with
  | nil => rfl
  | append_singleton run u ih =>
    have hmade : made (run ++ [u]) = ((made run).perform u).1 := by simp [made]
    have hgiven : given (run ++ [u]) = u.onto (given run) := by simp [given]
    rw [hmade, hgiven, ofRecords_onto, ih]

theorem get?_made (run : List Update) (key : String) : (made run).get? key = lastGiven run key := by
  rw [made_eq_ofRecords, get?_ofRecords, lastGiven]

theorem made_eq_iff (run run' : List Update) : made run' = made run ↔ ∀ key, lastGiven run' key = lastGiven run key := by
  simp only [← get?_made]
  exact ⟨fun h key => by rw [h], eq_of_get?⟩

theorem pairwise_records (f : FactSet) : f.records.Pairwise fun r r' => Text.Before r.key r'.key :=
  List.pairwise_map.2 f.sorted

theorem records_inj {f g : FactSet} : f = g ↔ f.records = g.records := by
  refine ⟨fun h => by rw [h], fun h => ?_⟩
  rw [← ofRecords_records f, h, ofRecords_records g]

/-- A set of facts is a finite map with one form. After any run of updates a key has the last value that was given for
it, and this is what an insertion hands back. The records of the set hold each key once, in the order of the bytes, and
the set is made of them again. So two runs that give the same last values make the same set, and the same bytes of the
announcements and the queries with it; where an envelope can be written, only they do. -/
theorem canonical_form (run : List Update) :
    (∀ key, (made run).get? key = lastGiven run key) ∧
    (∀ key value, (made run).perform (.insert key value) = (made (run ++ [.insert key value]), lastGiven run key)) ∧
    ((made run).records.Pairwise fun r r' => Bytes.ofText r.key < Bytes.ofText r'.key) ∧
    (∀ r, r ∈ (made run).records ↔ lastGiven run r.key = some r.value) ∧
    ofRecords (made run).records = made run ∧
    (∀ f g : FactSet, f = g ↔ f.records = g.records) ∧
    ∀ run' : List Update, (made run' = made run ↔ ∀ key, lastGiven run' key = lastGiven run key) ∧
      ∀ kind : FactSet → Message, kind = .announce ∨ kind = .query → ∀ id token sender,
        ((∀ key, lastGiven run' key = lastGiven run key) →
          Envelope.encode ⟨id, token, sender, kind (made run')⟩ = Envelope.encode ⟨id, token, sender, kind (made run)⟩) ∧
        (Envelope.Writable ⟨id, token, sender, kind (made run)⟩ →
          Envelope.encode ⟨id, token, sender, kind (made run')⟩ = Envelope.encode ⟨id, token, sender, kind (made run)⟩ →
          ∀ key, lastGiven run' key = lastGiven run key) := by
  refine ⟨get?_made run, fun key value => ?_, (made run).pairwise_records, fun r => ?_, ofRecords_records _,
    fun _ _ => records_inj, fun run' => ⟨made_eq_iff run run', fun kind hkind id token sender => ⟨fun h => ?_, ?_⟩⟩⟩
  · have hmade : made (run ++ [.insert key value]) = (made run).insert key value := by
      simp [made, perform, put_eq]
    rw [perform, put_eq, hmade, get?_made]
  · rw [mem_records_iff, get?_made]
  · rw [(made_eq_iff run run').2 h]
  · intro hw he
    have hmessage : kind (made run') = kind (made run) := congrArg Envelope.message (Envelope.eq_of_encode_eq hw he)
    rw [← made_eq_iff]
    rcases hkind with rfl | rfl
    · exact Message.announce.inj hmessage
    · exact Message.query.inj hmessage

end FactSet
end PeerDiscovery
