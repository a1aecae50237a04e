import PeerDiscovery.Config.Reading
import PeerDiscovery.Proofs.Lists

/-! Which documents are configurations, and of what: `Config.ofValue?_eq_some_iff`.
The relations say what a value has to be, field by field and service by service; a field that is not there says its
default. Any other value makes the whole document unreadable. -/
namespace PeerDiscovery
namespace Config

open Toml (Value)

/-- What a field says, for which a value stands or none. -/
def Says {α : Type} (Is : Value → α → Prop) (default : α) : Option Value → α → Prop
  | none, a => a = default
  | some value, a => Is value a

theorem readField_eq_some_iff {α : Type} {read? : Value → Option α} {Is : Value → α → Prop}
    (h : ∀ value a, read? value = some a ↔ Is value a) {default : α} {value? : Option Value} {a : α} :
    readField read? default value? = some a ↔ Says Is default value? a := by
  cases value? with
  | none => exact Option.some_inj.trans eq_comm
  | some value => exact h value a

def IsText (value : Value) (text : String) : Prop := value = .text text

def IsBoolean (value : Value) (b : Bool) : Prop := value = .boolean b

def IsPort (value : Value) (port : UInt16) : Prop := value = .integer port.toNat

def IsSeconds (value : Value) (seconds : UInt64) : Prop := value = .integer seconds.toNat

theorem text?_eq_some_iff (value : Value) (text : String) : text? value = some text ↔ IsText value text := by
  cases value <;> simp [text?, IsText]

theorem boolean?_eq_some_iff (value : Value) (b : Bool) : boolean? value = some b ↔ IsBoolean value b := by
  cases value <;> simp [boolean?, IsBoolean]

theorem natural?_eq_some_iff {max n : Nat} {value : Value} :
    natural? max value = some n ↔ value = .integer n ∧ n ≤ max := by
  unfold natural?
  split
  · next m =>
    rw [Option.ite_none_right_eq_some, Option.some_inj, Value.integer.injEq]
    omega
  · next hne => exact iff_of_false nofun fun h => hne _ h.1

theorem map_eq_some_iff_of_inverse {α : Type} {ofNat : Nat → α} {toNat : α → Nat} {max : Nat}
    (hof : ∀ a, ofNat (toNat a) = a) (hto : ∀ n ≤ max, toNat (ofNat n) = n) {read : Option Nat}
    (h : ∀ n, read = some n → n ≤ max) {a : α} : read.map ofNat = some a ↔ read = some (toNat a) := by
  constructor
  · intro hread
    obtain ⟨n, hn, rfl⟩ := Option.map_eq_some_iff.1 hread
    rw [hto n (h n hn), hn]
  · rintro rfl
    rw [Option.map_some, hof]

theorem map_toUInt16_eq_some_iff {read : Option Nat} (h : ∀ n, read = some n → n ≤ UInt16.size - 1) {port : UInt16} :
    read.map UInt16.ofNat = some port ↔ read = some port.toNat :=
  map_eq_some_iff_of_inverse (fun _ => UInt16.ofNat_toNat)
    (fun _ hn => UInt16.toNat_ofNat_of_lt' (Nat.lt_of_le_pred (by decide) hn)) h

theorem map_toUInt64_eq_some_iff {read : Option Nat} (h : ∀ n, read = some n → n ≤ UInt64.size - 1) {seconds : UInt64} :
    read.map UInt64.ofNat = some seconds ↔ read = some seconds.toNat :=
  map_eq_some_iff_of_inverse (fun _ => UInt64.ofNat_toNat)
    (fun _ hn => UInt64.toNat_ofNat_of_lt' (Nat.lt_of_le_pred (by decide) hn)) h

theorem port?_eq_some_iff (value : Value) (port : UInt16) : port? value = some port ↔ IsPort value port := by
  rw [port?, map_toUInt16_eq_some_iff fun n hn => (natural?_eq_some_iff.1 hn).2, natural?_eq_some_iff]
  exact and_iff_left (Nat.le_pred_of_lt port.toNat_lt)

theorem seconds?_eq_some_iff (value : Value) (seconds : UInt64) :
    seconds? value = some seconds ↔ IsSeconds value seconds := by
  rw [seconds?, map_toUInt64_eq_some_iff fun n hn => (natural?_eq_some_iff.1 hn).2, natural?_eq_some_iff]
  exact and_iff_left (Nat.le_pred_of_lt seconds.toNat_lt)

/-- Settings as the fields of a record have them. -/
structure AreSettings (field : Fields) (s : NetworkSettings) : Prop where
  mailbox : Says IsText ({} : NetworkSettings).mailbox (field "mailbox" 0) s.mailbox
  broadcastPort : Says IsPort ({} : NetworkSettings).broadcastPort (field "broadcast_port" 1) s.broadcastPort
  broadcastIntervalSecs : Says IsSeconds ({} : NetworkSettings).broadcastIntervalSecs
    (field "broadcast_interval_secs" 2) s.broadcastIntervalSecs
  activeBroadcast : Says IsBoolean ({} : NetworkSettings).activeBroadcast (field "active_broadcast" 3) s.activeBroadcast
  shutdownTimeoutSecs : Says IsSeconds ({} : NetworkSettings).shutdownTimeoutSecs (field "shutdown_timeout_secs" 4)
    s.shutdownTimeoutSecs

def IsNetwork (value : Value) (s : NetworkSettings) : Prop :=
  ∃ field, fields? value = some field ∧ AreSettings field s

theorem network?_eq_some_iff (value : Value) (s : NetworkSettings) : network? value = some s ↔ IsNetwork value s := by
  simp only [network?, Option.bind_eq_bind, Option.bind_eq_some_iff, Option.pure_def, Option.some_inj,
    readField_eq_some_iff text?_eq_some_iff, readField_eq_some_iff port?_eq_some_iff,
    readField_eq_some_iff seconds?_eq_some_iff, readField_eq_some_iff boolean?_eq_some_iff]
  constructor
  · rintro ⟨field, hfield, mailbox, hmailbox, port, hport, interval, hinterval, active, hactive, limit, hlimit, rfl⟩
    exact ⟨field, hfield, hmailbox, hport, hinterval, hactive, hlimit⟩
  · rintro ⟨field, hfield, hmailbox, hport, hinterval, hactive, hlimit⟩
    exact ⟨field, hfield, _, hmailbox, _, hport, _, hinterval, _, hactive, _, hlimit, rfl⟩

/-- Facts are a table of texts. A moment is a fact of its own. -/
def AreFacts (value : Value) (facts : FactSet) : Prop :=
  (∃ form entries pairs, value = .table form entries ∧
    List.Forall₂ (fun (e : String × Value) (p : String × String) => e = (p.1, .text p.2)) entries pairs ∧
      facts = .ofPairs pairs) ∨
  ∃ text, value = .moment text ∧ facts = .ofPairs [(momentKey, text)]

theorem facts?_eq_some_iff (value : Value) (facts : FactSet) : facts? value = some facts ↔ AreFacts value facts := by
  have hentry : ∀ (e : String × Value) (p : String × String),
      (text? e.2).map (fun text => (e.1, text)) = some p ↔ e = (p.1, .text p.2) := by
    rintro ⟨key, value⟩ ⟨key', text⟩
    rw [Option.map_eq_some_iff]
    simp only [text?_eq_some_iff, IsText, Prod.mk.injEq]
    constructor
    · rintro ⟨_, rfl, rfl, rfl⟩
      exact ⟨rfl, rfl⟩
    · rintro ⟨rfl, rfl⟩
      exact ⟨text, rfl, rfl, rfl⟩
  cases value with
  | table form entries =>
    simp only [facts?, Option.map_eq_some_iff, mapM_eq_some_iff, hentry, AreFacts, reduceCtorEq, false_and,
      exists_false, or_false, Value.table.injEq]
    constructor
    · rintro ⟨pairs, hpairs, rfl⟩
      exact ⟨form, entries, pairs, ⟨rfl, rfl⟩, hpairs, rfl⟩
    · rintro ⟨_, _, pairs, ⟨rfl, rfl⟩, hpairs, rfl⟩
      exact ⟨pairs, hpairs, rfl⟩
  | moment text => simp [facts?, AreFacts, eq_comm]
  | _ => simp [facts?, AreFacts]

def IsService (value : Value) (facts : FactSet) : Prop :=
  ∃ field, fields? value = some field ∧ Says AreFacts ∅ (field "facts" 0) facts

theorem service?_eq_some_iff (value : Value) (facts : FactSet) :
    service? value = some facts ↔ IsService value facts := by
  simp only [service?, Option.bind_eq_bind, Option.bind_eq_some_iff, readField_eq_some_iff facts?_eq_some_iff,
    IsService]

/-- Services stand in an array, or each under a header of its own. -/
def AreServices (value : Value) (services : List FactSet) : Prop :=
  ∃ items, (value = .array items ∨ value = .tables items) ∧ List.Forall₂ IsService items services

theorem services?_eq_some_iff (value : Value) (services : List FactSet) :
    services? value = some services ↔ AreServices value services := by
  cases value with
  | array | tables => simp [services?, AreServices, mapM_eq_some_iff, service?_eq_some_iff]
  | _ => simp [services?, AreServices]

def Describes (document : Value) (c : Config) : Prop :=
  ∃ field, fields? document = some field ∧ Says IsNetwork {} (field "network" 0) c.network ∧
    Says AreServices [] (field "services" 1) c.services

theorem ofValue?_eq_some_iff {document : Value} {c : Config} : ofValue? document = some c ↔ Describes document c := by
  simp only [ofValue?, Option.bind_eq_bind, Option.bind_eq_some_iff, Option.pure_def, Option.some_inj,
    readField_eq_some_iff network?_eq_some_iff, readField_eq_some_iff services?_eq_some_iff]
  constructor
  · rintro ⟨field, hfield, network, hnetwork, services, hservices, rfl⟩
    exact ⟨field, hfield, hnetwork, hservices⟩
  · rintro ⟨field, hfield, hnetwork, hservices⟩
    exact ⟨field, hfield, _, hnetwork, _, hservices, rfl⟩

/-- A text that reads as a document which describes a configuration. -/
def IsConfigText (text : String) (c : Config) : Prop :=
  ∃ document, Toml.parse? text = some document ∧ Describes document c

theorem ofText?_eq_some_iff {text : String} {c : Config} : ofText? text = some c ↔ IsConfigText text c := by
  simp only [ofText?, Option.bind_eq_bind, Option.bind_eq_some_iff, ofValue?_eq_some_iff, IsConfigText]

end Config
end PeerDiscovery
