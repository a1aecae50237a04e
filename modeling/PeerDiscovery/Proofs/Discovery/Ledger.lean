import PeerDiscovery.Proofs.Discovery.Interleaving

/-! The ledger of queries: where each query stands after a log of events.
A query that is queued waits, the next registration hands all that wait to the new link, and a query that
is dispatched goes to the links named. The part of the ledger on one call (`Ledger.only`) is therefore
one of three, by what the log says of the call: `only_of_waiting`, `only_of_handed_over` and
`only_of_dispatched`. -/
namespace PeerDiscovery
namespace Discovery
namespace Interleaving

def Event.call? : Event → Option Nat
  | .queued i _ => some i
  | .dispatched i _ _ => some i
  | .registered _ => none

def callsOf (log : List Event) : List Nat := log.filterMap Event.call?

@[simp] theorem callsOf_nil : callsOf [] = [] := rfl

@[simp] theorem callsOf_append (log log' : List Event) : callsOf (log ++ log') = callsOf log ++ callsOf log' := by
  simp [callsOf]

@[simp] theorem callsOf_queued (i : Nat) (query : Envelope) (log : List Event) :
    callsOf (.queued i query :: log) = i :: callsOf log := rfl

@[simp] theorem callsOf_dispatched (i : Nat) (query : Envelope) (links : List Nat) (log : List Event) :
    callsOf (.dispatched i query links :: log) = i :: callsOf log := rfl

@[simp] theorem callsOf_registered (n : Nat) (log : List Event) :
    callsOf (.registered n :: log) = callsOf log := rfl

abbrev Entry := Nat × Envelope

@[ext] structure Ledger where
  /-- The queries that wait, the oldest one in front. -/
  waiting : List Entry
  /-- The queries that each link has been given, in order. -/
  received : Nat → List Entry

namespace Ledger

def empty : Ledger := ⟨[], fun _ => []⟩

def note (l : Ledger) : Event → Ledger
  | .queued i query => ⟨l.waiting ++ [(i, query)], l.received⟩
  | .dispatched i query links =>
    ⟨l.waiting, fun n => if n ∈ links then l.received n ++ [(i, query)] else l.received n⟩
  | .registered n => ⟨[], fun m => if m = n then l.received m ++ l.waiting else l.received m⟩

def noteAll (l : Ledger) (log : List Event) : Ledger := log.foldl note l

@[simp] theorem noteAll_nil (l : Ledger) : l.noteAll [] = l := rfl

theorem noteAll_cons (l : Ledger) (ev : Event) (log : List Event) :
    l.noteAll (ev :: log) = (l.note ev).noteAll log := rfl

theorem noteAll_append (l : Ledger) (log log' : List Event) :
    l.noteAll (log ++ log') = (l.noteAll log).noteAll log' := by
  simp [noteAll]

theorem received_note (l : Ledger) (ev : Event) (n : Nat) : l.received n <+: (l.note ev).received n := by
  cases ev with
  | queued i query => exact List.prefix_rfl
  | dispatched i query links =>
    simp only [note]
    split
    · exact List.prefix_append _ _
    · exact List.prefix_rfl
  | registered m =>
    simp only [note]
    split
    · exact List.prefix_append _ _
    · exact List.prefix_rfl

theorem received_noteAll (l : Ledger) (log : List Event) (n : Nat) :
    l.received n <+: (l.noteAll log).received n := by
  induction log generalizing l with
  | nil => exact List.prefix_rfl
  | cons ev log ih => exact (received_note l ev n).trans (ih (l.note ev))

/-- The part of the ledger on one call. -/
def only (l : Ledger) (i : Nat) : Ledger where
  waiting := l.waiting.filter fun p => p.1 = i
  received n := (l.received n).filter fun p => p.1 = i

@[simp] theorem only_empty (i : Nat) : empty.only i = empty := rfl

theorem only_note_same (l : Ledger) {ev : Event} {i : Nat} (h : ev.call? = some i ∨ ev.call? = none) :
    (l.note ev).only i = (l.only i).note ev := by
  cases ev with
  | queued j query =>
    obtain rfl : j = i := by simpa [Event.call?] using h
    simp [only, note]
  | dispatched j query links =>
    obtain rfl : j = i := by simpa [Event.call?] using h
    simp only [only, note, mk.injEq, true_and]
    funext n
    split <;> simp
  | registered m =>
    simp only [only, note, List.filter_nil, mk.injEq, true_and]
    funext n
    split <;> simp

theorem only_note_other (l : Ledger) {ev : Event} {i j : Nat} (h : ev.call? = some j) (hij : j ≠ i) :
    (l.note ev).only i = l.only i := by
  cases ev with
  | queued k query =>
    obtain rfl : k = j := by simpa [Event.call?] using h
    simp [only, note, hij]
  | dispatched k query links =>
    obtain rfl : k = j := by simpa [Event.call?] using h
    simp only [only, note, mk.injEq, true_and]
    funext n
    split <;> simp [hij]
  | registered m => exact absurd h (by simp [Event.call?])

theorem only_note_registered (l : Ledger) {i : Nat} (h : (l.only i).waiting = []) (n : Nat) :
    (l.note (.registered n)).only i = l.only i := by
  rw [only_note_same l (.inr rfl)]
  simp only [note, h, List.append_nil, ite_self]
  exact Ledger.ext h.symm rfl

/-- Events on other calls leave a call that waits alone until there is a registration. -/
theorem only_noteAll_of_unregistered {log : List Event} {i : Nat} (h : i ∉ callsOf log)
    (hr : ∀ n, .registered n ∉ log) (l : Ledger) : (l.noteAll log).only i = l.only i := by
  induction log generalizing l with
  | nil => rfl
  | cons ev log ih =>
    have hr' : ∀ n, .registered n ∉ log := fun n hn => hr n (List.mem_cons_of_mem _ hn)
    cases ev with
    | queued j query =>
      rw [callsOf_queued, List.mem_cons, not_or] at h
      exact (ih h.2 hr' _).trans (only_note_other l rfl (Ne.symm h.1))
    | dispatched j query links =>
      rw [callsOf_dispatched, List.mem_cons, not_or] at h
      exact (ih h.2 hr' _).trans (only_note_other l rfl (Ne.symm h.1))
    | registered n => exact absurd List.mem_cons_self (hr n)

theorem only_noteAll_of_not_waiting {log : List Event} {i : Nat} (h : i ∉ callsOf log) (l : Ledger)
    (hw : (l.only i).waiting = []) : (l.noteAll log).only i = l.only i := by
  induction log generalizing l with
  | nil => rfl
  | cons ev log ih =>
    have hh : i ∉ callsOf log ∧ (l.note ev).only i = l.only i := by
      cases ev with
      | queued j query =>
        rw [callsOf_queued, List.mem_cons, not_or] at h
        exact ⟨h.2, only_note_other l rfl (Ne.symm h.1)⟩
      | dispatched j query links =>
        rw [callsOf_dispatched, List.mem_cons, not_or] at h
        exact ⟨h.2, only_note_other l rfl (Ne.symm h.1)⟩
      | registered n => exact ⟨h, only_note_registered l hw n⟩
    exact (ih hh.1 (l.note ev) (by rw [hh.2]; exact hw)).trans hh.2

end Ledger

/-- The ledger after a log. -/
def ledger (log : List Event) : Ledger := Ledger.empty.noteAll log

theorem ledger_append (log log' : List Event) : ledger (log ++ log') = (ledger log).noteAll log' :=
  Ledger.noteAll_append _ _ _

variable {before later : List Event} {i : Nat} {query : Envelope}

theorem only_of_absent {log : List Event} (h : i ∉ callsOf log) : (ledger log).only i = .empty :=
  Ledger.only_noteAll_of_not_waiting h .empty rfl

theorem only_of_queued (hb : i ∉ callsOf before) (query : Envelope) :
    ((ledger before).note (.queued i query)).only i = ⟨[(i, query)], fun _ => []⟩ := by
  rw [Ledger.only_note_same _ (.inl rfl), only_of_absent hb]
  rfl

/-- A query that was queued waits until there is a registration. -/
theorem only_of_waiting (hb : i ∉ callsOf before) (hl : i ∉ callsOf later) (hr : ∀ n, .registered n ∉ later) :
    (ledger (before ++ .queued i query :: later)).only i = ⟨[(i, query)], fun _ => []⟩ := by
  rw [ledger_append, Ledger.noteAll_cons, Ledger.only_noteAll_of_unregistered hl hr]
  exact only_of_queued hb query

/-- A query that was queued is given to the first link registered after that, and to no other. -/
theorem only_of_handed_over {between : List Event} {n : Nat} (hb : i ∉ callsOf before)
    (hm : i ∉ callsOf between) (hl : i ∉ callsOf later) (hr : ∀ n, .registered n ∉ between) :
    (ledger (before ++ .queued i query :: between ++ .registered n :: later)).only i =
      ⟨[], fun m => if m = n then [(i, query)] else []⟩ := by
  have hh : ((ledger (before ++ .queued i query :: between)).note (.registered n)).only i =
      ⟨[], fun m => if m = n then [(i, query)] else []⟩ := by
    rw [Ledger.only_note_same _ (.inr rfl), only_of_waiting hb hm hr]
    simp [Ledger.note]
  rw [ledger_append, Ledger.noteAll_cons, Ledger.only_noteAll_of_not_waiting hl _ (by rw [hh])]
  exact hh

/-- A query that was dispatched is given to each of the links named, and to no other. -/
theorem only_of_dispatched {links : List Nat} (hb : i ∉ callsOf before) (hl : i ∉ callsOf later) :
    (ledger (before ++ .dispatched i query links :: later)).only i =
      ⟨[], fun n => if n ∈ links then [(i, query)] else []⟩ := by
  have hh : ((ledger before).note (.dispatched i query links)).only i =
      ⟨[], fun n => if n ∈ links then [(i, query)] else []⟩ := by
    rw [Ledger.only_note_same _ (.inl rfl), only_of_absent hb]
    simp [Ledger.note, Ledger.empty]
  rw [ledger_append, Ledger.noteAll_cons, Ledger.only_noteAll_of_not_waiting hl _ (by rw [hh])]
  exact hh

/-- The queries that wait are given to a new link first, in the order in which they were queued. -/
theorem waiting_prefix_received {n : Nat} (hn : (ledger before).received n = []) (later : List Event) :
    (ledger before).waiting <+: (ledger (before ++ .registered n :: later)).received n := by
  have hh : ((ledger before).note (.registered n)).received n = (ledger before).waiting := by
    simp [Ledger.note, hn]
  rw [ledger_append, Ledger.noteAll_cons, ← hh]
  exact Ledger.received_noteAll _ later n

end Interleaving
end Discovery
end PeerDiscovery
