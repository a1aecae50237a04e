import Mathlib.Data.List.Induction
import PeerDiscovery.Proofs.Discovery.Run

/-! Queries in flight and their answers.
A query that went out is in flight until the first answer to its id, and only that answer is passed
on to whoever asked: `answered_once`. -/
namespace PeerDiscovery
namespace Discovery

def FindOutcome.id? : FindOutcome → Option CorrelationId
  | .dispatched id | .queued id => some id
  | .local _ | .stopped => none

/-- An envelope that answers the query with an id by a list of texts. -/
structure Answers (envelope : Envelope) (id : CorrelationId) (texts : List String) : Prop where
  id_eq : envelope.id = id
  token_eq : envelope.token = Envelope.queryToken
  message_eq : envelope.message = .response texts

/-- An operation that takes in an answer to the query with an id. -/
def Operation.Settles {κ : Type} (op : Operation κ) (id : CorrelationId) : Prop :=
  ∃ envelope texts, op = .response envelope ∧ Answers envelope id texts

namespace Engine

variable {κ : Type}

/-- After the operations `before` of the run `ops` a query went out under an id, and `later` followed. -/
structure Asks (e : Engine κ) (ops before later : List (Operation κ)) (facts : FactSet) (k : κ)
    (id : CorrelationId) : Prop where
  run_eq : ops = before ++ .find facts k :: later
  id_eq : ((e.after before).find facts k).2.1.id? = some id

/-- A query of the run went out under an id, and no answer to it has come. -/
def Awaits (e : Engine κ) (ops : List (Operation κ)) (id : CorrelationId) (k : κ) : Prop :=
  ∃ before later facts, e.Asks ops before later facts k id ∧ ∀ op ∈ later, ¬op.Settles id

/-- A query that goes out takes the next id and is remembered under it. -/
theorem find_of_id {e : Engine κ} {facts : FactSet} {k : κ} {id : CorrelationId}
    (h : (e.find facts k).2.1.id? = some id) :
    id = e.nextId ∧ (e.find facts k).1.issued = e.issued + 1 ∧
      (e.find facts k).1.inFlight = e.settled id ++ [(id, k)] := by
  rcases find_cases e facts k with ⟨-, hf⟩ | ⟨-, -, hf⟩ | ⟨-, -, hf⟩
  · simp [hf, FindOutcome.id?] at h
  · simp [hf, FindOutcome.id?] at h
  · have hid : ((e.takeId.1.await e.nextId k).submit (e.nextQuery facts)).2.id? = some e.nextId := by
      by_cases ht : (e.takeId.1.await e.nextId k).trackers = []
      · rw [submit_of_nil ht]
        rfl
      · rw [submit_of_ne_nil ht]
        rfl
    rw [hf] at h ⊢
    obtain rfl : e.nextId = id := Option.some.inj (hid.symm.trans h)
    exact ⟨rfl, by rw [submit_eq]; rfl, by rw [submit_eq]; rfl⟩

theorem find_of_no_id {e : Engine κ} {facts : FactSet} {k : κ} (h : (e.find facts k).2.1.id? = none) :
    (e.find facts k).1 = e := by
  rcases find_cases e facts k with ⟨-, hf⟩ | ⟨-, -, hf⟩ | ⟨-, -, hf⟩
  · rw [hf]
  · rw [hf]
  · exfalso
    rw [hf] at h
    by_cases ht : (e.takeId.1.await e.nextId k).trackers = []
    · simp [submit_of_nil ht, FindOutcome.id?] at h
    · simp [submit_of_ne_nil ht, FindOutcome.id?] at h

/-- What an answer is passed on as, to whoever asked. -/
def calls (k : κ) (texts : List String) : List (κ × Endpoint) :=
  (texts.filterMap fun text => (Endpoint.parse text).toOption).map fun endpoint => (k, endpoint)

theorem onResponse_of_answers {e : Engine κ} {envelope : Envelope} {id : CorrelationId} {texts : List String}
    {k : κ} (h : Answers envelope id texts) (hk : e.inFlight.lookup id = some k) :
    e.onResponse envelope = ({ e with inFlight := e.settled id }, calls k texts) := by
  obtain ⟨rfl, ht, hm⟩ := h
  simp only [onResponse, ht, if_true, hm, hk, calls, List.map_filterMap]

theorem onResponse_of_unknown {e : Engine κ} {envelope : Envelope}
    (h : e.inFlight.lookup envelope.id = none) : e.onResponse envelope = (e, []) := by
  unfold onResponse
  split
  · split
    · rw [h]
    · rfl
  · rfl

theorem onResponse_of_not_answers {e : Engine κ} {envelope : Envelope}
    (h : ∀ texts, ¬Answers envelope envelope.id texts) : e.onResponse envelope = (e, []) := by
  unfold onResponse
  split
  · next ht =>
    split
    · next texts hm => exact absurd ⟨rfl, ht, hm⟩ (h texts)
    · rfl
  · rfl

theorem mem_settled {e : Engine κ} {id i : CorrelationId} {k : κ} :
    (i, k) ∈ e.settled id ↔ (i, k) ∈ e.inFlight ∧ i ≠ id := by
  simp [settled]

theorem inFlight_perform {e : Engine κ} {op : Operation κ} (hf : ∀ facts k, op ≠ .find facts k)
    (hr : ∀ envelope, op ≠ .response envelope) : (e.perform op).inFlight = e.inFlight := by
  cases op with
  | beacon beacon now => exact (sameQueries_onBeacon e beacon now).inFlight
  | hello sender address port now => exact (sameQueries_onHello e sender address port now).inFlight
  | find facts k => exact absurd rfl (hf facts k)
  | response envelope => exact absurd rfl (hr envelope)
  | announce facts =>
    obtain ⟨n, h⟩ := announce_eq e facts
    rw [perform, h]
  | announceTo facts link =>
    rw [perform, announceTo_eq]
    rfl
  | start bound found beacons => rw [perform, start_eq]
  | subscribe | unsubscribe | takeDiscovered | fill | fail => rfl
  | shutdown limit => rw [perform, shutdown_eq]

theorem ofNat_inj_of_lt {a b : Nat} (ha : a < UInt64.size) (hb : b < UInt64.size)
    (h : UInt64.ofNat a = UInt64.ofNat b) : a = b := by
  have hh := congrArg UInt64.toNat h
  rwa [UInt64.toNat_ofNat_of_lt' ha, UInt64.toNat_ofNat_of_lt' hb] at hh

variable {e : Engine κ} {ops before later before' later' : List (Operation κ)} {facts facts' : FactSet}
  {k k' : κ} {id : CorrelationId}

theorem Asks.id_eq_ofNat (h : e.Asks ops before later facts k id) :
    id = UInt64.ofNat ((e.after before).issued + 1) ∧ (e.after before).issued + 1 ≤ (e.after ops).issued := by
  obtain ⟨rfl, h⟩ := h
  obtain ⟨hid, hi, -⟩ := find_of_id h
  refine ⟨hid, ?_⟩
  have hh := issued_le_after ((e.after before).find facts k).1 later
  rw [hi] at hh
  rwa [after_append, after_cons]

theorem Asks.ne_of_later (h : e.Asks ops before later facts k id) {x : Operation κ} {between : List (Operation κ)}
    (h' : e.Asks ops (before ++ x :: between) later' facts' k' id)
    (hb : (e.after ops).issued < UInt64.size) : False := by
  have hx : x :: (between ++ .find facts' k' :: later') = .find facts k :: later := by
    have hh := h'.run_eq.symm.trans h.run_eq
    rw [List.append_assoc] at hh
    exact List.append_cancel_left hh
  obtain ⟨rfl, -⟩ := List.cons.inj hx
  have hs : ((e.after before).perform (.find facts k)).issued = (e.after before).issued + 1 :=
    (find_of_id h.id_eq).2.1
  have hle := issued_le_after ((e.after before).perform (.find facts k)) between
  have hn := h.id_eq_ofNat
  have hn' := h'.id_eq_ofNat
  rw [after_append, after_cons] at hn'
  have hh := ofNat_inj_of_lt (by omega) (by omega) (hn.1.symm.trans hn'.1)
  omega

theorem Asks.unique (h : e.Asks ops before later facts k id) (h' : e.Asks ops before' later' facts' k' id)
    (hb : (e.after ops).issued < UInt64.size) : before = before' := by
  rcases List.append_eq_append_iff.1 (h.run_eq.symm.trans h'.run_eq) with ⟨c, rfl, -⟩ | ⟨c, rfl, -⟩
  · cases c with
    | nil => simp
    | cons x c => exact (h.ne_of_later h' hb).elim
  · cases c with
    | nil => simp
    | cons x c => exact (h'.ne_of_later h hb).elim

theorem awaits_append {op : Operation κ} :
    e.Awaits (ops ++ [op]) id k ↔
      (e.Awaits ops id k ∧ ¬op.Settles id) ∨
        ∃ facts, op = .find facts k ∧ ((e.after ops).find facts k).2.1.id? = some id := by
  constructor
  · rintro ⟨before, later, facts, ⟨hrun, hid⟩, hl⟩
    rcases concat_eq_append_cons hrun with ⟨rfl, rfl, -⟩ | ⟨later, rfl, rfl⟩
    · exact .inr ⟨facts, rfl, hid⟩
    · exact .inl ⟨⟨before, later, facts, ⟨rfl, hid⟩, fun y hy => hl y (by simp [hy])⟩, hl op (by simp)⟩
  · rintro (⟨⟨before, later, facts, ⟨rfl, hid⟩, hl⟩, hs⟩ | ⟨facts, rfl, hid⟩)
    · refine ⟨before, later ++ [op], facts, ⟨by simp, hid⟩, fun y hy => ?_⟩
      rcases List.mem_append.1 hy with hy | hy
      · exact hl y hy
      · exact List.mem_singleton.1 hy ▸ hs
    · exact ⟨ops, [], facts, ⟨rfl, hid⟩, by simp⟩

theorem Awaits.ne_nextId (h : e.Awaits ops id k) (hb : (e.after ops).issued + 1 < UInt64.size) :
    id ≠ (e.after ops).nextId := by
  obtain ⟨before, later, facts, ha, -⟩ := h
  obtain ⟨rfl, hle⟩ := ha.id_eq_ofNat
  intro hh
  have := ofNat_inj_of_lt (by omega) hb hh
  omega

/-- The table holds the queries without an answer, each under its own id. -/
structure Tracks (e : Engine κ) (ops : List (Operation κ)) : Prop where
  nodup : ((e.after ops).inFlight.map Prod.fst).Nodup
  mem_iff : ∀ id k, (id, k) ∈ (e.after ops).inFlight ↔ e.Awaits ops id k

theorem Tracks.of_same {op : Operation κ} (h : Tracks e ops)
    (hi : ((e.after ops).perform op).inFlight = (e.after ops).inFlight)
    (hm : ∀ id k, e.Awaits (ops ++ [op]) id k ↔ e.Awaits ops id k) : Tracks e (ops ++ [op]) := by
  constructor
  · rw [after_append, after_singleton, hi]
    exact h.nodup
  · intro id k
    rw [after_append, after_singleton, hi, hm, h.mem_iff]

theorem Tracks.find (h : Tracks e ops) (facts : FactSet) (k : κ)
    (hb : ((e.after ops).find facts k).1.issued < UInt64.size) : Tracks e (ops ++ [.find facts k]) := by
  have hns : ∀ id, ¬(Operation.find facts k).Settles id := by
    rintro id ⟨envelope, texts, hh, -⟩
    cases hh
  cases ho : ((e.after ops).find facts k).2.1.id? with
  | none =>
    refine h.of_same (by rw [perform, find_of_no_id ho]) fun id k' => ?_
    rw [awaits_append]
    constructor
    · rintro (⟨hh, -⟩ | ⟨facts', hh, hid⟩)
      · exact hh
      · cases hh
        rw [ho] at hid
        cases hid
    · exact fun hh => .inl ⟨hh, hns id⟩
  | some i =>
    obtain ⟨rfl, hissued, hin⟩ := find_of_id ho
    have hfresh : ∀ k', ((e.after ops).nextId, k') ∉ (e.after ops).inFlight := fun k' hk' =>
      ((h.mem_iff _ _).1 hk').ne_nextId (by omega) rfl
    have hset : (e.after ops).settled (e.after ops).nextId = (e.after ops).inFlight := by
      refine List.filter_eq_self.2 fun p hp => ?_
      simp only [ne_eq, decide_not, Bool.not_eq_eq_eq_not, Bool.not_true, decide_eq_false_iff_not]
      intro hh
      exact hfresh p.2 (hh ▸ hp)
    rw [hset] at hin
    constructor
    · rw [after_append, after_singleton, perform, hin, List.map_append, List.nodup_append]
      refine ⟨h.nodup, by simp, fun a ha b hb' => ?_⟩
      obtain ⟨p, hp, rfl⟩ := List.mem_map.1 ha
      simp only [List.map_cons, List.map_nil, List.mem_singleton] at hb'
      subst hb'
      intro hh
      exact hfresh p.2 (hh ▸ hp)
    · intro id k'
      rw [after_append, after_singleton, perform, hin, awaits_append, List.mem_append, h.mem_iff]
      refine or_congr (by simp [hns]) ?_
      simp only [List.mem_singleton, Prod.mk.injEq]
      constructor
      · rintro ⟨rfl, rfl⟩
        exact ⟨facts, rfl, ho⟩
      · rintro ⟨facts', hh, hid⟩
        cases hh
        exact ⟨(Option.some.inj (ho.symm.trans hid)).symm, rfl⟩

theorem Tracks.response (h : Tracks e ops) (envelope : Envelope) : Tracks e (ops ++ [.response envelope]) := by
  have hnf : ∀ id k, (∃ facts, Operation.response envelope = .find facts k ∧
      ((e.after ops).find facts k).2.1.id? = some id) ↔ False := by
    intro id k
    constructor
    · rintro ⟨facts, hh, -⟩
      cases hh
    · exact False.elim
  by_cases ha : ∃ texts, Answers envelope envelope.id texts
  · obtain ⟨texts, ha⟩ := ha
    have hs : ∀ id, (Operation.response envelope : Operation κ).Settles id ↔ envelope.id = id := by
      intro id
      constructor
      · rintro ⟨envelope', texts', hh, ha'⟩
        cases hh
        exact ha'.id_eq
      · rintro rfl
        exact ⟨envelope, texts, rfl, ha⟩
    cases hl : (e.after ops).inFlight.lookup envelope.id with
    | none =>
      refine h.of_same (by rw [perform, onResponse_of_unknown hl]) fun id k => ?_
      rw [awaits_append, hnf, or_false, hs]
      constructor
      · exact fun hh => hh.1
      · intro hh
        refine ⟨hh, ?_⟩
        rintro rfl
        exact (lookup_eq_none_iff_mem h.nodup).1 hl k ((h.mem_iff _ _).2 hh)
    | some k₀ =>
      have hr := onResponse_of_answers ha hl
      constructor
      · rw [after_append, after_singleton, perform, hr]
        exact h.nodup.sublist (List.filter_sublist.map _)
      · intro id k
        rw [after_append, after_singleton, perform, hr, awaits_append, hnf, or_false, hs, ← h.mem_iff]
        change (id, k) ∈ (e.after ops).settled envelope.id ↔ _
        rw [mem_settled, ne_comm]
  · have hn : ∀ texts, ¬Answers envelope envelope.id texts := fun texts hh => ha ⟨texts, hh⟩
    refine h.of_same (by rw [perform, onResponse_of_not_answers hn]) fun id k => ?_
    rw [awaits_append, hnf, or_false]
    constructor
    · exact fun hh => hh.1
    · intro hh
      refine ⟨hh, ?_⟩
      rintro ⟨envelope', texts, he, hx⟩
      cases he
      exact hn texts (hx.id_eq ▸ hx)

theorem tracks_after (e : Engine κ) (he : e.inFlight = []) (ops : List (Operation κ))
    (hb : (e.after ops).issued < UInt64.size) : Tracks e ops := by
  induction ops using List.reverseRecOn with
  | nil =>
    constructor
    · simp [he]
    · intro id k
      simp only [after_nil, he, List.not_mem_nil, false_iff]
      rintro ⟨before, later, facts, ⟨hh, -⟩, -⟩
      simp at hh
  | append_singleton ops op ih =>
    rw [after_append, after_singleton] at hb
    have hh := ih (Nat.lt_of_le_of_lt (issued_le_perform (e.after ops) op) hb)
    by_cases hf : ∃ facts k, op = .find facts k
    · obtain ⟨facts, k, rfl⟩ := hf
      exact hh.find facts k hb
    · by_cases hr : ∃ envelope, op = .response envelope
      · obtain ⟨envelope, rfl⟩ := hr
        exact hh.response envelope
      · refine hh.of_same (inFlight_perform (fun facts k h => hf ⟨facts, k, h⟩) fun x h => hr ⟨x, h⟩) ?_
        intro id k
        rw [awaits_append]
        constructor
        · rintro (⟨hw, -⟩ | ⟨facts, rfl, -⟩)
          · exact hw
          · exact absurd ⟨facts, k, rfl⟩ hf
        · intro hw
          refine .inl ⟨hw, ?_⟩
          rintro ⟨envelope, texts, rfl, -⟩
          exact hr ⟨envelope, rfl⟩

theorem find_found_of_id {e : Engine κ} (h : (e.find facts k).2.1.id? = some id) : (e.find facts k).2.2 = [] := by
  rcases find_cases e facts k with ⟨-, hf⟩ | ⟨-, -, hf⟩ | ⟨-, -, hf⟩
  · rw [hf]
  · simp [hf, FindOutcome.id?] at h
  · rw [hf]

/-- The queries in flight are those that went out and have no answer yet, each under an id of its own.
The first answer is passed on to whoever asked, once for each endpoint in it; nothing else is passed on
or changes the engine. -/
theorem answered_once (self : PeerId) (closeLimit : Nat) (directory : Directory) (ops : List (Operation κ))
    (hb : ((new self closeLimit directory : Engine κ).after ops).issued < UInt64.size - 1) :
    let e : Engine κ := new self closeLimit directory
    (∀ id k, (id, k) ∈ (e.after ops).inFlight ↔ e.Awaits ops id k) ∧
    ((e.after ops).inFlight.map Prod.fst).Nodup ∧
    (∀ before later before' later' facts facts' k k' id, e.Asks ops before later facts k id →
      e.Asks ops before' later' facts' k' id → before = before') ∧
    (∀ before later facts k id, e.Asks ops before later facts k id → ((e.after before).find facts k).2.2 = []) ∧
    (∀ envelope k texts, e.Awaits ops envelope.id k → Answers envelope envelope.id texts →
      (e.after ops).onResponse envelope =
        ({ e.after ops with inFlight := (e.after ops).inFlight.filter fun p => p.1 ≠ envelope.id },
          calls k texts)) ∧
    (∀ envelope, (∀ k texts, e.Awaits ops envelope.id k → ¬Answers envelope envelope.id texts) →
      (e.after ops).onResponse envelope = (e.after ops, [])) := by
  intro e
  have hlt : (e.after ops).issued < UInt64.size := Nat.lt_of_lt_of_le hb (Nat.sub_le _ _)
  have ht := tracks_after e rfl ops hlt
  refine ⟨ht.mem_iff, ht.nodup, ?_, ?_, ?_, ?_⟩
  · intro before later before' later' facts facts' k k' id h h'
    exact h.unique h' hlt
  · intro before later facts k id h
    exact find_found_of_id h.id_eq
  · intro envelope k texts hw ha
    exact onResponse_of_answers ha ((lookup_eq_some_iff_mem ht.nodup).2 ((ht.mem_iff _ _).2 hw))
  · intro envelope hn
    cases hl : (e.after ops).inFlight.lookup envelope.id with
    | none => exact onResponse_of_unknown hl
    | some k =>
      have hw := (ht.mem_iff _ _).1 ((lookup_eq_some_iff_mem ht.nodup).1 hl)
      exact onResponse_of_not_answers fun texts => hn k texts hw

/-- A query without a peer, and the first answer to it. -/
theorem answered_once_queued :
    let e : Engine Nat := (new ⟨List.replicate 16 0, rfl⟩ 0 ∅ : Engine Nat).after [.find ∅ 7]
    e.issued < UInt64.size - 1 ∧
      (e.onResponse ⟨1, Envelope.queryToken, none, .response ["tcp://10.0.0.5:1", "x"]⟩).2 =
        [(7, .tcp "10.0.0.5" 1)] := by
  have hb : ((new ⟨List.replicate 16 0, rfl⟩ 0 ∅ : Engine Nat).after [.find ∅ 7]).issued < UInt64.size - 1 := by
    decide +kernel
  obtain ⟨hmem, -, -, -, hans, -⟩ := answered_once ⟨List.replicate 16 0, rfl⟩ 0 ∅ [.find ∅ 7] hb
  have hw := (hmem 1 7).1 (by decide +kernel)
  have hh := hans ⟨1, Envelope.queryToken, none, .response ["tcp://10.0.0.5:1", "x"]⟩ 7 _ hw ⟨rfl, rfl, rfl⟩
  refine ⟨hb, (congrArg Prod.snd hh).trans ?_⟩
  decide +kernel

end Engine
end Discovery
end PeerDiscovery
