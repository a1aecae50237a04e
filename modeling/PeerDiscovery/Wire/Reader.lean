import PeerDiscovery.Bytes
import PeerDiscovery.Wire.Fault

/-! Reading bytes from the front.
A reader takes bytes off the front of its input or fails, and carries the proof that it adds none,
so that a loop which takes one byte a round ends. `Reader.fields` is that loop. -/
namespace PeerDiscovery
namespace Wire

/-- Bytes not read yet, with their number at hand. -/
structure Input where
  bytes : Bytes
  size : Nat
  size_eq : size = bytes.length

namespace Input

def of (bytes : Bytes) : Input := ⟨bytes, bytes.length, rfl⟩

@[ext] theorem ext {i j : Input} (h : i.bytes = j.bytes) : i = j := by
  obtain ⟨b, n, hn⟩ := i
  obtain ⟨c, m, hm⟩ := j
  cases h
  simp [hn, hm]

@[simp] theorem bytes_of (bytes : Bytes) : (of bytes).bytes = bytes := rfl

@[simp] theorem size_of (bytes : Bytes) : (of bytes).size = bytes.length := rfl

theorem of_bytes (i : Input) : of i.bytes = i := ext rfl

def next? : Input → Option (UInt8 × Input)
  | ⟨[], _, _⟩ => none
  | ⟨b :: rest, size, h⟩ => some (b, ⟨rest, size - 1, by simp [h]⟩)

@[simp] theorem next?_nil : next? (of []) = none := rfl

@[simp] theorem next?_cons (b : UInt8) (rest : Bytes) : next? (of (b :: rest)) = some (b, of rest) := rfl

theorem size_of_next? {i j : Input} {b : UInt8} (h : i.next? = some (b, j)) : j.size + 1 = i.size := by
  obtain ⟨bytes, n, hn⟩ := i
  cases bytes with
  | nil => simp [next?] at h
  | cons c rest =>
    simp only [next?, Option.some.injEq, Prod.mk.injEq] at h
    simp [← h.2, hn]

/-- The first `n` bytes and what follows them, if there are so many. -/
def take? (n : Nat) (i : Input) : Option (Bytes × Input) :=
  if n ≤ i.size then some (i.bytes.take n, ⟨i.bytes.drop n, i.size - n, by simp [i.size_eq]⟩)
  else none

theorem take?_append (a b : Bytes) : take? a.length (of (a ++ b)) = some (a, of b) := by
  rw [take?, if_pos (by simp)]
  simp only [bytes_of, List.take_left', Option.some.injEq, Prod.mk.injEq, true_and]
  exact ext (by simp)

theorem size_of_take? {n : Nat} {i j : Input} {a : Bytes} (h : take? n i = some (a, j)) :
    j.size + n = i.size := by
  unfold take? at h
  split at h
  · simp only [Option.some.injEq, Prod.mk.injEq] at h
    simp only [← h.2]
    omega
  · simp at h

end Input

structure Reader (α : Type) where
  run : Input → Except Fault (α × Input)
  size_le : ∀ {i j : Input} {a : α}, run i = .ok (a, j) → j.size ≤ i.size

namespace Reader

variable {α β : Type}

protected def pure (a : α) : Reader α :=
  ⟨fun i => .ok (a, i), fun h => by cases h; exact Nat.le_refl _⟩

protected def bind (r : Reader α) (f : α → Reader β) : Reader β where
  run i :=
    match r.run i with
    | .ok (a, j) => (f a).run j
    | .error e => .error e
  size_le {i k b} h := by
    cases hr : r.run i with
    | error e => simp [hr] at h
    | ok p => exact Nat.le_trans ((f p.1).size_le (by simpa [hr] using h)) (r.size_le hr)

instance : Monad Reader where
  pure := Reader.pure
  bind := Reader.bind

@[simp] theorem run_pure (a : α) (i : Input) : (pure a : Reader α).run i = .ok (a, i) := rfl

theorem run_bind (r : Reader α) (f : α → Reader β) (i : Input) :
    (r >>= f).run i = match r.run i with
      | .ok (a, j) => (f a).run j
      | .error e => .error e := rfl

theorem run_bind_ok {r : Reader α} {f : α → Reader β} {i j : Input} {a : α} (h : r.run i = .ok (a, j)) :
    (r >>= f).run i = (f a).run j := by rw [run_bind, h]

theorem run_bind_error {r : Reader α} {f : α → Reader β} {i : Input} {e : Fault} (h : r.run i = .error e) :
    (r >>= f).run i = .error e := by rw [run_bind, h]

def fail (reason : Reason) : Reader α :=
  ⟨fun _ => .error ⟨[], reason⟩, fun h => by cases h⟩

@[simp] theorem run_fail (reason : Reason) (i : Input) :
    (fail reason : Reader α).run i = .error ⟨[], reason⟩ := rfl

def require (holds : Bool) (reason : Reason) : Reader Unit :=
  if holds then pure () else fail reason

def remaining : Reader Nat :=
  ⟨fun i => .ok (i.size, i), fun h => by cases h; exact Nat.le_refl _⟩

@[simp] theorem run_remaining (i : Input) : remaining.run i = .ok (i.size, i) := rfl

def block (n : Nat) : Reader Bytes where
  run i :=
    match i.take? n with
    | some (a, j) => .ok (a, j)
    | none => .error ⟨[], .underflow⟩
  size_le {i j a} h := by
    cases hi : i.take? n with
    | none => simp [hi] at h
    | some p =>
      obtain ⟨a', j'⟩ := p
      have hs := Input.size_of_take? hi
      simp only [hi, Except.ok.injEq, Prod.mk.injEq] at h
      obtain ⟨-, rfl⟩ := h
      omega

theorem run_block_append (a b : Bytes) : (block a.length).run (.of (a ++ b)) = .ok (a, .of b) := by
  simp only [block, Input.take?_append]

def inField (name : FieldName) (r : Reader α) : Reader α where
  run i :=
    match r.run i with
    | .ok p => .ok p
    | .error e => .error (e.within name)
  size_le {i j a} h := by
    cases hr : r.run i with
    | error e => simp [hr] at h
    | ok p =>
      simp only [hr, Except.ok.injEq] at h
      exact r.size_le (h ▸ hr)

theorem run_inField_ok {r : Reader α} {name : FieldName} {i j : Input} {a : α} (h : r.run i = .ok (a, j)) :
    (r.inField name).run i = .ok (a, j) := by simp [inField, h]

/-- Reads a head and what it announces until only `stop` bytes are left or fewer. A head takes at
least one byte. -/
def fieldsFrom {κ : Type} (head : Reader κ)
    (head_lt : ∀ {i j : Input} {k : κ}, head.run i = .ok (k, j) → j.size < i.size)
    (value : κ → α → Reader α) (stop : Nat) (acc : α) (i : Input) : Except Fault (α × Input) :=
  if i.size ≤ stop then .ok (acc, i)
  else
    match _h : head.run i with
    | .error e => .error e
    | .ok (k, j) =>
      match _h' : (value k acc).run j with
      | .error e => .error e
      | .ok (acc', j') => fieldsFrom head head_lt value stop acc' j'
termination_by i.size
decreasing_by
  exact Nat.lt_of_le_of_lt ((value k acc).size_le _h') (head_lt _h)

theorem fieldsFrom_size_le {κ : Type} {head : Reader κ}
    {head_lt : ∀ {i j : Input} {k : κ}, head.run i = .ok (k, j) → j.size < i.size}
    {value : κ → α → Reader α} {stop : Nat} {acc b : α} {i j : Input}
    (h : fieldsFrom head head_lt value stop acc i = .ok (b, j)) : j.size ≤ i.size := by
  fun_induction fieldsFrom head head_lt value stop acc i with
  | case1 acc i hs => cases h; exact Nat.le_refl _
  | case2 => cases h
  | case3 => cases h
  | case4 acc i _ k i₁ h₁ acc' i₂ h₂ ih =>
    exact Nat.le_trans (ih h) (Nat.le_trans ((value k acc).size_le h₂) (Nat.le_of_lt (head_lt h₁)))

def fields {κ : Type} (head : Reader κ)
    (head_lt : ∀ {i j : Input} {k : κ}, head.run i = .ok (k, j) → j.size < i.size)
    (value : κ → α → Reader α) (stop : Nat) (acc : α) : Reader α :=
  ⟨fieldsFrom head head_lt value stop acc, fieldsFrom_size_le⟩

end Reader
end Wire
end PeerDiscovery
