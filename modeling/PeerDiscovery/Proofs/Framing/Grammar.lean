import PeerDiscovery.Framing.Basic

/-! What may stand on a stream of messages, said without a reader.
A chain is a message as it is spelled: at most sixteen frames, each but the last with the lowest flag bit
set. No chain is the beginning of another one (`Chain.bytes_append_inj`), so a stream falls into chains and
a rest in one way only (`exists_splits`, `Splits.unique`). -/
namespace PeerDiscovery
namespace Framing

/-- A frame on a stream. Of its flags only the lowest bit has a meaning. -/
@[ext] structure Frame where
  flags : UInt8
  body : Bytes
  fits : body.length ≤ maxFrameSize

namespace Frame

def bytes (f : Frame) : Bytes := encodeFrame f.flags f.body

def More (f : Frame) : Prop := f.flags &&& more ≠ 0

theorem bytes_ne_nil (f : Frame) : f.bytes ≠ [] := List.cons_ne_nil _ _

theorem exists_bytes (flags : UInt8) {digits body : Bytes} (hd : digits.length = 4)
    (hl : body.length = Bytes.ofBigEndian digits) (hsize : Bytes.ofBigEndian digits ≤ maxFrameSize) :
    ∃ f : Frame, f.bytes = flags :: digits ++ body := by
  have hb : encodeFrame flags body = flags :: digits ++ body := by
    rw [encodeFrame, hl, Bytes.toBigEndian_ofBigEndian hd]
  exact ⟨⟨flags, body, Nat.le_trans (Nat.le_of_eq hl) hsize⟩, hb⟩

theorem bytes_append_inj {f g : Frame} {a b : Bytes} (h : f.bytes ++ a = g.bytes ++ b) : f = g ∧ a = b := by
  obtain ⟨flags, body, hf⟩ := f
  obtain ⟨flags', body', hg⟩ := g
  simp only [bytes, encodeFrame, List.cons_append, List.append_assoc, List.cons.injEq] at h
  obtain ⟨rfl, h⟩ := h
  obtain ⟨hsize, h⟩ := List.append_inj h (by simp)
  have hlt : ∀ {n : Nat}, n ≤ maxFrameSize → n < Nat.pow 256 4 := fun hn => Nat.lt_of_le_of_lt hn (by decide)
  have hl : body.length = body'.length := by
    rw [← Bytes.ofBigEndian_toBigEndian (hlt hf), hsize, Bytes.ofBigEndian_toBigEndian (hlt hg)]
  obtain ⟨rfl, rfl⟩ := List.append_inj h hl
  exact ⟨rfl, rfl⟩

end Frame

/-- A message on a stream: frames after which another one follows, and the last one. -/
@[ext] structure Chain where
  init : List Frame
  last : Frame
  more : ∀ f ∈ init, f.More
  ends : ¬last.More
  few : init.length < maxFrames

namespace Chain

def bytes (c : Chain) : Bytes := c.init.flatMap Frame.bytes ++ c.last.bytes

/-- The frames of the message that a chain spells. -/
def frames (c : Chain) : List Bytes := c.init.map Frame.body ++ [c.last.body]

theorem bytes_ne_nil (c : Chain) : c.bytes ≠ [] := List.append_ne_nil_of_right_ne_nil _ c.last.bytes_ne_nil

theorem init_append_inj {fs gs : List Frame} {f g : Frame} {a b : Bytes} (hfs : ∀ f ∈ fs, f.More) (hgs : ∀ g ∈ gs, g.More)
    (hf : ¬f.More) (hg : ¬g.More)
    (h : fs.flatMap Frame.bytes ++ (f.bytes ++ a) = gs.flatMap Frame.bytes ++ (g.bytes ++ b)) :
    fs = gs ∧ f = g ∧ a = b := by
  induction fs generalizing gs with
  | nil =>
    cases gs with
    | nil =>
      obtain ⟨hfg, hab⟩ := Frame.bytes_append_inj h
      exact ⟨rfl, hfg, hab⟩
    | cons g₁ gs =>
      rw [List.flatMap_cons, List.append_assoc] at h
      obtain ⟨rfl, -⟩ := Frame.bytes_append_inj h
      exact absurd (hgs f List.mem_cons_self) hf
  | cons f₁ fs ih =>
    cases gs with
    | nil =>
      rw [List.flatMap_cons, List.append_assoc] at h
      obtain ⟨rfl, -⟩ := Frame.bytes_append_inj h
      exact absurd (hfs f₁ List.mem_cons_self) hg
    | cons g₁ gs =>
      simp only [List.flatMap_cons, List.append_assoc] at h
      obtain ⟨rfl, hrest⟩ := Frame.bytes_append_inj h
      obtain ⟨rfl, hfg, hab⟩ := ih (fun f hf => hfs f (List.mem_cons_of_mem f₁ hf))
        (fun g hg => hgs g (List.mem_cons_of_mem f₁ hg)) hrest
      exact ⟨rfl, hfg, hab⟩

theorem bytes_append_inj {c d : Chain} {a b : Bytes} (h : c.bytes ++ a = d.bytes ++ b) : c = d ∧ a = b := by
  simp only [bytes, List.append_assoc] at h
  obtain ⟨hinit, hlast, hab⟩ := init_append_inj c.more d.more c.ends d.ends h
  exact ⟨Chain.ext hinit hlast, hab⟩

theorem eq_of_prefix {c d : Chain} (h : c.bytes <+: d.bytes) : c = d := by
  obtain ⟨a, ha⟩ := h
  have hh : c.bytes ++ a = d.bytes ++ [] := by rw [ha, List.append_nil]
  exact (bytes_append_inj hh).1

end Chain

/-- A stream is these chains one after another, and a rest in front of which no chain stands. -/
structure Splits (s : Bytes) (chains : List Chain) (rest : Bytes) : Prop where
  eq : s = chains.flatMap Chain.bytes ++ rest
  ends : ∀ c : Chain, ¬c.bytes <+: rest

theorem exists_splits (s : Bytes) : ∃ chains rest, Splits s chains rest := by
  induction hn : s.length using Nat.strongRecOn generalizing s with
  | ind n ih =>
    by_cases hc : ∃ c : Chain, c.bytes <+: s
    · obtain ⟨c, t, rfl⟩ := hc
      have hpos := List.length_pos_iff.2 c.bytes_ne_nil
      rw [List.length_append] at hn
      obtain ⟨chains, rest, h⟩ := ih t.length (by omega) t rfl
      exact ⟨c :: chains, rest, by rw [List.flatMap_cons, List.append_assoc, ← h.eq], h.ends⟩
    · exact ⟨[], s, rfl, fun c h => hc ⟨c, h⟩⟩

theorem Splits.unique {s rest rest' : Bytes} {chains chains' : List Chain} (h : Splits s chains rest)
    (h' : Splits s chains' rest') : chains = chains' ∧ rest = rest' := by
  induction chains generalizing s chains' with
  | nil =>
    cases chains' with
    | nil => exact ⟨rfl, h.eq.symm.trans h'.eq⟩
    | cons c chains' =>
      have hs : rest = c.bytes ++ (chains'.flatMap Chain.bytes ++ rest') := by
        rw [← List.append_assoc]
        exact h.eq.symm.trans h'.eq
      exact absurd ⟨_, hs.symm⟩ (h.ends c)
  | cons c chains ih =>
    cases chains' with
    | nil =>
      have hs : c.bytes ++ (chains.flatMap Chain.bytes ++ rest) = rest' := by
        rw [← List.append_assoc]
        exact h.eq.symm.trans h'.eq
      exact absurd ⟨_, hs⟩ (h'.ends c)
    | cons c' chains' =>
      have hs := h.eq.symm.trans h'.eq
      simp only [List.flatMap_cons, List.append_assoc] at hs
      obtain ⟨rfl, htail⟩ := Chain.bytes_append_inj hs
      obtain ⟨rfl, hrest⟩ := ih ⟨rfl, h.ends⟩ ⟨htail, h'.ends⟩
      exact ⟨rfl, hrest⟩

/-- Fewer than sixteen frames of a message, and then a whole header that announces too large a body. -/
def StartsTooLarge (s : Bytes) (size : Nat) : Prop :=
  ∃ fs : List Frame, (∀ f ∈ fs, f.More) ∧ fs.length < maxFrames ∧
    ∃ (flags : UInt8) (digits : Bytes), digits.length = 4 ∧ Bytes.ofBigEndian digits = size ∧ maxFrameSize < size ∧
      fs.flatMap Frame.bytes ++ flags :: digits <+: s

/-- Sixteen frames of a message, and none of them is its last one. -/
def StartsTooMany (s : Bytes) : Prop :=
  ∃ fs : List Frame, (∀ f ∈ fs, f.More) ∧ fs.length = maxFrames ∧ fs.flatMap Frame.bytes <+: s

/-- A frame of which something is missing, in its header or in its body. -/
inductive Stub : Bytes → Prop where
  | header {s : Bytes} : s.length < 5 → Stub s
  | body {flags : UInt8} {digits s : Bytes} : digits.length = 4 → Bytes.ofBigEndian digits ≤ maxFrameSize →
      s.length < Bytes.ofBigEndian digits → Stub (flags :: digits ++ s)

/-- Fewer than sixteen frames of a message, and then a part of a frame. -/
def StopsShort (s : Bytes) : Prop :=
  s ≠ [] ∧ ∃ (fs : List Frame) (stub : Bytes), (∀ f ∈ fs, f.More) ∧ fs.length < maxFrames ∧ Stub stub ∧
    s = fs.flatMap Frame.bytes ++ stub

theorem frame_cases (s : Bytes) :
    Stub s ∨ (∃ flags digits rest, digits.length = 4 ∧ maxFrameSize < Bytes.ofBigEndian digits ∧
      s = flags :: digits ++ rest) ∨ ∃ (f : Frame) (rest : Bytes), s = f.bytes ++ rest := by
  match s with
  | [] | [_] | [_, _] | [_, _, _] | [_, _, _, _] => exact .inl (.header (by simp))
  | flags :: s₁ :: s₂ :: s₃ :: s₄ :: rest =>
    have hd : [s₁, s₂, s₃, s₄].length = 4 := rfl
    by_cases hlarge : maxFrameSize < Bytes.ofBigEndian [s₁, s₂, s₃, s₄]
    · exact .inr (.inl ⟨flags, [s₁, s₂, s₃, s₄], rest, hd, hlarge, rfl⟩)
    · have hsize := Nat.le_of_not_lt hlarge
      by_cases hshort : rest.length < Bytes.ofBigEndian [s₁, s₂, s₃, s₄]
      · exact .inl (.body hd hsize hshort)
      · obtain ⟨body, rest', rfl, hl⟩ : ∃ body rest', rest = body ++ rest' ∧ body.length = Bytes.ofBigEndian [s₁, s₂, s₃, s₄] :=
          ⟨_, _, (List.take_append_drop _ rest).symm, List.length_take_of_le (Nat.le_of_not_lt hshort)⟩
        obtain ⟨f, hf⟩ := Frame.exists_bytes flags hd hl hsize
        exact .inr (.inr ⟨f, rest', by rw [hf, List.append_assoc]; rfl⟩)

theorem rest_cases {s : Bytes} (h : ∀ c : Chain, ¬c.bytes <+: s) :
    s = [] ∨ (∃ size, StartsTooLarge s size) ∨ StartsTooMany s ∨ StopsShort s := by
  have go : ∀ (n : Nat) (fs : List Frame) (t : Bytes), fs.length + n = maxFrames → (∀ f ∈ fs, f.More) →
      s = fs.flatMap Frame.bytes ++ t →
      s = [] ∨ (∃ size, StartsTooLarge s size) ∨ StartsTooMany s ∨ StopsShort s := by
    intro n
    induction n with
    | zero =>
      intro fs t hl hfs hs
      exact .inr (.inr (.inl ⟨fs, hfs, hl, t, hs.symm⟩))
    | succ n ih =>
      intro fs t hl hfs hs
      have hlt : fs.length < maxFrames := by omega
      rcases frame_cases t with hstub | ⟨flags, digits, rest, hd, hlarge, rfl⟩ | ⟨f, rest, rfl⟩
      · by_cases hnil : s = []
        · exact .inl hnil
        · exact .inr (.inr (.inr ⟨hnil, fs, t, hfs, hlt, hstub, hs⟩))
      · refine .inr (.inl ⟨_, fs, hfs, hlt, flags, digits, hd, rfl, hlarge, rest, ?_⟩)
        rw [hs, List.append_assoc]
      · by_cases hf : f.More
        · refine ih (fs ++ [f]) rest (by simp; omega) ?_ (by simp [hs])
          intro g hg
          rcases List.mem_append.1 hg with hg | hg
          · exact hfs g hg
          · rwa [List.mem_singleton.1 hg]
        · refine absurd ⟨rest, ?_⟩ (h ⟨fs, f, hfs, hf, hlt⟩)
          rw [Chain.bytes, List.append_assoc, hs]
  exact go maxFrames [] s (Nat.zero_add _) (by simp) rfl

end Framing
end PeerDiscovery
