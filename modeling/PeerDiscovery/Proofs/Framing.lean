import PeerDiscovery.Framing.Reader

/-! What a writer puts on a stream its reader takes off.
`feed_encode` is for a whole message between two others. `done_suffix_feed` says that a stream which
breaks off adds no message and changes none. -/
namespace PeerDiscovery
namespace Framing

namespace Reader

def AtBoundary (r : Reader) : Prop := r.frames = [] ∧ r.place = .header []

theorem atBoundary_new : AtBoundary {} := ⟨rfl, rfl⟩

theorem endFrame_of_last {r : Reader} (body : Bytes) :
    r.endFrame 0 body = { done := (body :: r.frames).reverse :: r.done, frames := [], place := .header [] } := rfl

theorem feed_body {r : Reader} {flags : UInt8} {bytes : Bytes} (body : Bytes) {left : Nat}
    (hp : r.place = .body flags left bytes) (hl : body.length = left + 1) :
    r.feed body = r.endFrame flags (bytes.reverse ++ body) := by
  induction body generalizing r left bytes with
  | nil => cases hl
  | cons b body ih =>
    cases left with
    | zero =>
      obtain rfl : body = [] := List.length_eq_zero_iff.1 (by simpa using hl)
      simp [feed, step, hp]
    | succ left =>
      have hs : r.step b = { r with place := .body flags left (b :: bytes) } := by simp only [step, hp]
      have hh : r.feed (b :: body) = (r.step b).feed body := rfl
      have hl' : body.length = left + 1 := by simpa using hl
      rw [hh, hs, ih rfl hl']
      simp [endFrame]

theorem feed_header {r : Reader} (hp : r.place = .header []) (flags s₁ s₂ s₃ s₄ : UInt8) :
    r.feed [flags, s₁, s₂, s₃, s₄] = r.endHeader flags (Bytes.ofBigEndian [s₁, s₂, s₃, s₄]) := by
  simp [feed, step, hp, endHeader, endFrame]

theorem feed_encodeFrame {r : Reader} (hp : r.place = .header []) (flags : UInt8) {body : Bytes}
    (hl : body.length ≤ maxFrameSize) : r.feed (encodeFrame flags body) = r.endFrame flags body := by
  have hlt : body.length < Nat.pow 256 4 := Nat.lt_of_le_of_lt hl (by decide)
  obtain ⟨s₁, s₂, s₃, s₄, hs⟩ : ∃ s₁ s₂ s₃ s₄, Bytes.toBigEndian 4 body.length = [s₁, s₂, s₃, s₄] :=
    ⟨_, _, _, _, rfl⟩
  have he : encodeFrame flags body = [flags, s₁, s₂, s₃, s₄] ++ body := by rw [encodeFrame, hs]
  have hn : Bytes.ofBigEndian [s₁, s₂, s₃, s₄] = body.length := by
    rw [← hs, Bytes.ofBigEndian_toBigEndian hlt]
  rw [he, feed_append, feed_header hp, hn]
  unfold endHeader
  rw [if_neg (Nat.not_lt_of_le hl)]
  cases body with
  | nil => rfl
  | cons b body =>
    exact feed_body (r := { r with place := .body flags body.length [] }) (b :: body) rfl rfl

theorem eq_encodeFrame_of_encode {payload bytes : Bytes} (h : encode [payload] = .ok bytes) :
    payload.length ≤ maxFrameSize ∧ bytes = encodeFrame 0 payload := by
  by_cases hl : maxFrameSize < payload.length
  · simp [encode, maxFrames, hl] at h
  · simp only [encode, maxFrames, List.find?_cons, hl, decide_false, List.find?_nil] at h
    exact ⟨Nat.le_of_not_lt hl, (Except.ok.inj h).symm⟩

theorem feed_encode {r : Reader} (hr : r.AtBoundary) {payload bytes : Bytes} (h : encode [payload] = .ok bytes) :
    r.feed bytes = { r with done := [payload] :: r.done } := by
  obtain ⟨done, frames, place⟩ := r
  obtain ⟨rfl, rfl⟩ := hr
  obtain ⟨hl, rfl⟩ := eq_encodeFrame_of_encode h
  rw [feed_encodeFrame rfl 0 hl, endFrame_of_last]
  rfl

def onto (r : Reader) (done : List (List Bytes)) : Reader := { r with done := r.done ++ done }

theorem endFrame_onto (r : Reader) (done : List (List Bytes)) (flags : UInt8) (body : Bytes) :
    (r.onto done).endFrame flags body = (r.endFrame flags body).onto done := by
  unfold endFrame
  split
  · rfl
  · rfl

theorem endHeader_onto (r : Reader) (done : List (List Bytes)) (flags : UInt8) (size : Nat) :
    (r.onto done).endHeader flags size = (r.endHeader flags size).onto done := by
  unfold endHeader
  split
  · rfl
  · split
    · exact endFrame_onto r done flags []
    · rfl

theorem step_onto (r : Reader) (done : List (List Bytes)) (b : UInt8) :
    (r.onto done).step b = (r.step b).onto done := by
  have hp : (r.onto done).place = r.place := rfl
  unfold step
  rw [hp]
  split
  · split
    · exact endHeader_onto r done _ _
    · rfl
  · exact endFrame_onto r done _ _
  · rfl
  · rfl

theorem feed_onto (r : Reader) (done : List (List Bytes)) (bytes : Bytes) :
    (r.onto done).feed bytes = (r.feed bytes).onto done := by
  induction bytes generalizing r with
  | nil => rfl
  | cons b bytes ih =>
    have hs : (r.onto done).feed (b :: bytes) = ((r.onto done).step b).feed bytes := rfl
    rw [hs, step_onto, ih]
    rfl

theorem done_suffix_feed (r : Reader) (bytes : Bytes) : r.done <:+ (r.feed bytes).done := by
  have hr : ({ r with done := [] } : Reader).onto r.done = r := rfl
  have hfeed := feed_onto { r with done := [] } r.done bytes
  rw [hr] at hfeed
  rw [hfeed]
  exact List.suffix_append _ _

end Reader
end Framing
end PeerDiscovery
