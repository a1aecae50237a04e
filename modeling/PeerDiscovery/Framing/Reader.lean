import PeerDiscovery.Framing.Basic

/-! Taking messages off a stream, byte by byte.
The reader is a state machine over bytes, so how a stream is cut into pieces makes no difference:
`feed_append`. -/
namespace PeerDiscovery
namespace Framing

/-- Where in a frame a reader stands. -/
inductive Place where
  /-- In the header, of which so many bytes have come; the latest one is in front. -/
  | header (bytes : Bytes)
  /-- In the body, of which `left + 1` bytes are missing; the latest one is in front. -/
  | body (flags : UInt8) (left : Nat) (bytes : Bytes)
  /-- Past a fault, after which nothing is read. -/
  | failed (error : Error)
  deriving DecidableEq, Repr

structure Reader where
  /-- The complete messages, the latest one in front. -/
  done : List (List Bytes) := []
  /-- The complete frames of the message under way, the latest one in front. -/
  frames : List Bytes := []
  place : Place := .header []
  deriving DecidableEq, Repr

namespace Reader

def endFrame (r : Reader) (flags : UInt8) (body : Bytes) : Reader :=
  if flags &&& more = 0 then
    { done := (body :: r.frames).reverse :: r.done, frames := [], place := .header [] }
  else
    { r with
      frames := body :: r.frames
      place := if r.frames.length + 1 < maxFrames then .header [] else .failed .tooManyFrames }

def endHeader (r : Reader) (flags : UInt8) (size : Nat) : Reader :=
  if maxFrameSize < size then { r with place := .failed (.tooLarge size) }
  else
    match size with
    | 0 => r.endFrame flags []
    | left + 1 => { r with place := .body flags left [] }

def step (r : Reader) (b : UInt8) : Reader :=
  match r.place with
  | .header bytes =>
    match (b :: bytes).reverse with
    | [flags, s₁, s₂, s₃, s₄] => r.endHeader flags (Bytes.ofBigEndian [s₁, s₂, s₃, s₄])
    | _ => { r with place := .header (b :: bytes) }
  | .body flags 0 bytes => r.endFrame flags (b :: bytes).reverse
  | .body flags (left + 1) bytes => { r with place := .body flags left (b :: bytes) }
  | .failed _ => r

def feed (r : Reader) (bytes : Bytes) : Reader := bytes.foldl step r

@[simp] theorem feed_nil (r : Reader) : r.feed [] = r := rfl

theorem feed_append (r : Reader) (a b : Bytes) : r.feed (a ++ b) = (r.feed a).feed b :=
  List.foldl_append

/-- The complete messages, in order, and the reader without them. -/
def take (r : Reader) : List (List Bytes) × Reader := (r.done.reverse, { r with done := [] })

def failure? (r : Reader) : Option Error :=
  match r.place with
  | .failed e => some e
  | _ => none

/-- What the end of the stream means here: nothing between two messages. -/
def atEnd (r : Reader) : Option Error :=
  match r.place with
  | .failed e => some e
  | .header [] => if r.frames = [] then none else some .truncated
  | _ => some .truncated

def atFailure (r : Reader) (text : String) : Error :=
  match r.place with
  | .failed e => e
  | _ => .io text

end Reader

/-- The messages of a stream that arrives in pieces and ends, or fails with a text, and what its
reader says last. -/
def read (pieces : List Bytes) (failure : Option String) : List (List Bytes) × Option Error :=
  let r := pieces.foldl Reader.feed {}
  (r.done.reverse,
    match failure with
    | none => r.atEnd
    | some text => some (r.atFailure text))

theorem foldl_feed (r : Reader) (pieces : List Bytes) : pieces.foldl Reader.feed r = r.feed pieces.flatten := by
  induction pieces generalizing r with
  | nil => rfl
  | cons a rest ih => rw [List.foldl_cons, ih, List.flatten_cons, Reader.feed_append]

theorem read_eq_read_flatten (pieces : List Bytes) (failure : Option String) :
    read pieces failure = read [pieces.flatten] failure := by
  simp [read, foldl_feed]

end Framing
end PeerDiscovery
