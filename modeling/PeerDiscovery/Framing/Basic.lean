import PeerDiscovery.Bytes

/-! Messages of one or more frames on a byte stream.
A frame is a flag byte, its length as four bytes and its body. The lowest flag bit is set on every
frame of a message but the last. `write` puts a message on a stream that may run full. -/
namespace PeerDiscovery
namespace Framing

def maxFrameSize : Nat := 1048576

def maxFrames : Nat := 16

/-- The flag of a frame after which another one follows. -/
def more : UInt8 := 1

inductive Error where
  | io (text : String)
  | tooLarge (size : Nat)
  | tooManyFrames
  | empty
  | truncated
  deriving DecidableEq, Repr

namespace Error

/-- The name of the kind of error. -/
def kind : Error → String
  | io _ => "Io"
  | tooLarge _ => "TooLarge"
  | tooManyFrames => "TooManyFrames"
  | empty => "Empty"
  | truncated => "Truncated"

def message : Error → String
  | io text => "i/o error: " ++ text
  | tooLarge size => "frame of " ++ toString size ++ " bytes exceeds the 1048576 byte limit"
  | tooManyFrames => "message has more than 16 frames"
  | empty => "cannot send a message with no frames"
  | truncated => "stream ended in the middle of a message"

end Error

def encodeFrame (flags : UInt8) (body : Bytes) : Bytes :=
  flags :: Bytes.toBigEndian 4 body.length ++ body

def encodeFrames : List Bytes → Bytes
  | [] => []
  | [last] => encodeFrame 0 last
  | frame :: rest => encodeFrame more frame ++ encodeFrames rest

/-- The bytes of a message, if it is one that may be sent. -/
def encode (frames : List Bytes) : Except Error Bytes :=
  if frames = [] then .error .empty
  else if maxFrames < frames.length then .error .tooManyFrames
  else
    match frames.find? fun frame => maxFrameSize < frame.length with
    | some frame => .error (.tooLarge frame.length)
    | none => .ok (encodeFrames frames)

/-- A stream that is written to. -/
structure Sink where
  written : Bytes := []
  /-- How many more bytes the stream takes before it fails; none when it never does. -/
  room : Option Nat := none
  /-- What a failure of the stream says. -/
  failure : String := ""
  flushes : Nat := 0

namespace Sink

/-- Writes bytes as far as there is room and flushes them. -/
def put (s : Sink) (bytes : Bytes) : Sink × Except Error Unit :=
  match s.room with
  | none => ({ s with written := s.written ++ bytes, flushes := s.flushes + 1 }, .ok ())
  | some room =>
    let s' := { s with written := s.written ++ bytes.take room, room := some (room - bytes.length) }
    if bytes.length ≤ room then ({ s' with flushes := s.flushes + 1 }, .ok ())
    else (s', .error (.io s.failure))

/-- Writes a message; one that may not be sent adds no byte. -/
def write (s : Sink) (frames : List Bytes) : Sink × Except Error Unit :=
  match encode frames with
  | .error e => (s, .error e)
  | .ok bytes => s.put bytes

/-- Writes messages one after another. For each that succeeds the result is the length of the stream
after it. -/
def writeAll (s : Sink) : List (List Bytes) → Sink × List (Except Error Nat)
  | [] => (s, [])
  | frames :: rest =>
    let (s', result) := s.write frames
    let (s'', results) := s'.writeAll rest
    (s'', result.map (fun _ => s'.written.length) :: results)

end Sink
end Framing
end PeerDiscovery
