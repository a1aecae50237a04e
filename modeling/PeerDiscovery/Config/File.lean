import PeerDiscovery.Config.Overrides
import PeerDiscovery.Config.Reading

/-! Configuration files: loading one, and writing the default one where there is none. -/
namespace PeerDiscovery
namespace Config

inductive Error where
  | readFailed
  | parseFailed
  | writeFailed
  deriving DecidableEq, Repr

/-- The name of the kind of error. -/
def Error.kind : Error → String
  | readFailed => "ReadFailed"
  | parseFailed => "ParseFailed"
  | writeFailed => "WriteFailed"

/-- What the system tells of a path. -/
structure File where
  /-- Whether something is there. The answer is no as well when not even its metadata can be read. -/
  found : Bool
  /-- What reading it gives, if it can be read. -/
  content : Option Bytes
  deriving DecidableEq, Repr

namespace File

def absent : File := ⟨false, none⟩

/-- Something that cannot be read, such as a directory. -/
def unreadable : File := ⟨true, none⟩

def holding (bytes : Bytes) : File := ⟨true, some bytes⟩

end File

/-- The configuration that bytes are the text of. -/
def ofBytes (bytes : Bytes) : Except Error Config :=
  match bytes.toText? with
  | none => .error .readFailed
  | some text =>
    match ofText? text with
    | none => .error .parseFailed
    | some config => .ok config

/-- The configuration in a file, or the default one where none is found. -/
def ofFile (file : File) : Except Error Config :=
  if file.found then
    match file.content with
    | none => .error .readFailed
    | some bytes => ofBytes bytes
  else .ok {}

/-- The configuration in a file, below the variables. -/
def load (file : File) (env : Environment) : Except Error Config := (ofFile file).map fun c => c.override env

/-- Puts the default configuration where no file is found, if one can be made there. -/
def File.orDefault (file : File) (writable : Bool) : Except Error File :=
  if file.found then .ok file
  else if writable then .ok (.holding (Bytes.ofText template))
  else .error .writeFailed

end Config
end PeerDiscovery
