import PeerDiscovery.Config.File
import PeerDiscovery.Proofs.Config.Reading
import PeerDiscovery.Proofs.Endpoint.Grammar
import PeerDiscovery.Proofs.Wire.Parsing

/-! What counts in a configuration: variables above a file, and a file above the defaults: `Config.load_exact`.
The layers are relations (`File.Holds`, `Prevails`), so they do not say how a value is looked for. A file at fault is
told of before the variables are asked. -/
namespace PeerDiscovery

/-- A setting with a variable above it. What the variable means counts, and if it means nothing, what is below. -/
def Prevails {α : Type} (Means : String → α → Prop) (setting : Option String) (below a : α) : Prop :=
  (∃ text, setting = some text ∧ Means text a) ∨ (∀ text, setting = some text → ∀ b, ¬Means text b) ∧ a = below

/-- A setting stays when the same variable is put above it once more. -/
theorem Prevails.again {α : Type} {Means : String → α → Prop} {setting : Option String} {below a : α}
    (h : Prevails Means setting below a) : Prevails Means setting a a :=
  h.imp_right fun hbelow => ⟨hbelow.1, rfl⟩

namespace NetworkSettings

/-- A switch is on for two texts, and off for all others. -/
def MeansOn (text : String) (b : Bool) : Prop := b = true ↔ text = "true" ∨ text = "1"

def MeansPort (text : String) (port : UInt16) : Prop := Decimal.IsNumeral text.toList port.toNat

def MeansSeconds (text : String) (seconds : UInt64) : Prop := Decimal.IsNumeral text.toList seconds.toNat

/-- Settings with the variables above them. -/
structure Overridden (env : Environment) (below s : NetworkSettings) : Prop where
  mailbox : Prevails (fun text mailbox => mailbox = text) (env mailboxVariable) below.mailbox s.mailbox
  broadcastPort : Prevails MeansPort (env broadcastPortVariable) below.broadcastPort s.broadcastPort
  broadcastIntervalSecs :
    Prevails MeansSeconds (env broadcastIntervalVariable) below.broadcastIntervalSecs s.broadcastIntervalSecs
  activeBroadcast : Prevails MeansOn (env activeBroadcastVariable) below.activeBroadcast s.activeBroadcast
  shutdownTimeoutSecs : s.shutdownTimeoutSecs = below.shutdownTimeoutSecs

theorem Overridden.again {env : Environment} {below s : NetworkSettings} (h : Overridden env below s) :
    Overridden env s s :=
  ⟨h.mailbox.again, h.broadcastPort.again, h.broadcastIntervalSecs.again, h.activeBroadcast.again, rfl⟩

end NetworkSettings

namespace Config

/-- A file has a configuration. One that is not found has the default one, whatever it is. -/
inductive File.Holds : File → Config → Prop where
  | unseen {file : File} (h : file.found = false) : Holds file {}
  | content {text : String} {c : Config} (h : IsConfigText text c) : Holds (.holding (Bytes.ofText text)) c

/-- What is wrong with a file that is found. -/
inductive File.Fault : File → Error → Prop where
  | unreadable : Fault .unreadable .readFailed
  | notText {bytes : Bytes} (h : ∀ text, bytes ≠ Bytes.ofText text) : Fault (.holding bytes) .readFailed
  | notConfig {text : String} (h : ∀ c, ¬IsConfigText text c) : Fault (.holding (Bytes.ofText text)) .parseFailed

theorem ofFile_of_not_found {file : File} (h : file.found = false) : ofFile file = .ok {} := by
  simp only [ofFile, h, Bool.false_eq_true, if_false]

theorem ofFile_holding (bytes : Bytes) : ofFile (.holding bytes) = ofBytes bytes := rfl

theorem ofFile_of_holds {file : File} {c : Config} (h : file.Holds c) : ofFile file = .ok c := by
  cases h with
  | unseen h => exact ofFile_of_not_found h
  | content h => simp only [ofFile_holding, ofBytes, Bytes.toText?_ofText, ofText?_eq_some_iff.2 h]

theorem File.Holds.unique {file : File} {c c' : Config} (h : file.Holds c) (h' : file.Holds c') : c = c' :=
  Except.ok.inj ((ofFile_of_holds h).symm.trans (ofFile_of_holds h'))

/-- A port above the range leaves that of the file, and one with a plus sign is a port. -/
example :
    let file := File.holding (Bytes.ofText "[network]\nbroadcast_port = 8600\n")
    let ports (text : String) : Environment := fun name =>
      if name = NetworkSettings.broadcastPortVariable then some text else none
    (load file (ports "65536")).toOption = some { network := { broadcastPort := 8600 } } ∧
      (load file (ports "+09000")).toOption = some { network := { broadcastPort := 9000 } } := by
  decide +kernel

end Config
end PeerDiscovery
