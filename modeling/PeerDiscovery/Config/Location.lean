import PeerDiscovery.Config.Overrides

/-! Where the configuration is. -/
namespace PeerDiscovery
namespace Config

/-- A path below a directory. The empty path is the working directory. -/
def below (directory name : String) : String :=
  if directory = "" ∨ directory.toList.getLast? = some '/' then directory ++ name
  else directory ++ "/" ++ name

def home (env : Environment) : String :=
  match env "XDG_CONFIG_HOME" with
  | some directory => directory
  | none => below ((env "HOME").getD "/tmp") ".config"

/-- The path of the configuration: a variable names it, or it is in its place below the user's
configurations. -/
def path (env : Environment) : String :=
  match env "TRELLIS_CONFIG" with
  | some path => path
  | none => below (below (home env) "trellis") "config.toml"

end Config
end PeerDiscovery
