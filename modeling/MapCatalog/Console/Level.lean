/-! # Levels of the log -/

namespace MapCatalog

inductive Level where
  | off
  | error
  | warn
  | info
  | debug
  | trace
deriving DecidableEq

namespace Level

def name : Level → String
  | .off => "off"
  | .error => "error"
  | .warn => "warn"
  | .info => "info"
  | .debug => "debug"
  | .trace => "trace"

def all : List Level :=
  [.off, .error, .warn, .info, .debug, .trace]

def ofName? (name : String) : Option Level :=
  all.find? fun level => level.name == name

def parts : List String :=
  ["layer_auth", "layer_cli", "layer_model", "layer_service", "layer_store", "layer_style"]

/-- The directives that give every part a level; all else only warns. -/
def directives (level : Level) : String :=
  String.intercalate "," (warn.name :: parts.map fun part => part ++ "=" ++ level.name)

end Level

end MapCatalog
