import MapCatalog.Text.Case

/-! # Methods -/

namespace MapCatalog

inductive Method where
  | get
  | post
  | put
  | delete
deriving DecidableEq

namespace Method

def name : Method → String
  | .get => "GET"
  | .post => "POST"
  | .put => "PUT"
  | .delete => "DELETE"

def all : List Method :=
  [.get, .post, .put, .delete]

def ofName? (text : String) : Option Method :=
  all.find? fun method => Text.sameLetters text method.name

/-- Whether a request that succeeds may have changed something. -/
def isMutation (method : Method) : Bool :=
  method != .get

end Method

end MapCatalog
