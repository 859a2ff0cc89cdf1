import MapCatalog.Json.Basic
import MapCatalog.Service.Error

/-! # Requests and responses -/

namespace MapCatalog

structure Request where
  method : Method
  path : String
  /-- The authorization value. -/
  authorization : Option String
  body : Option Json
deriving DecidableEq

structure Response where
  status : Nat
  body : Json
deriving DecidableEq

namespace Response

def member (status : Nat) (key : String) (value : Json) : Response :=
  ⟨status, (Json.object [(key, value)]).normalize⟩

def ok (key : String) (value : Json) : Response :=
  member 200 key value

def created (key : String) (value : Json) : Response :=
  member 201 key value

def failure (e : ServiceError) : Response :=
  member e.status "error" (.text e.userMessage)

def isSuccess (response : Response) : Bool :=
  200 ≤ response.status && response.status < 300

end Response

end MapCatalog
