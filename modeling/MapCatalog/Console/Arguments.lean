import MapCatalog.Console.Command
import MapCatalog.Console.Level
import MapCatalog.Json.Numeral

/-! # Arguments

What is read first decides, be it a mistake or a wish for help.
-/

namespace MapCatalog

namespace Arguments

inductive Stop where
  | help
  | version
  | mistake
deriving DecidableEq

structure Switch where
  long : String
  short : Option Char
  /-- Which values it takes, if it takes one. -/
  accepts : Option (String → Bool)
  /-- Whether it may be given more than once. -/
  repeatable : Bool

structure Grammar where
  switches : List Switch
  /-- Which operands it takes, in order. -/
  operands : List (String → Bool)
  /-- The names of the commands below it. -/
  commands : List String
  /-- Whether it tells the version. -/
  versioned : Bool

structure Given where
  /-- The long names of options and their values, the latest first. -/
  options : List (String × String)
  operands : List String
deriving DecidableEq

namespace Given

def nothing : Given :=
  ⟨[], []⟩

def has (given : Given) (long : String) : Bool :=
  given.options.any fun entry => entry.1 == long

def value? (given : Given) (long : String) : Option String :=
  (given.options.find? fun entry => entry.1 == long).map Prod.snd

/-- Add an option, unless it was given before and may not be repeated. -/
def add (given : Given) (switch : Switch) (value : String) : Except Stop Given :=
  if given.has switch.long && !switch.repeatable then .error .mistake
  else .ok { given with options := (switch.long, value) :: given.options }

/-- Add an operand, if there is room for one more and it is accepted. -/
def addOperand (given : Given) (grammar : Grammar) (text : String) : Except Stop Given :=
  match grammar.operands[given.operands.length]? with
  | none => .error .mistake
  | some accepts =>
      if accepts text then .ok { given with operands := given.operands ++ [text] }
      else .error .mistake

/-- Add every option of a cluster of short ones. -/
def addCluster (grammar : Grammar) : Given → List Char → Except Stop Given
  | given, [] => .ok given
  | given, c :: rest =>
      if c = 'h' then .error .help
      else if c = 'V' ∧ grammar.versioned then .error .version
      else
        match grammar.switches.find? fun switch => switch.short == some c with
        | none => .error .mistake
        | some switch =>
            match given.add switch "" with
            | .error stop => .error stop
            | .ok given => addCluster grammar given rest

end Given

inductive Form where
  /-- Two hyphens alone, behind which everything is an operand. -/
  | divider
  | long (name : String) (value : Option String)
  | short (cluster : List Char)
  | plain (text : String)
deriving DecidableEq

/-- The name of a long option, and the value behind an equals sign. -/
def longForm (chars : List Char) : Form :=
  let name := String.ofList (chars.takeWhile (· != '='))
  match chars.dropWhile (· != '=') with
  | [] => .long name none
  | _ :: value => .long name (some (String.ofList value))

def form (text : String) : Form :=
  match text.toList with
  | ['-', '-'] => .divider
  | '-' :: '-' :: rest => longForm rest
  | '-' :: c :: rest => .short (c :: rest)
  | _ => .plain text

/-- What becomes of a long option: it is complete, or its value is still to come. -/
inductive Long where
  | complete (given : Given)
  | awaits (switch : Switch) (accepts : String → Bool)

def readLong (grammar : Grammar) (given : Given) (name : String) (value : Option String) :
    Except Stop Long :=
  if name = "help" ∧ value = none then .error .help
  else if name = "version" ∧ value = none ∧ grammar.versioned then .error .version
  else
    match grammar.switches.find? fun switch => switch.long == name with
    | none => .error .mistake
    | some switch =>
        match switch.accepts, value with
        | none, none => (given.add switch "").map .complete
        | none, some _ => .error .mistake
        | some accepts, none => .ok (.awaits switch accepts)
        | some accepts, some value =>
            if accepts value then (given.add switch value).map .complete else .error .mistake

def addValue (given : Given) (switch : Switch) (accepts : String → Bool) (text : String) :
    Except Stop Given :=
  match form text with
  | .plain value => if accepts value then given.add switch value else .error .mistake
  | _ => .error .mistake

def addOperands (grammar : Grammar) : Given → List String → Except Stop Given
  | given, [] => .ok given
  | given, text :: rest =>
      match given.addOperand grammar text with
      | .error stop => .error stop
      | .ok given => addOperands grammar given rest

/--
Read arguments up to the name of a command below, and hand over that name and what follows it.
-/
def scan (grammar : Grammar) :
    Given → List String → Except Stop (Given × Option (String × List String))
  | given, [] => .ok (given, none)
  | given, text :: rest =>
      match form text with
      | .divider => (addOperands grammar given rest).map fun given => (given, none)
      | .short cluster =>
          match given.addCluster grammar cluster with
          | .error stop => .error stop
          | .ok given => scan grammar given rest
      | .plain text =>
          if grammar.commands.contains text then
            .ok (given, some (text, rest))
          else
            match given.addOperand grammar text with
            | .error stop => .error stop
            | .ok given => scan grammar given rest
      | .long name value =>
          match readLong grammar given name value, rest with
          | .error stop, _ => .error stop
          | .ok (.complete given), rest => scan grammar given rest
          | .ok (.awaits _ _), [] => .error .mistake
          | .ok (.awaits switch accepts), text :: rest =>
              match addValue given switch accepts text with
              | .error stop => .error stop
              | .ok given => scan grammar given rest

/-! ## The grammar of the program -/

def anyText (_ : String) : Bool :=
  true

def isPath (text : String) : Bool :=
  !text.isEmpty

def oneOf (words : List String) (text : String) : Bool :=
  words.contains text

def seconds? (text : String) : Option UInt64 :=
  let digits :=
    match text.toList with
    | '+' :: rest => rest
    | chars => chars
  match digits.mapM Json.digit? with
  | none | some [] => none
  | some digits =>
      let total := digits.foldl (fun total digit => 10 * total + digit) 0
      if total < 2 ^ 64 then some (UInt64.ofNat total) else none

def common : List Switch :=
  [⟨"config", none, some isPath, false⟩,
   ⟨"verbose", some 'v', none, true⟩,
   ⟨"quiet", some 'q', none, true⟩,
   ⟨"color", none, some (oneOf ["auto", "always", "never"]), false⟩,
   ⟨"log-level", none, some (oneOf ((Level.all.filter (· != .off)).map Level.name)), false⟩,
   ⟨"log-format", none, some (oneOf ["pretty", "compact", "json"]), false⟩,
   ⟨"log-file", none, some isPath, false⟩,
   ⟨"log-timestamps", none, none, false⟩,
   ⟨"log-spans", none, none, false⟩]

def topGrammar : Grammar :=
  ⟨common, [], ["compile", "token", "tree", "request", "help"], true⟩

def tokenGrammar : Grammar :=
  ⟨common, [], ["issue", "verify", "help"], false⟩

/-- A command with options and operands of its own, and none below it. -/
def leaf (switches : List Switch) (operands : List (String → Bool)) : Grammar :=
  ⟨switches ++ common, operands, [], false⟩

def snapshotSwitch : Switch :=
  ⟨"snapshot", none, some isPath, false⟩

def compileGrammar : Grammar :=
  leaf [] [isPath]

def issueGrammar : Grammar :=
  leaf [⟨"subject", none, some anyText, false⟩,
    ⟨"ttl-secs", none, some fun text => (seconds? text).isSome, false⟩] []

def verifyGrammar : Grammar :=
  leaf [] [anyText]

def treeGrammar : Grammar :=
  leaf [snapshotSwitch] []

def requestGrammar : Grammar :=
  leaf [⟨"body", none, some isPath, false⟩, ⟨"token", none, some anyText, false⟩, snapshotSwitch]
    [anyText, anyText]

/-! ## Invocations -/

inductive Task where
  | compile (form : String)
  | issue (subject : String) (seconds : Option UInt64)
  | verify (token : String)
  | tree (snapshot : Option String)
  | request (call : Command.Call) (snapshot : Option String)
deriving DecidableEq

structure Invocation where
  config : Option String
  logFile : Option String
  task : Task
deriving DecidableEq

def clashes (given : Given) : Bool :=
  given.has "verbose" && given.has "quiet"

/-- The value of an option, the one that was given to the innermost command. -/
def lastValue (levels : List Given) (long : String) : Option String :=
  levels.findSome? fun given => given.value? long

def invoke (task : Option Task) (levels : List Given) : Except Stop Invocation :=
  match task with
  | none => .error .mistake
  | some task =>
      if levels.any clashes then .error .mistake
      else .ok ⟨lastValue levels "config", lastValue levels "log-file", task⟩

def readLeaf (grammar : Grammar) (above : List Given) (args : List String)
    (task : Given → Option Task) : Except Stop Invocation :=
  match scan grammar .nothing args with
  | .error stop => .error stop
  | .ok (given, _) => invoke (task given) (given :: above)

def compileTask (given : Given) : Option Task :=
  match given.operands with
  | [form] => some (.compile form)
  | _ => none

def issueTask (given : Given) : Option Task :=
  (given.value? "subject").map fun subject =>
    .issue subject ((given.value? "ttl-secs").bind seconds?)

def verifyTask (given : Given) : Option Task :=
  match given.operands with
  | [token] => some (.verify token)
  | _ => none

def treeTask (given : Given) : Option Task :=
  some (.tree (given.value? "snapshot"))

def requestTask (given : Given) : Option Task :=
  match given.operands with
  | [method, path] =>
      some (.request ⟨method, path, given.value? "body", given.value? "token"⟩
        (given.value? "snapshot"))
  | _ => none

def helpOn (known : Bool) : Except Stop Invocation :=
  if known then .error .help else .error .mistake

def knowsToken : List String → Bool
  | [] => true
  | [name] => tokenGrammar.commands.contains name
  | _ => false

def knows : List String → Bool
  | "token" :: rest => knowsToken rest
  | [] => true
  | [name] => topGrammar.commands.contains name
  | _ => false

def readToken (above : List Given) (args : List String) : Except Stop Invocation :=
  match scan tokenGrammar .nothing args with
  | .error stop => .error stop
  | .ok (_, none) => .error .mistake
  | .ok (given, some (name, rest)) =>
      if name = "issue" then readLeaf issueGrammar (given :: above) rest issueTask
      else if name = "verify" then readLeaf verifyGrammar (given :: above) rest verifyTask
      else helpOn (knowsToken rest)

def read (args : List String) : Except Stop Invocation :=
  match scan topGrammar .nothing args with
  | .error stop => .error stop
  | .ok (_, none) => .error .mistake
  | .ok (given, some (name, rest)) =>
      if name = "compile" then readLeaf compileGrammar [given] rest compileTask
      else if name = "token" then readToken [given] rest
      else if name = "tree" then readLeaf treeGrammar [given] rest treeTask
      else if name = "request" then readLeaf requestGrammar [given] rest requestTask
      else helpOn (knows rest)

end Arguments

end MapCatalog
