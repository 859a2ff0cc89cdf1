import MapCatalog.Json.Basic

/-! # Tables of a configuration

A table is declared once by its own heading.  Before that it may be implied by the heading of a table inside it, and a
table that dotted keys made cannot be declared at all.
-/

namespace MapCatalog

namespace Toml

inductive Mark where
  | implied
  | dotted
  | declared
deriving DecidableEq

inductive Node where
  /-- A value that is complete. -/
  | value (doc : Json)
  | table (mark : Mark) (entries : List (String × Node))
  /-- A row of tables, the latest first. -/
  | row (tables : List (List (String × Node)))

structure Table where
  mark : Mark
  entries : List (String × Node)

namespace Table

def empty : Table :=
  ⟨.declared, []⟩

def get? (table : Table) (key : String) : Option Node :=
  (table.entries.find? fun entry => entry.1 == key).map Prod.snd

/-- Put a node under a key, in place of the one that is there. -/
def set (table : Table) (key : String) (node : Node) : Table :=
  ⟨table.mark, table.entries.filter (fun entry => entry.1 != key) ++ [(key, node)]⟩

def node (table : Table) : Node :=
  .table table.mark table.entries

/--
Change the table at the end of a path.  Missing tables on the way are made.  Dotted keys do not lead
into a table that was declared, and nothing leads into a complete value.
-/
def alter (dotted : Bool) (change : Table → Option Table) : List String → Table → Option Table
  | [], table => change table
  | key :: path, table =>
      match table.get? key with
      | none =>
          let made : Table := ⟨if dotted then .dotted else .implied, []⟩
          (alter dotted change path made).map fun inner => table.set key inner.node
      | some (.table mark entries) =>
          if dotted ∧ mark = .declared then none
          else (alter dotted change path ⟨mark, entries⟩).map fun inner => table.set key inner.node
      | some (.row (latest :: others)) =>
          (alter dotted change path ⟨.declared, latest⟩).map fun inner =>
            table.set key (.row (inner.entries :: others))
      | some (.row []) | some (.value _) => none

/-- Give a key of a table a value.  A key behind dots belongs to a table that dotted keys made. -/
def assign (dotted : Bool) (key : String) (value : Json) (table : Table) : Option Table :=
  if dotted = (table.mark = .dotted) ∧ (table.get? key).isNone then
    some (table.set key (.value value))
  else
    none

def assignAt (path : List String) (key : String) (value : Json) : Table → Option Table :=
  alter (!path.isEmpty) (assign (!path.isEmpty) key value) path

def declare (key : String) (parent : Table) : Option Table :=
  match parent.get? key with
  | none => some (parent.set key (.table .declared []))
  | some (.table .implied entries) => some (parent.set key (.table .declared entries))
  | some _ => none

def addRow (key : String) (parent : Table) : Option Table :=
  match parent.get? key with
  | none => some (parent.set key (.row [[]]))
  | some (.row tables) => some (parent.set key (.row ([] :: tables)))
  | some _ => none

end Table

mutual

def Node.toJson : Node → Json
  | .value doc => doc
  | .table _ entries => .object (entriesToMembers entries)
  | .row tables => .array (rowToItems tables).reverse

def entriesToMembers : List (String × Node) → Json.Members
  | [] => []
  | (key, node) :: rest => (key, node.toJson) :: entriesToMembers rest

def rowToItems : List (List (String × Node)) → List Json
  | [] => []
  | entries :: rest => .object (entriesToMembers entries) :: rowToItems rest

end

def Table.toJson (table : Table) : Json :=
  table.node.toJson

end Toml

end MapCatalog
