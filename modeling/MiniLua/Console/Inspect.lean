import MiniLua.Session

/-! # Global variables at a glance

The interactive mode lists global variables with the kind of their value and the start of the record
it is kept in. -/

namespace MiniLua.Inspect

def tag : Value → String
  | .nil => "Nil"
  | .bool _ => "Bool"
  | .string _ => "Str"
  | .number _ => "Num"
  | .ref _ => "Ref"
  | .builtin _ => "Builtin"
  | .list _ => "ValueList"

def commas (parts : List String) : String := ", ".intercalate parts

/-- The widest record that is shown. -/
def width : Nat := 60

mutual

/-- The content of a value inside a record. Records are opened at most `depth` deep; one that is
open already is shown by dots. -/
def payload (m : Machine) (depth : Nat) (opened : List Ref) : Value → String
  | .nil => "None"
  | .bool b => if b then "True" else "False"
  | .string s => Text.quoted s
  | .number x => Number.shortest x
  | .builtin b => Text.quoted b.name
  | .list _ => "[]"
  | .ref r => record m depth opened r
termination_by (depth, 1)

/-- A value inside a record, with its kind. -/
def tagged (m : Machine) (depth : Nat) (opened : List Ref) (v : Value) : String :=
  "\x7b'value': " ++ payload m depth opened v ++ ", 'type': '" ++ tag v ++ "'\x7d"
termination_by (depth, 2)

/-- An entry of a table: what it is found by, then key and value. -/
def entry (m : Machine) (depth : Nat) (opened : List Ref) (key value : Value) : String :=
  "('" ++ tag key ++ "', " ++ payload m depth opened key ++ "): (" ++ tagged m depth opened key
    ++ ", " ++ tagged m depth opened value ++ ")"
termination_by (depth, 3)

/-- The record of a table or function. -/
def record (m : Machine) (depth : Nat) (opened : List Ref) (r : Ref) : String :=
  if opened.contains r then "\x7b...\x7d"
  else
    match depth, r with
    | 0, _ => ""
    | depth + 1, .table id =>
      let t := m.tables.getD id .empty
      let array := (t.array.toList.take width).map fun v => tagged m depth (r :: opened) v
      let entries := (t.entries.take width).map fun e => entry m depth (r :: opened) e.1 e.2
      "\x7b'kind': 'table', 'array': [" ++ commas array ++ "], 'hash': \x7b" ++ commas entries
        ++ "\x7d\x7d"
    | _ + 1, .function id =>
      let f := m.functions.getD id default
      "\x7b'kind': 'function', 'name': " ++ Text.quoted f.name ++ ", 'params': ["
        ++ commas (f.params.map Text.quoted) ++ "], 'body': \x7b'type': 'BLOCK'\x7d\x7d"
termination_by (depth, 0)

end

/-- A value as the listing of variables shows it; strings stand without quotes. -/
def shown (m : Machine) : Value → String
  | .string s => s
  | v => payload m 3 [] v

def row (m : Machine) (name : String) (v : Value) : String :=
  "  " ++ name ++ " = " ++ tag v ++ " " ++ String.ofList ((shown m v).toList.take width)

/-- The global variables that do not hold a builtin function. -/
def listing (s : Session) : String :=
  let rows := s.globals.filterMap fun (name, v) =>
    match v with
    | .builtin _ => none
    | v => some (row s.machine name v)
  match rows with
  | [] => "  (no user-defined globals)\n"
  | rows => String.join (rows.map (· ++ "\n"))

end MiniLua.Inspect
