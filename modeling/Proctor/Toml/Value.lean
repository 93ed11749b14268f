/-! # TOML values

A document is a table. While it is read, every table remembers how it came about, because that
decides what may still be added to it. -/

namespace Proctor.Toml

inductive TableKind
  /-- Only named on the way to another table. -/
  | implied
  | header
  /-- Made by a dotted key. -/
  | dotted
  | inline
  deriving Repr, DecidableEq

inductive Value
  | text (s : String)
  /-- A text in the form of an integer; it may stand for none, or for one of too many bits. -/
  | integer (n : Option Int)
  | boolean (b : Bool)
  /-- Whether it is small enough for a double. -/
  | float (fits : Bool)
  | date
  | array (items : List Value)
  /-- The tables under headers in double brackets. -/
  | tables (items : List (TableKind × List (String × Value)))
  | table (kind : TableKind) (entries : List (String × Value))
  deriving Repr

mutual

/-- Whether every number in a value stands for a number. -/
def Value.isSound : Value → Bool
  | .integer n => n.isSome
  | .float fits => fits
  | .array items => allSound items
  | .tables items => tablesSound items
  | .table _ entries => entriesSound entries
  | .text _ | .boolean _ | .date => true

def allSound : List Value → Bool
  | [] => true
  | v :: rest => v.isSound && allSound rest

def tablesSound : List (TableKind × List (String × Value)) → Bool
  | [] => true
  | (_, entries) :: rest => entriesSound entries && tablesSound rest

def entriesSound : List (String × Value) → Bool
  | [] => true
  | (_, v) :: rest => v.isSound && entriesSound rest

end

abbrev Entries := List (String × Value)

structure Table where
  kind : TableKind
  entries : Entries
  deriving Repr

namespace Table

def empty (kind : TableKind) : Table := ⟨kind, []⟩

def get? (t : Table) (key : String) : Option Value := t.entries.lookup key

def toValue (t : Table) : Value := .table t.kind t.entries

/-- Puts a value under a key, in the place of the value that is there. -/
def put (t : Table) (key : String) (v : Value) : Table :=
  let entries :=
    if (t.get? key).isSome then t.entries.map fun e => if e.1 == key then (key, v) else e
    else t.entries ++ [(key, v)]
  { t with entries }

/-- Changes the table at the end of a path. Tables on the way are made where there are none; nothing
leads into an inline table, and a dotted key leads into no table with a header of its own. -/
def update (dotted : Bool) (change : Table → Option Table) : List String → Table → Option Table
  | [], t => change t
  | key :: path, t => do
    match t.get? key with
    | none =>
      let child ← update dotted change path (empty (if dotted then .dotted else .implied))
      return t.put key child.toValue
    | some (.table kind entries) =>
      if kind = .inline || (dotted && kind = .header) then none
      return t.put key (← update dotted change path ⟨kind, entries⟩).toValue
    | some (.tables items) =>
      let (kind, entries) ← items.getLast?
      let last ← update dotted change path ⟨kind, entries⟩
      return t.put key (.tables (items.dropLast ++ [(last.kind, last.entries)]))
    | some _ => none

/-- Adds a value under a key that is still free. -/
def add (key : String) (v : Value) (t : Table) : Option Table :=
  if (t.get? key).isSome then none else some (t.put key v)

/-- Adds a value under a dotted key. Only a table made by dotted keys takes more of them. -/
def addAt (path : List String) (key : String) (v : Value) (t : Table) : Option Table :=
  update true (fun t => if t.kind = .dotted || path.isEmpty then t.add key v else none) path t

/-- Opens a table by a header. It may have been implied before, but not defined. -/
def openTable (key : String) (t : Table) : Option Table :=
  match t.get? key with
  | none => some (t.put key (.table .header []))
  | some (.table .implied entries) => some (t.put key (.table .header entries))
  | some _ => none

/-- Opens a further table by a header in double brackets. -/
def openItem (key : String) (t : Table) : Option Table :=
  match t.get? key with
  | none => some (t.put key (.tables [(.header, [])]))
  | some (.tables items) => some (t.put key (.tables (items ++ [(.header, [])])))
  | some _ => none

end Table
end Proctor.Toml
