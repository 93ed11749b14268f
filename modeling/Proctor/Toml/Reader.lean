import Proctor.Toml.Text

/-! # Reading TOML documents

A document is read line by line: each line opens a table, or sets a key of the table opened last.
What is not TOML yields `none`. -/

namespace Proctor.Toml

abbrev Reader := StateT (List Char) Option

namespace Reader

def fail {α : Type} : Reader α := failure

def blanks : Reader Unit := modify (·.dropWhile isBlank)

/-- Takes a character if it comes next. -/
def take? (c : Char) : Reader Bool := do
  match ← get with
  | d :: s => if c = d then set s; return true else return false
  | [] => return false

def expect (c : Char) : Reader Unit := do
  if !(← take? c) then fail

/-- A comment, if one begins here. -/
def comment : Reader Unit := do
  if ← take? '#' then
    let s ← get
    let line := s.takeWhile fun c => !isForbidden c
    set (s.drop line.length)

/-- What may stand between the parts of a list: blanks, line breaks and comments. -/
def gap : (bound : Nat) → Reader Unit
  | 0 => pure ()
  | bound + 1 => do
    blanks
    comment
    match lineBreak? (← get) with
    | some s => set s; gap bound
    | none => pure ()

def anyGap : Reader Unit := do gap ((← get).length + 1)

def isBare (c : Char) : Bool := c.isAlphanum || c == '_' || c == '-'

def simpleKey : Reader String := do
  let s ← get
  match s with
  | '"' :: s => let (key, rest) ← readLine '"' 0 s; set rest; return String.ofList key
  | '\'' :: s => let (key, rest) ← readLine '\'' 0 s; set rest; return String.ofList key
  | _ =>
    let key := s.takeWhile isBare
    if key.isEmpty then fail
    set (s.drop key.length)
    return String.ofList key

/-- The parts of a dotted key behind its first. -/
def moreKeys : (bound : Nat) → Reader (List String)
  | 0 => fail
  | bound + 1 => do
    blanks
    if ← take? '.' then
      blanks
      let key ← simpleKey
      return key :: (← moreKeys bound)
    else return []

/-- How many parts a key may have, and how deep arrays and inline tables may stand in each other. -/
def depthLimit : Nat := 80

/-- A key as the path to its last part, and that part. -/
def key : Reader (List String × String) := do
  blanks
  let first ← simpleKey
  let more ← moreKeys ((← get).length + 1)
  if more.length ≥ depthLimit then fail
  match (first :: more).getLast? with
  | some last => return ((first :: more).dropLast, last)
  | none => fail

/-- Whether a character ends a value without quotes. -/
def isDelimiter (c : Char) : Bool := "=,[]\x7b\x7d# \t\r\n".contains c

/-- The text of a value without quotes. Blanks belong to it if a further word follows them, as in a
date and a time. -/
def scalarText : List Char → List Char
  | [] => []
  | c :: s =>
    if !isDelimiter c then c :: scalarText s
    else if !isBlank c then []
    else
      match s.dropWhile isBlank with
      | [] => []
      | d :: _ => if isDelimiter d || ['.', '"', '\''].contains d then [] else c :: scalarText s

def scalar : Reader Value := do
  let s ← get
  let text := scalarText s
  set (s.drop text.length)
  readScalar text

mutual

/-- A value in which arrays and inline tables stand at most `levels` deep in each other. -/
def value : (bound levels : Nat) → Reader Value
  | 0, _ => fail
  | bound + 1, levels => do
    match ← get, levels with
    | '"' :: _, _ => let (s, rest) ← readString '"' (← get); set rest; return .text (String.ofList s)
    | '\'' :: _, _ =>
      let (s, rest) ← readString '\'' (← get); set rest; return .text (String.ofList s)
    | '[' :: s, levels + 1 => set s; return .array (← items bound levels)
    | '\x7b' :: s, levels + 1 =>
      set s
      return .table .inline (← members bound levels (.empty .inline)).entries
    | '[' :: _, 0 | '\x7b' :: _, 0 => fail
    | _, _ => scalar

/-- The rest of an array. A comma may follow its last item. -/
def items : (bound levels : Nat) → Reader (List Value)
  | 0, _ => fail
  | bound + 1, levels => do
    anyGap
    if ← take? ']' then return []
    let v ← value bound levels
    anyGap
    if ← take? ',' then return v :: (← items bound levels)
    expect ']'
    return [v]

/-- The rest of an inline table. Only inside a key is there no room for line breaks. -/
def members : (bound levels : Nat) → Table → Reader Table
  | 0, _, _ => fail
  | bound + 1, levels, t => do
    anyGap
    if ← take? '\x7d' then return t
    let (path, key) ← key
    anyGap
    expect '='
    anyGap
    let v ← value bound levels
    let t ← t.addAt path key v
    anyGap
    if ← take? ',' then return ← members bound levels t
    expect '\x7d'
    return t

end

/-- The table opened last, as the path of its header. -/
structure Document where
  root : Table
  current : List String

/-- A header in single or double brackets. -/
def header (d : Document) : Reader Document := do
  expect '['
  let double ← take? '['
  let (path, key) ← key
  expect ']'
  if double then expect ']'
  let root ← d.root.update false (if double then Table.openItem key else Table.openTable key) path
  return ⟨root, path ++ [key]⟩

def keyValue (d : Document) : Reader Document := do
  let (path, key) ← key
  expect '='
  blanks
  let v ← value (2 * (← get).length + 2) depthLimit
  let root ← d.root.update false (Table.addAt path key v) d.current
  return { d with root }

def line (d : Document) : Reader Document := do
  blanks
  let d ← match ← get with
    | [] | '\n' :: _ | '\r' :: _ | '#' :: _ => pure d
    | '[' :: _ => header d
    | _ => keyValue d
  blanks
  comment
  return d

def lines : (bound : Nat) → Document → Reader Document
  | 0, _ => fail
  | bound + 1, d => do
    let d ← line d
    match ← get with
    | [] => return d
    | s =>
      set (← lineBreak? s)
      lines bound d

end Reader

/-- Reads a document. A byte order mark at its very start is no part of it. -/
def read? (s : List Char) : Option Table := do
  let s := match s with
    | '\ufeff' :: rest => rest
    | _ => s
  let (d, _) ← (Reader.lines (s.length + 1) ⟨.empty .header, []⟩).run s
  return d.root

end Proctor.Toml
