import Proctor.Json.Number

/-! # Reading JSON into values

Readers take a value of a known kind from the front of a text. The first fault in the text decides,
so a value of the wrong kind is found before what comes behind it is looked at. -/

namespace Proctor.Json

abbrev Reader := StateT (List Char) (Except Fault)

namespace Reader

def isBlank (c : Char) : Bool := c == ' ' || c == '\n' || c == '\t' || c == '\r'

/-- The next character that is not blank, left in place. -/
def peek : Reader (Option Char) := do
  modify (·.dropWhile isBlank)
  return (← get).head?

def advance : Reader Unit := modify List.tail

/-- The next character must be one of `cs` in turn. -/
def word : List Char → Reader Unit
  | [] => pure ()
  | c :: cs => do
    match ← get with
    | [] => throw .truncated
    | d :: rest =>
      if c = d then
        set rest
        word cs
      else throw .malformed

def body (skipping : Bool) : Reader (List Char) := do
  let (s, rest) ← readBody skipping 0 (← get)
  set rest
  return s

def number (positive : Bool) : Reader (Option Nat) := do
  let (n, rest) ← readNumber positive (← get)
  set rest
  return n

/-- Reads a value to the end of its first token, only to find that it is of the wrong kind. -/
def mismatch {α : Type} : Reader α := do
  match ← get with
  | 'n' :: rest => set rest; word ['u', 'l', 'l']
  | 't' :: rest => set rest; word ['r', 'u', 'e']
  | 'f' :: rest => set rest; word ['a', 'l', 's', 'e']
  | '-' :: rest => set rest; discard (number false)
  | '"' :: rest => set rest; discard (body false)
  | '[' :: _ | '{' :: _ => pure ()
  | c :: _ => if c.isDigit then discard (number true) else throw .malformed
  | [] => throw .malformed
  throw .mismatched

def text : Reader String := do
  match ← peek with
  | none => throw .truncated
  | some '"' => advance; return String.ofList (← body false)
  | some _ => mismatch

def bool : Reader Bool := do
  match ← peek with
  | none => throw .truncated
  | some 't' => advance; word ['r', 'u', 'e']; return true
  | some 'f' => advance; word ['a', 'l', 's', 'e']; return false
  | some _ => mismatch

/-- A natural number below 2³². -/
def word32 : Reader UInt32 := do
  let n ← match ← peek with
    | none => throw .truncated
    | some '-' => advance; number false
    | some c => if c.isDigit then number true else mismatch
  match n with
  | some n => if n < Nat.pow 2 32 then return UInt32.ofNat n else throw .mismatched
  | none => throw .mismatched

/-- `null` is an absent value. -/
def optional {α : Type} (value : Reader α) : Reader (Option α) := do
  match ← peek with
  | some 'n' => advance; word ['u', 'l', 'l']; return none
  | _ => some <$> value

/-! ### Lists -/

/-- Whether a list goes on, behind its bracket (`first`) or behind an item. -/
def hasItem (first : Bool) : Reader Bool := do
  match ← peek with
  | none => throw .truncated
  | some ']' => return false
  | some c =>
    if first then return true
    else if c = ',' then
      advance
      match ← peek with
      | some ']' => throw .malformed
      | some _ => return true
      | none => throw .truncated
    else throw .malformed

def endList : Reader Unit := do
  match ← peek with
  | some ']' => advance
  | some _ => throw .malformed
  | none => throw .truncated

/-- The items of a list. Each takes a character at least, so the length of the text bounds them. -/
def items {α : Type} (item : Reader α) : (bound : Nat) → (first : Bool) → Reader (List α)
  | 0, _ => throw .truncated
  | bound + 1, first => do
    if ← hasItem first then
      let a ← item
      return a :: (← items item bound false)
    else return []

def list {α : Type} (item : Reader α) : Reader (List α) := do
  match ← peek with
  | none => throw .truncated
  | some '[' =>
    advance
    let all ← items item ((← get).length + 1) true
    endList
    return all
  | some _ => mismatch

/-! ### Values that nobody asked for -/

/-- What is expected next: a value, or what may follow one. Behind an opening bracket no comma may
follow. -/
inductive Expected
  | value
  | next (comma : Bool)

/-- Passes over a value inside the given brackets, of which `true` are braces. -/
def skipInside : (bound : Nat) → Expected → List Bool → Reader Unit
  | 0, _, _ => throw .truncated
  | bound + 1, .value, open_ => do
    match ← peek with
    | none => throw .truncated
    | some 'n' => advance; word ['u', 'l', 'l']; skipInside bound (.next true) open_
    | some 't' => advance; word ['r', 'u', 'e']; skipInside bound (.next true) open_
    | some 'f' => advance; word ['a', 'l', 's', 'e']; skipInside bound (.next true) open_
    | some '"' => advance; discard (body true); skipInside bound (.next true) open_
    | some '[' => advance; skipInside bound (.next false) (false :: open_)
    | some '{' => advance; skipInside bound (.next false) (true :: open_)
    | some c =>
      if c = '-' then advance
      else if !c.isDigit then throw .malformed
      set (← skipNumber (← get))
      skipInside bound (.next true) open_
  | _, .next _, [] => pure ()
  | bound + 1, .next comma, brace :: open_ => do
    match ← peek with
    | none => throw .truncated
    | some c =>
      if c = (if brace then '}' else ']') then
        advance
        skipInside bound (.next true) open_
      else
        if c = ',' && comma then advance
        else if comma then throw .malformed
        if brace then key
        skipInside bound .value (brace :: open_)
where
  key : Reader Unit := do
    match ← peek with
    | some '"' => advance
    | some _ => throw .malformed
    | none => throw .truncated
    discard (body true)
    match ← peek with
    | some ':' => advance
    | some _ => throw .malformed
    | none => throw .truncated

def skip : Reader Unit := do skipInside (2 * (← get).length + 2) .value []

/-! ### Records -/

/-- A field of a record of which `σ` holds the fields found so far. -/
structure RecordField (σ : Type) where
  name : List Char
  isSet : σ → Bool
  read : σ → Reader σ

/-- Whether an object goes on with a key, behind its brace (`first`) or behind a member. -/
def hasKey (first : Bool) : Reader Bool := do
  match ← peek with
  | none => throw .truncated
  | some '}' => return false
  | some c =>
    if first then
      if c = '"' then return true else throw .malformed
    else if c = ',' then
      advance
      match ← peek with
      | some '"' => return true
      | some _ => throw .malformed
      | none => throw .truncated
    else throw .malformed

def colon : Reader Unit := do
  match ← peek with
  | some ':' => advance
  | some _ => throw .malformed
  | none => throw .truncated

/-- The members of an object. No field may come twice; a key that is no field is passed over. -/
def members {σ : Type} (fields : List (RecordField σ)) : (bound : Nat) → (first : Bool) → σ → Reader σ
  | 0, _, _ => throw .truncated
  | bound + 1, first, s => do
    if ← hasKey first then
      advance
      let key ← body false
      match fields.find? (·.name == key) with
      | some f =>
        if f.isSet s then throw .mismatched
        colon
        members fields bound false (← f.read s)
      | none =>
        colon
        skip
        members fields bound false s
    else return s

/-- The fields of a record written as a list, as far as it goes. -/
def inOrder {σ : Type} : List (RecordField σ) → (first : Bool) → σ → Reader σ
  | [], _, s => pure s
  | f :: fields, first, s => do
    if ← hasItem first then inOrder fields false (← f.read s) else return s

/-- A record is an object, or the list of its fields in order. `complete` makes the record of the
fields found, unless one is missing that must be there. -/
def record {σ α : Type} (fields : List (RecordField σ)) (start : σ) (complete : σ → Option α) : Reader α := do
  let finish (s : σ) : Reader α :=
    match complete s with
    | some a => pure a
    | none => throw .mismatched
  match ← peek with
  | none => throw .truncated
  | some '[' =>
    advance
    let a ← finish (← inOrder fields true start)
    endList
    return a
  | some '{' =>
    advance
    let a ← finish (← members fields ((← get).length + 1) true start)
    advance
    return a
  | some _ => mismatch

end Reader

/-- Reads a text that holds one value and nothing else. -/
def decode {α : Type} (value : Reader α) (s : List Char) : Except Fault α := do
  let (a, rest) ← value.run s
  if rest.all Reader.isBlank then return a else throw .malformed

end Proctor.Json
