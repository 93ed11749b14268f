/-! # JSON strings

`quote` writes a text as a JSON string and `readBody` reads one back. A text that is no JSON is
told apart from one that ends too early, and both from one that holds the wrong kind of value. -/

namespace Proctor.Json

inductive Fault
  | malformed
  | truncated
  | mismatched
  deriving Repr, DecidableEq

def hexDigit (n : Nat) : Char := Nat.digitChar n

/-- Only what a JSON string cannot hold as it is gets escaped. -/
def escapeChar (c : Char) : List Char :=
  match c with
  | '"' => ['\\', '"']
  | '\\' => ['\\', '\\']
  | '\x08' => ['\\', 'b']
  | '\x0c' => ['\\', 'f']
  | '\n' => ['\\', 'n']
  | '\r' => ['\\', 'r']
  | '\t' => ['\\', 't']
  | c =>
    if c.toNat < 0x20 then ['\\', 'u', '0', '0', hexDigit (c.toNat / 16), hexDigit (c.toNat % 16)]
    else [c]

def quote (s : List Char) : List Char := '"' :: s.flatMap escapeChar ++ ['"']

def hexDigit? (c : Char) : Option Nat :=
  if c.isDigit then some (c.toNat - '0'.toNat)
  else if 'a' ≤ c && c ≤ 'f' then some (c.toNat - 'a'.toNat + 10)
  else if 'A' ≤ c && c ≤ 'F' then some (c.toNat - 'A'.toNat + 10)
  else none

def utf8Length (s : List Char) : Nat := s.foldl (fun sum c => sum + c.utf8Size) 0

/-- Four hexadecimal digits. A text too short for them, in bytes, is truncated. -/
def fourHex (s : List Char) : Except Fault Nat :=
  match s with
  | a :: b :: c :: d :: _ =>
    match hexDigit? a, hexDigit? b, hexDigit? c, hexDigit? d with
    | some a, some b, some c, some d => .ok (((a * 16 + b) * 16 + c) * 16 + d)
    | _, _, _, _ => .error .malformed
  | _ => if utf8Length s < 4 then .error .truncated else .error .malformed

/-- The second half of a surrogate pair whose first half is `high`. -/
def lowSurrogate (high : Nat) : List Char → Except Fault Char
  | [] | ['\\'] => .error .truncated
  | '\\' :: 'u' :: rest => do
    let low ← fourHex rest
    if 0xdc00 ≤ low && low ≤ 0xdfff then
      return Char.ofNat (0x10000 + (high - 0xd800) * 0x400 + (low - 0xdc00))
    else throw .malformed
  | _ => .error .malformed

/-- The character that stands behind a backslash, and over how many characters it is written. When
the text is only skipped, lone surrogates pass. -/
def escaped (skipping : Bool) : List Char → Except Fault (Char × Nat)
  | [] => .error .truncated
  | '"' :: _ => .ok ('"', 1)
  | '\\' :: _ => .ok ('\\', 1)
  | '/' :: _ => .ok ('/', 1)
  | 'b' :: _ => .ok ('\x08', 1)
  | 'f' :: _ => .ok ('\x0c', 1)
  | 'n' :: _ => .ok ('\n', 1)
  | 'r' :: _ => .ok ('\r', 1)
  | 't' :: _ => .ok ('\t', 1)
  | 'u' :: rest => do
    let n ← fourHex rest
    if skipping then return (Char.ofNat n, 5)
    else if 0xdc00 ≤ n && n ≤ 0xdfff then throw .malformed
    else if 0xd800 ≤ n && n ≤ 0xdbff then return (← lowSurrogate n (rest.drop 4), 11)
    else return (Char.ofNat n, 5)
  | _ => .error .malformed

/-- A string behind its opening quote, and the text behind the closing one. `taken` counts the
characters that belong to the last escape. -/
def readBody (skipping : Bool) : (taken : Nat) → List Char → Except Fault (List Char × List Char)
  | _, [] => .error .truncated
  | taken + 1, _ :: rest => readBody skipping taken rest
  | 0, c :: rest =>
    if c = '"' then .ok ([], rest)
    else if c = '\\' then do
      let (c, length) ← escaped skipping rest
      let (s, rest) ← readBody skipping length rest
      return (c :: s, rest)
    else if c.toNat < 0x20 then .error .malformed
    else do
      let (s, rest) ← readBody skipping 0 rest
      return (c :: s, rest)

end Proctor.Json
