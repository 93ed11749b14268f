import Proctor.Pattern.Property
import Proctor.Pattern.Script
import Proctor.Text.Blank

/-! # Classes of characters

The sets that patterns call by a letter or a name. -/

namespace Proctor.Pattern.CharClass

def digit : CharSet := Category.set [.nd]

def blank : CharSet := .ofAscending Text.blankRuns

def alphabetic : CharSet := Property.named "alphabetic"

def alphanumeric : CharSet := alphabetic.union (Category.set Category.numbers)

/-- Letters, marks, digits and connecting punctuation, and the two joiners. -/
def word : CharSet :=
  alphabetic.union ((Category.set ([.nd, .pc] ++ Category.marks)).union (Property.named "joincontrol"))

def ascii : CharSet := .ofRanges [(0x00, 0x7f)]
def asciiDigit : CharSet := .range '0' '9'
def asciiBlank : CharSet := (CharSet.range '\t' '\r').union (.single ' ')
def asciiAlpha : CharSet := (CharSet.range 'A' 'Z').union (.range 'a' 'z')
def asciiAlnum : CharSet := asciiDigit.union asciiAlpha
def asciiWord : CharSet := asciiAlnum.union (.single '_')

/-- The classes written `[:name:]`, all within ASCII. -/
def named? : String → Option CharSet
  | "alnum" => some asciiAlnum
  | "alpha" => some asciiAlpha
  | "ascii" => some ascii
  | "blank" => some ((CharSet.single '\t').union (.single ' '))
  | "cntrl" => some ((CharSet.range '\x00' '\x1f').union (.single '\x7f'))
  | "digit" => some asciiDigit
  | "graph" => some (.range '!' '~')
  | "lower" => some (.range 'a' 'z')
  | "print" => some (.range ' ' '~')
  | "punct" => some ((CharSet.range '!' '~').without asciiAlnum)
  | "space" => some asciiBlank
  | "upper" => some (.range 'A' 'Z')
  | "word" => some asciiWord
  | "xdigit" => some (asciiDigit.union ((CharSet.range 'A' 'F').union (.range 'a' 'f')))
  | _ => none

/-! ### Unicode classes

Their names are given in lower case and without separators. -/

/-- The groups of general categories under their names, and the long names of the categories. -/
def categoryNames : List (String × List Category) := [
  ("l", Category.letters), ("letter", Category.letters),
  ("lc", [.lu, .ll, .lt]), ("casedletter", [.lu, .ll, .lt]),
  ("uppercaseletter", [.lu]), ("lowercaseletter", [.ll]), ("titlecaseletter", [.lt]),
  ("modifierletter", [.lm]), ("otherletter", [.lo]),
  ("m", Category.marks), ("mark", Category.marks), ("combiningmark", Category.marks),
  ("nonspacingmark", [.mn]), ("spacingmark", [.mc]), ("enclosingmark", [.me]),
  ("n", Category.numbers), ("number", Category.numbers),
  ("decimalnumber", [.nd]), ("digit", [.nd]), ("letternumber", [.nl]), ("othernumber", [.no]),
  ("p", Category.punctuation), ("punctuation", Category.punctuation),
  ("punct", Category.punctuation),
  ("connectorpunctuation", [.pc]), ("dashpunctuation", [.pd]), ("openpunctuation", [.ps]),
  ("closepunctuation", [.pe]), ("initialpunctuation", [.pi]), ("finalpunctuation", [.pf]),
  ("otherpunctuation", [.po]),
  ("s", Category.symbols), ("symbol", Category.symbols),
  ("mathsymbol", [.sm]), ("currencysymbol", [.sc]), ("modifiersymbol", [.sk]),
  ("othersymbol", [.so]),
  ("z", Category.separators), ("separator", Category.separators),
  ("spaceseparator", [.zs]), ("lineseparator", [.zl]), ("paragraphseparator", [.zp]),
  ("c", Category.others), ("other", Category.others),
  ("control", [.cc]), ("cntrl", [.cc]), ("format", [.cf]), ("privateuse", [.co]),
  ("unassigned", [.cn])]

/-- The categories of a name. Surrogates are no characters, so that their category is no class. -/
def categories? (name : List Char) : Option (List Category) :=
  match categoryNames.find? fun p => p.1.toList == name with
  | some p => some p.2
  | none =>
    match name with
    | ['c', 's'] => none
    | [a, b] => (Category.ofCode? [a.toUpper, b]).map fun c => [c]
    | _ => none

def generalCategory? (name : List Char) : Option CharSet :=
  match String.ofList name with
  | "any" => some .any
  | "ascii" => some ascii
  | "assigned" => some (Category.set [.cn]).compl
  | _ => (categories? name).map Category.set

def script? (name : List Char) : Option CharSet := (Script.ofName? name).map Script.set

/-- Names are compared without a leading `is`, without regard to case, and only by their ASCII
characters other than blanks, hyphens and underscores. -/
def looseName (name : List Char) : List Char :=
  let loose (s : List Char) :=
    (s.filter fun c => c.toNat < 0x80 && c != ' ' && c != '-' && c != '_').map Char.toLower
  match name with
  | a :: b :: rest =>
    if a.toLower == 'i' && b.toLower == 's' then
      -- `isc` is the short name of another property
      if loose rest == ['c'] then ['i', 's', 'c'] else loose rest
    else loose name
  | _ => loose name

/-- The class of a name alone: a property, a general category or a script. -/
def property? (name : List Char) : Option CharSet :=
  let name := looseName name
  (((Property.ofName? name).map Property.set).or (generalCategory? name)).or (script? name)

/-- The characters for which the property named by a key has a value. -/
def propertyValue? (key value : List Char) : Option CharSet :=
  match String.ofList (looseName key) with
  | "gc" | "generalcategory" => generalCategory? (looseName value)
  | "sc" | "script" => script? (looseName value)
  | _ => none

end Proctor.Pattern.CharClass
