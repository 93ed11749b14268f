import Proctor.Filter.Expression
import Proctor.Pattern.Template

/-! # Selecting tests by a filter text

A selection is made once from a filter text and its options and then asked about test after test. A
text that is no filter selects nothing; why it is none is kept for the caller to report. -/

namespace Proctor.Filter

/-- How the values of a set are transformed: by the first match of a regular expression, or by
replacing that match. -/
structure FilterOptions where
  regex : Option String
  replacement : Option String
  deriving Repr, DecidableEq

/-- What a regular expression does to a text: find its first match, or replace it. -/
structure Matcher where
  find : String → Option String
  replaceFirst : (replacement text : String) → String

/-- Makes a matcher of the text of a regular expression, if it is one. -/
abbrev MatcherSource := String → Option Matcher

/-- Matchers for the patterns of this library. -/
def patterns : MatcherSource := fun text =>
  (Pattern.compile? text).map fun program =>
    { find := fun text => (program.findText text.toList).map String.ofList
      replaceFirst := fun replacement text =>
        String.ofList (program.replaceFirst replacement.toList text.toList) }

inductive SelectionError
  | filter (e : FilterError)
  | regex (pattern : String)
  deriving Repr, DecidableEq

def SelectionError.message : SelectionError → String
  | .filter e => e.message
  | .regex pattern => "invalid filter regex '" ++ pattern ++ "'"

/-- A filter with the transformation of its values, if there is one. -/
structure Rule where
  expression : Expression
  transform : Option (String → Option String)

structure Selection where
  text : String
  rule : Except SelectionError Rule

namespace Selection

/-- With a replacement every value is transformed; without one a value that has no match is dropped. -/
def transformation (m : Matcher) : (replacement : Option String) → String → Option String
  | some replacement, value => some (m.replaceFirst replacement value)
  | none, value => m.find value

def ofText (source : MatcherSource) (text : String) (options : Option FilterOptions) : Selection where
  text := text
  rule := do
    let expression ← (Expression.parse text.toList).mapError .filter
    match options.bind FilterOptions.regex with
    | none => return ⟨expression, none⟩
    | some pattern =>
      match source pattern with
      | none => throw (.regex pattern)
      | some m => return ⟨expression, some (transformation m (options.bind FilterOptions.replacement))⟩

def error? (s : Selection) : Option SelectionError :=
  match s.rule with
  | .error e => some e
  | .ok _ => none

def expression? (s : Selection) : Option Expression := s.rule.toOption.map Rule.expression

variable {m : Type → Type} [Monad m]

/-- Whether a test with the given properties is selected. -/
def selects (s : Selection) (lookup : String → m (Option PropertyValue)) : m Bool :=
  match s.rule with
  | .error _ => pure false
  | .ok ⟨expression, none⟩ => expression.evaluate lookup
  | .ok ⟨expression, some transform⟩ => expression.evaluateTransformed transform lookup

/-- The properties that cannot be filtered by; `none` if the text is no filter. -/
def invalidProperties (s : Selection) (supported : List String)
    (resolve : Option (String → m (Option PropertyKind))) : m (Option (List String)) :=
  s.expression?.mapM (·.invalidProperties supported resolve)

end Selection
end Proctor.Filter
