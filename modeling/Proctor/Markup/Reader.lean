import Proctor.Markup.Event
import Proctor.Text.Search

/-! # Reading markup

The reader is lenient: it looks for the end of each piece of markup, checks that end tags match the
open elements, and leaves attributes and entities alone. It stops at the first error. -/

namespace Proctor.Markup
open Proctor.Text

inductive MarkupError
  | unknownMarkup
  | unclosedInstruction
  | unclosedComment
  | unclosedDoctype
  | unclosedCdata
  | unclosedTag
  | unmatchedEnd (name : String)
  | mismatchedEnd (expected found : String)
  | namelessDoctype
  deriving Repr, DecidableEq

def MarkupError.message : MarkupError → String
  | unknownMarkup => "syntax error: unknown or missed symbol in markup"
  | unclosedInstruction => "syntax error: processing instruction or xml declaration not closed: \x60?>\x60 not found before end of input"
  | unclosedComment => "syntax error: comment not closed: \x60-->\x60 not found before end of input"
  | unclosedDoctype => "syntax error: DOCTYPE not closed: \x60>\x60 not found before end of input"
  | unclosedCdata => "syntax error: CDATA not closed: \x60]]>\x60 not found before end of input"
  | unclosedTag => "syntax error: tag not closed: \x60>\x60 not found before end of input"
  | unmatchedEnd name =>
    "ill-formed document: close tag \x60</" ++ name ++ ">\x60 does not match any open tag"
  | mismatchedEnd expected found =>
    "ill-formed document: expected \x60</" ++ expected ++ ">\x60, but \x60</" ++ found ++ ">\x60 was found"
  | namelessDoctype =>
    "ill-formed document: \x60<!DOCTYPE>\x60 declaration does not contain a name of a document type"

/-- A tag up to the `>` that ends it, and what follows. Between quotes a `>` ends nothing. -/
def tagEnd : (quote : Option Char) → List Char → Option (List Char × List Char)
  | _, [] => none
  | none, '>' :: rest => some ([], rest)
  | none, c :: rest =>
    (tagEnd (if c = '"' || c = '\'' then some c else none) rest).map
      fun (content, rest) => (c :: content, rest)
  | some q, c :: rest =>
    (tagEnd (if c = q then none else some q) rest).map fun (content, rest) => (c :: content, rest)

theorem eq_append_of_tagEnd {quote : Option Char} {s content rest : List Char}
    (h : tagEnd quote s = some (content, rest)) : s = content ++ '>' :: rest := by
  fun_induction tagEnd quote s generalizing content with
  | case1 => simp at h
  | case2 => simp_all
  | case3 c r _ ih =>
    obtain ⟨⟨a, b⟩, ha, he⟩ := Option.map_eq_some_iff.1 h
    simp only [Prod.mk.injEq] at he
    obtain ⟨rfl, rfl⟩ := he
    simp [ih ha]
  | case4 q c r ih =>
    obtain ⟨⟨a, b⟩, ha, he⟩ := Option.map_eq_some_iff.1 h
    simp only [Prod.mk.injEq] at he
    obtain ⟨rfl, rfl⟩ := he
    simp [ih ha]

/-- A document type up to the `>` that balances its angle brackets, and what follows. -/
def balancedEnd : (depth : Nat) → List Char → Option (List Char × List Char)
  | _, [] => none
  | depth, c :: rest =>
    if c = '>' && depth = 0 then some ([], rest)
    else
      let depth := if c = '<' then depth + 1 else if c = '>' then depth - 1 else depth
      (balancedEnd depth rest).map fun (content, rest) => (c :: content, rest)

theorem eq_append_of_balancedEnd {depth : Nat} {s content rest : List Char}
    (h : balancedEnd depth s = some (content, rest)) : s = content ++ '>' :: rest := by
  induction s generalizing depth content with
  | nil => simp [balancedEnd] at h
  | cons c r ih =>
    simp only [balancedEnd] at h
    split at h
    · simp_all
    · obtain ⟨⟨a, b⟩, ha, he⟩ := Option.map_eq_some_iff.1 h
      simp only [Prod.mk.injEq] at he
      obtain ⟨rfl, rfl⟩ := he
      simp [ih ha]

/-- The names of the open elements, the innermost first. -/
abbrev Opened := List (List Char)

/-- One event, the elements open after it, and the text behind it. -/
structure Item where
  event : Event
  opened : Opened
  rest : List Char
  deriving Repr

/-- What follows `<!`. -/
def declaration (opened : Opened) (s : List Char) : Except MarkupError Item :=
  match s with
  | '-' :: _ =>
    match (dropPrefix? ['-', '-'] s).bind (splitAt? "-->".toList) with
    | some (content, rest) => .ok ⟨.comment content, opened, rest⟩
    | none => .error .unclosedComment
  | '[' :: _ =>
    match (dropPrefix? "[CDATA[".toList s).bind (splitAt? "]]>".toList) with
    | some (content, rest) => .ok ⟨.cdata content, opened, rest⟩
    | none => .error .unclosedCdata
  | c :: _ =>
    if c = 'D' || c = 'd' then
      match balancedEnd 0 s with
      | some (content, rest) =>
        if (content.take 7).map Char.toLower = "doctype".toList then
          let name := (content.drop 7).dropWhile isBlank
          if name.isEmpty then .error .namelessDoctype else .ok ⟨.doctype name, opened, rest⟩
        else .error .unclosedDoctype
      | none => .error .unclosedDoctype
    else .error .unknownMarkup
  | [] => .error .unknownMarkup

/-- What follows `<?`. -/
def instruction (opened : Opened) (s : List Char) : Except MarkupError Item :=
  match s with
  | '>' :: _ => .error .unclosedInstruction
  | _ =>
    match splitAt? ['?', '>'] s with
    | some (content, rest) => .ok ⟨.instruction content, opened, rest⟩
    | none => .error .unclosedInstruction

/-- The name in an end tag: blanks at its end do not count, unless there is nothing else. -/
def endName (content : List Char) : List Char :=
  match content.reverse.dropWhile isBlank with
  | [] => content
  | kept => kept.reverse

/-- What follows `</`. -/
def endTag (opened : Opened) (s : List Char) : Except MarkupError Item :=
  match tagEnd none s with
  | none => .error .unclosedTag
  | some (content, rest) =>
    let name := endName content
    match opened with
    | [] => .error (.unmatchedEnd (String.ofList name))
    | expected :: opened =>
      if name = expected then .ok ⟨.close name, opened, rest⟩
      else .error (.mismatchedEnd (String.ofList expected) (String.ofList name))

/-- What follows `<` in front of a name. -/
def startTag (opened : Opened) (s : List Char) : Except MarkupError Item :=
  match tagEnd none s with
  | none => .error .unclosedTag
  | some (content, rest) =>
    if content.getLast? = some '/' then .ok ⟨.empty content.dropLast, opened, rest⟩
    else .ok ⟨.start content, tagName content :: opened, rest⟩

/-- The event at the front of a text that is not empty. Text runs up to the next `<`. -/
def next (opened : Opened) (s : List Char) : Except MarkupError Item :=
  match s with
  | '<' :: '!' :: rest => declaration opened rest
  | '<' :: '?' :: rest => instruction opened rest
  | '<' :: '/' :: rest => endTag opened rest
  | '<' :: rest => startTag opened rest
  | _ => .ok ⟨.text (s.takeWhile (· != '<')), opened, s.dropWhile (· != '<')⟩

theorem length_rest_of_declaration {opened : Opened} {s : List Char} {i : Item}
    (h : declaration opened s = .ok i) : i.rest.length < s.length := by
  unfold declaration at h
  split at h
  · split at h
    · next content rest hs =>
      obtain ⟨t, ht, hs⟩ := Option.bind_eq_some_iff.1 hs
      have := eq_append_of_splitAt? hs
      rw [dropPrefix?_eq_some.1 ht, this]
      cases h
      simp; omega
    · cases h
  · split at h
    · next content rest hs =>
      obtain ⟨t, ht, hs⟩ := Option.bind_eq_some_iff.1 hs
      have := eq_append_of_splitAt? hs
      rw [dropPrefix?_eq_some.1 ht, this]
      cases h
      simp; omega
    · cases h
  · split at h
    · split at h
      · next content rest hs =>
        have := eq_append_of_balancedEnd hs
        split at h
        · dsimp only at h
          split at h
          · cases h
          · cases h
            rw [this]
            simp; omega
        · cases h
      · cases h
    · cases h
  · cases h

theorem length_rest_of_next {opened : Opened} {s : List Char} {i : Item} (hs : s ≠ [])
    (h : next opened s = .ok i) : i.rest.length < s.length := by
  unfold next at h
  split at h
  · have := length_rest_of_declaration h
    simp; omega
  · unfold instruction at h
    split at h
    · cases h
    · split at h
      · next hs =>
        have := eq_append_of_splitAt? hs
        cases h
        simp [this]; omega
      · cases h
  · unfold endTag at h
    split at h
    · cases h
    · next hs =>
      have := eq_append_of_tagEnd hs
      dsimp only at h
      split at h
      · cases h
      · split at h
        · cases h
          simp [this]; omega
        · cases h
  · unfold startTag at h
    split at h
    · cases h
    · next hs =>
      have := eq_append_of_tagEnd hs
      split at h <;> cases h <;> simp [this] <;> omega
  · cases h
    match s, hs with
    | c :: rest, _ =>
      have hc : c ≠ '<' := by
        rintro rfl
        simp_all
      have := (rest.dropWhile_sublist (· != '<')).length_le
      simp [hc]
      omega

/-- The events of a document up to its first error, and that error. -/
structure Reading where
  events : List Event
  error? : Option MarkupError
  deriving Repr, DecidableEq

def readFrom (opened : Opened) (s : List Char) : Reading :=
  if _hs : s = [] then ⟨[], none⟩
  else
    match _h : next opened s with
    | .error e => ⟨[], some e⟩
    | .ok i =>
      let r := readFrom i.opened i.rest
      { r with events := i.event :: r.events }
termination_by s.length
decreasing_by exact length_rest_of_next _hs _h

/-- Reads a document. A byte order mark at its very start is no part of it. -/
def read (s : List Char) : Reading :=
  match s with
  | '\ufeff' :: rest => readFrom [] rest
  | _ => readFrom [] s

end Proctor.Markup
