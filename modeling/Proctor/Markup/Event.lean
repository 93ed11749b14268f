/-! # Markup events

A document is a sequence of events. What stands inside an event is kept as it was written. -/

namespace Proctor.Markup

inductive Event
  /-- A start tag: all that stands between `<` and `>`. -/
  | start (content : List Char)
  /-- A tag that closes itself: all that stands between `<` and `/>`. -/
  | empty (content : List Char)
  | close (name : List Char)
  | text (content : List Char)
  | comment (content : List Char)
  | cdata (content : List Char)
  /-- A processing instruction or a declaration. -/
  | instruction (content : List Char)
  | doctype (content : List Char)
  deriving Repr, DecidableEq

/-- The blanks that end a name. -/
def isBlank (c : Char) : Bool := c == ' ' || c == '\t' || c == '\r' || c == '\n'

/-- The name in a tag: all before the first blank. -/
def tagName (content : List Char) : List Char := content.takeWhile fun c => !isBlank c

def Event.render : Event → List Char
  | start content => '<' :: content ++ ['>']
  | empty content => '<' :: content ++ ['/', '>']
  | close name => '<' :: '/' :: name ++ ['>']
  | text content => content
  | comment content => "<!--".toList ++ content ++ "-->".toList
  | cdata content => "<![CDATA[".toList ++ content ++ "]]>".toList
  | instruction content => '<' :: '?' :: content ++ ['?', '>']
  | doctype content => "<!DOCTYPE ".toList ++ content ++ ['>']

def render (events : List Event) : List Char := events.flatMap Event.render

section
variable (content name : List Char)

@[simp] theorem render_start : (Event.start content).render = '<' :: content ++ ['>'] := rfl

@[simp] theorem render_empty : (Event.empty content).render = '<' :: content ++ ['/', '>'] := rfl

@[simp] theorem render_close : (Event.close name).render = '<' :: '/' :: name ++ ['>'] := rfl

@[simp] theorem render_text : (Event.text content).render = content := rfl

@[simp] theorem render_comment :
    (Event.comment content).render = "<!--".toList ++ content ++ "-->".toList := rfl

@[simp] theorem render_cdata :
    (Event.cdata content).render = "<![CDATA[".toList ++ content ++ "]]>".toList := rfl

@[simp] theorem render_instruction :
    (Event.instruction content).render = '<' :: '?' :: content ++ ['?', '>'] := rfl

@[simp] theorem render_doctype :
    (Event.doctype content).render = "<!DOCTYPE ".toList ++ content ++ ['>'] := rfl

end

@[simp] theorem render_nil : render [] = [] := rfl

@[simp] theorem render_cons (e : Event) (events : List Event) :
    render (e :: events) = e.render ++ render events := rfl

@[simp] theorem render_append (a b : List Event) : render (a ++ b) = render a ++ render b := by
  simp [render]

end Proctor.Markup
