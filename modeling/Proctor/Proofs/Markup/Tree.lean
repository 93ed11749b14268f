import Proctor.Proofs.Markup.Legible

/-! # Documents as trees

A document in which every element is closed is a sequence of trees: elements with what stands in
them, tags that close themselves, and whatever else stands between tags. Its events tell these trees
apart. -/

namespace Proctor.Markup

/-- Tags open elements and close them. -/
def Event.isTag : Event → Bool
  | start _ | empty _ | close _ => true
  | text _ | comment _ | cdata _ | instruction _ | doctype _ => false

inductive Node
  /-- What stands in the start tag, and what stands in the element. -/
  | element (content : List Char) (children : List Node)
  /-- A tag that closes itself. -/
  | empty (content : List Char)
  /-- An event outside of tags. -/
  | leaf (e : Event) (plain : e.isTag = false)

mutual

def Node.events : Node → List Event
  | .element content children =>
    .start content :: (eventsOf children ++ [.close (tagName content)])
  | .empty content => [.empty content]
  | .leaf e _ => [e]

def eventsOf : List Node → List Event
  | [] => []
  | node :: nodes => node.events ++ eventsOf nodes

end

namespace Node

/-- The name of an element. -/
def name? : Node → Option (List Char)
  | element content _ | empty content => some (tagName content)
  | leaf _ _ => none

/-- What stands in an element, in the order of the document. -/
def children : Node → List Node
  | element _ children => children
  | empty _ | leaf _ _ => []

/-- The elements of this name that stand right in an element. -/
def childrenNamed (name : List Char) (node : Node) : List Node :=
  node.children.filter fun child => child.name? = some name

/-- An element with more at its end. A tag that closed itself is closed behind it. -/
def receive (more : List Node) : Node → Node
  | element content children => element content (children ++ more)
  | empty content => element content more
  | leaf e plain => leaf e plain

/-- An element with each of its children changed. -/
def mapChildren (f : Node → Node) : Node → Node
  | element content children => element content (children.map f)
  | empty content => empty content
  | leaf e plain => leaf e plain

end Node

section
variable {content : List Char} {children nodes : List Node} {node : Node}

@[simp] theorem events_element :
    (Node.element content children).events =
      .start content :: (eventsOf children ++ [.close (tagName content)]) := by
  rw [Node.events]

@[simp] theorem events_empty : (Node.empty content).events = [.empty content] := by
  rw [Node.events]

@[simp] theorem events_leaf {e : Event} (plain : e.isTag = false) :
    (Node.leaf e plain).events = [e] := by
  rw [Node.events]

@[simp] theorem eventsOf_nil : eventsOf [] = [] := by rw [eventsOf]

@[simp] theorem eventsOf_cons : eventsOf (node :: nodes) = node.events ++ eventsOf nodes := by
  rw [eventsOf]

@[simp] theorem eventsOf_append (a b : List Node) :
    eventsOf (a ++ b) = eventsOf a ++ eventsOf b := by
  induction a with
  | nil => simp
  | cons node a ih => simp [ih]

end

theorem eventsOf_eq_nil_iff {nodes : List Node} : eventsOf nodes = [] ↔ nodes = [] := by
  cases nodes with
  | nil => simp
  | cons node nodes => cases node <;> simp

/-- What has no name is no tag. -/
theorem not_isTag_of_name?_eq_none {nodes : List Node} (h : ∀ node ∈ nodes, node.name? = none) :
    ∀ e ∈ eventsOf nodes, ¬ e.isTag := by
  induction nodes with
  | nil => simp
  | cons node nodes ih =>
    obtain ⟨hnode, hnodes⟩ := List.forall_mem_cons.1 h
    cases node with
    | element content children => cases hnode
    | empty content => cases hnode
    | leaf e plain =>
      rw [eventsOf_cons, events_leaf, List.singleton_append, List.forall_mem_cons]
      exact ⟨by simp [plain], ih hnodes⟩

/-! ### The events tell the trees apart -/

theorem leaf_append_ne {e tag : Event} (plain : e.isTag = false) (htag : tag.isTag)
    (rest rest' : List Event) : (Node.leaf e plain).events ++ rest ≠ tag :: rest' := by
  rw [events_leaf]
  intro h
  obtain rfl : e = tag := (List.cons.inj h).1
  simp [plain] at htag

/-- No tree begins with an end tag. -/
theorem events_append_ne_close (node : Node) (rest rest' : List Event) (name : List Char) :
    node.events ++ rest ≠ .close name :: rest' := by
  cases node with
  | element content children => simp
  | empty content => simp
  | leaf e plain => exact leaf_append_ne plain rfl rest rest'

mutual

/-- The first tree of a document is the only one that the document can begin with. -/
theorem eq_of_events_append : ∀ {node node' : Node} {rest rest' : List Event},
    node.events ++ rest = node'.events ++ rest' → node = node' ∧ rest = rest'
  | .element content children, node', rest, rest', h => by
    rw [events_element] at h
    cases node' with
    | element content' children' =>
      simp only [events_element, List.cons_append, List.append_assoc, List.cons.injEq,
        Event.start.injEq, List.nil_append] at h
      obtain ⟨rfl, h⟩ := h
      obtain ⟨rfl, rfl⟩ := eq_of_eventsOf_append h
      exact ⟨rfl, rfl⟩
    | empty content' => simp at h
    | leaf e plain => exact absurd h.symm (leaf_append_ne plain rfl _ _)
  | .empty content, node', rest, rest', h => by
    rw [events_empty] at h
    cases node' with
    | element content' children' => simp at h
    | empty content' => simpa using h
    | leaf e plain => exact absurd h.symm (leaf_append_ne plain rfl _ _)
  | .leaf e plain, node', rest, rest', h => by
    cases node' with
    | element content' children' =>
      rw [events_element] at h
      exact absurd h (leaf_append_ne plain rfl _ _)
    | empty content' =>
      rw [events_empty] at h
      exact absurd h (leaf_append_ne plain rfl _ _)
    | leaf e' plain' => simpa using h

/-- What stands in an element is told apart up to the end tag. -/
theorem eq_of_eventsOf_append : ∀ {nodes nodes' : List Node} {name name' : List Char}
    {rest rest' : List Event},
    eventsOf nodes ++ .close name :: rest = eventsOf nodes' ++ .close name' :: rest' →
      nodes = nodes' ∧ rest = rest'
  | [], nodes', name, name', rest, rest', h => by
    cases nodes' with
    | nil => simpa using (List.cons.inj h).2
    | cons node' nodes' =>
      rw [eventsOf_nil, eventsOf_cons, List.append_assoc] at h
      exact absurd h.symm (events_append_ne_close node' _ _ name)
  | node :: nodes, nodes', name, name', rest, rest', h => by
    cases nodes' with
    | nil =>
      rw [eventsOf_nil, eventsOf_cons, List.append_assoc] at h
      exact absurd h (events_append_ne_close node _ _ name')
    | cons node' nodes' =>
      rw [eventsOf_cons, eventsOf_cons, List.append_assoc, List.append_assoc] at h
      obtain ⟨rfl, hnodes⟩ := eq_of_events_append h
      obtain ⟨rfl, rfl⟩ := eq_of_eventsOf_append hnodes
      exact ⟨rfl, rfl⟩

end

/-! ### Every document is one of trees -/

/-- Trees, and between them the end tags of the elements that are open. -/
inductive Grown : Opened → List Event → Prop
  | outside (nodes : List Node) : Grown [] (eventsOf nodes)
  | inside (nodes : List Node) (name : List Char) {opened : Opened} {rest : List Event}
      (h : Grown opened rest) : Grown (name :: opened) (eventsOf nodes ++ .close name :: rest)

theorem Grown.cons {opened : Opened} {events : List Event} (node : Node)
    (h : Grown opened events) : Grown opened (node.events ++ events) := by
  cases h with
  | outside nodes =>
    rw [← eventsOf_cons]
    exact .outside _
  | inside nodes name h =>
    rw [← List.append_assoc, ← eventsOf_cons]
    exact .inside _ name h

theorem Grown.leaf {opened : Opened} {events : List Event} {e : Event} (h : Grown opened events)
    (plain : e.isTag = false) : Grown opened (e :: events) := by
  have hcons := h.cons (.leaf e plain)
  rwa [events_leaf] at hcons

/-- If all elements are closed in the end, the start tags find their end tags. -/
theorem Legible.grown {opened opened' : Opened} {events : List Event}
    (h : Legible opened events opened') (hclosed : opened' = []) : Grown opened events := by
  induction h with
  | nil opened =>
    subst hclosed
    exact .outside []
  | @cons opened opened₁ opened' e events first rest hsep ih =>
    have ih := ih hclosed
    cases first with
    | @start _ content _ _ _ =>
      -- the element takes in all that stands in front of its end tag
      generalize hs : tagName content :: opened = stack at ih
      cases ih with
      | outside nodes => cases hs
      | inside nodes name h =>
        obtain ⟨rfl, rfl⟩ := List.cons.inj hs
        simpa using h.cons (.element content nodes)
    | @empty _ content _ _ => simpa using ih.cons (.empty content)
    | @close _ name _ _ => exact .inside [] name ih
    | text _ _ | comment _ | cdata _ | instruction _ _ | doctype _ _ _ => exact ih.leaf rfl

theorem Legible.exists_nodes {events : List Event} (h : Legible [] events []) :
    ∃ nodes, events = eventsOf nodes := by
  generalize hstack : ([] : Opened) = stack at h
  cases h.grown hstack.symm with
  | outside nodes => exact ⟨nodes, rfl⟩
  | inside nodes name h => cases hstack

/-! ### Reading from the first tag on -/

/-- What was read from the first tag on. -/
def Reading.fromFirstTag (r : Reading) : Reading :=
  { r with events := r.events.dropWhile fun e => !e.isTag }

theorem fromFirstTag_read (s : List Char) :
    (read s).fromFirstTag = (readFrom [] s).fromFirstTag :=
  apply_read (fun _ _ => rfl) s

/-- In front of the first element there is no tag. -/
theorem dropWhile_isTag {front rest : List Event} {node : Node} (hnode : node.name?.isSome)
    (hfront : ∀ e ∈ front, ¬ e.isTag) :
    (front ++ (node.events ++ rest)).dropWhile (fun e => !e.isTag) = node.events ++ rest := by
  rw [List.dropWhile_append_of_pos (by simpa using hfront)]
  cases node with
  | element content children => simp [Event.isTag]
  | empty content => simp [Event.isTag]
  | leaf e plain => cases hnode

end Proctor.Markup
