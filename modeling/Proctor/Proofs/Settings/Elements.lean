import Proctor.Proofs.Markup.Tree
import Proctor.Proofs.Settings.Inspection

/-! # The elements that an inspection has seen

Each element of a document stands at a path. An inspection has seen the elements that it looks for
exactly if the document has an element at their path, and a document that it accepts has one root. -/

namespace Proctor.Settings
open Proctor.Markup

/-! ### The paths of elements -/

/-- The path of the element that begins with an event. -/
def begun (path : Path) : Event → List Path
  | .start content | .empty content => [tagName content :: path]
  | .close _ | .text _ | .comment _ | .cdata _ | .instruction _ | .doctype _ => []

/-- The paths of the elements that begin, in the order of the document. -/
def elementPaths : Path → List Event → List Path
  | _, [] => []
  | path, e :: events => begun path e ++ elementPaths (follow path e) events

section
variable {path : Path} {e : Event} {events : List Event}

@[simp] theorem elementPaths_nil : elementPaths path [] = [] := rfl

@[simp] theorem elementPaths_cons :
    elementPaths path (e :: events) = begun path e ++ elementPaths (follow path e) events := rfl

@[simp] theorem elementPaths_append (a b : List Event) :
    elementPaths path (a ++ b) = elementPaths path a ++ elementPaths (a.foldl follow path) b := by
  induction a generalizing path with
  | nil => rfl
  | cons e a ih => simp [ih]

theorem begun_of_plain (plain : e.isTag = false) : begun path e = [] := by
  cases e with
  | start _ | empty _ | close _ => cases plain
  | text _ | comment _ | cdata _ | instruction _ | doctype _ => rfl

theorem follow_of_plain (plain : e.isTag = false) : follow path e = path := by
  cases e with
  | start _ | empty _ | close _ => cases plain
  | text _ | comment _ | cdata _ | instruction _ | doctype _ => rfl

end

/-! ### What an inspection has seen -/

/-- The elements whose presence an inspection notes. -/
inductive Landmark
  | root
  | configuration
  | designMode
  | collectSource

namespace Landmark

def path : Landmark → Path
  | root => rootPath
  | configuration => configurationPath
  | designMode => designModeName.toList :: configurationPath
  | collectSource => collectSourceName.toList :: configurationPath

def seen (i : Inspection) : Landmark → Prop
  | root => i.hasRoot
  | configuration => i.hasRunConfiguration
  | designMode => i.designMode.isSome
  | collectSource => i.collectSource.isSome

variable (l : Landmark)

theorem path_ne_nil : l.path ≠ [] := by cases l <;> exact List.cons_ne_nil _ _

theorem seen_path {i : Inspection} (p : Path) : l.seen { i with path := p } ↔ l.seen i := by
  cases l <;> rfl

end Landmark

namespace Inspection
variable {i j : Inspection} {name content : List Char} {events : List Event} (l : Landmark)

/-- An element that begins is seen if its path is that of a landmark. -/
theorem Enters.seen_iff (h : i.Enters name j) :
    l.seen j ↔ l.seen i ∨ l.path = name :: i.path := by
  cases h with
  | root hpath hroot hname =>
    rw [hpath, hname]
    cases l <;> simp [Landmark.seen, Landmark.path, rootPath, configurationPath]
  | configuration hpath hname =>
    rw [hpath, hname]
    cases l <;> simp [Landmark.seen, Landmark.path, rootPath, configurationPath]
  | designMode hpath hname =>
    have hother : collectSourceName.toList ≠ designModeName.toList := by decide
    rw [hpath, hname]
    cases l <;> simp [Landmark.seen, Landmark.path, rootPath, configurationPath, hother]
  | collectSource hpath hname =>
    have hother : designModeName.toList ≠ collectSourceName.toList := by decide
    rw [hpath, hname]
    cases l <;> simp [Landmark.seen, Landmark.path, rootPath, configurationPath, hother]
  | other hpath hconf hdesign hcollect =>
    refine ⟨.inl, fun h => h.resolve_right ?_⟩
    intro he
    cases l with
    | root => exact hpath (List.cons.inj he).2.symm
    | configuration => exact hconf ⟨(List.cons.inj he).2.symm, (List.cons.inj he).1.symm⟩
    | designMode => exact hdesign ⟨(List.cons.inj he).2.symm, (List.cons.inj he).1.symm⟩
    | collectSource => exact hcollect ⟨(List.cons.inj he).2.symm, (List.cons.inj he).1.symm⟩

/-- Text is heard inside an element that was seen when it began. -/
theorem Hears.seen_iff (h : i.Hears content j) (hi : i.path = l.path → l.seen i) :
    l.seen j ↔ l.seen i := by
  cases h with
  | batchSize _ | other _ _ _ => cases l <;> rfl
  | designMode hpath =>
    cases l with
    | designMode => exact ⟨fun _ => hi hpath, fun _ => rfl⟩
    | root | configuration | collectSource => rfl
  | collectSource hpath =>
    cases l with
    | collectSource => exact ⟨fun _ => hi hpath, fun _ => rfl⟩
    | root | configuration | designMode => rfl

/-- A landmark inside which the inspection is was seen. -/
def Aware (i : Inspection) : Prop := ∀ l : Landmark, l.path <:+ i.path → l.seen i

theorem aware_start : Aware {} := by
  intro l hl
  exact absurd (List.suffix_nil.1 hl) l.path_ne_nil

/-- One event shows the element that begins with it, and no other. -/
theorem Aware.step {e : Event} (hi : i.Aware) (h : i.step e = .ok j) :
    j.Aware ∧ ∀ l : Landmark, l.seen j ↔ l.seen i ∨ l.path ∈ begun i.path e := by
  cases e with
  | start content =>
    obtain ⟨k, hk, h⟩ := bind_eq_ok.1 h
    obtain rfl := pure_eq_ok.1 h
    have henter := enter_eq_ok.1 hk
    have hseen (l : Landmark) := henter.seen_iff l
    rw [henter.path_eq]
    refine ⟨fun l hl => ?_, fun l => ?_⟩
    · rw [l.seen_path, hseen l]
      rcases List.suffix_cons_iff.1 hl with he | hl
      · exact .inr he
      · exact .inl (hi l hl)
    · rw [l.seen_path, hseen l, begun, List.mem_singleton]
  | empty content =>
    have henter := enter_eq_ok.1 h
    refine ⟨fun l hl => (henter.seen_iff l).2 (.inl (hi l (henter.path_eq ▸ hl))), fun l => ?_⟩
    rw [henter.seen_iff l, begun, List.mem_singleton]
  | text content =>
    have hears := addText_eq.1 (Except.ok.inj h)
    have hseen (l : Landmark) := hears.seen_iff l fun he => hi l (he ▸ List.suffix_rfl)
    refine ⟨fun l hl => (hseen l).2 (hi l (hears.path_eq ▸ hl)), fun l => ?_⟩
    simp [hseen l, begun]
  | close name =>
    obtain rfl : { i with path := i.path.tail } = j := Except.ok.inj h
    refine ⟨fun l hl => (l.seen_path _).2 (hi l (hl.trans (List.tail_suffix _))), fun l => ?_⟩
    simp [l.seen_path, begun]
  | comment _ | cdata _ | instruction _ | doctype _ =>
    obtain rfl : i = j := Except.ok.inj h
    exact ⟨hi, fun l => by simp [begun]⟩

theorem Aware.foldlM (hi : i.Aware) (h : events.foldlM Inspection.step i = .ok j) :
    j.Aware ∧ ∀ l : Landmark, l.seen j ↔ l.seen i ∨ l.path ∈ elementPaths i.path events := by
  induction events generalizing i with
  | nil =>
    obtain rfl := pure_eq_ok.1 h
    exact ⟨hi, fun l => by simp⟩
  | cons e events ih =>
    obtain ⟨k, hk, h⟩ := foldlM_cons_eq_ok.1 h
    obtain ⟨hk', hseen⟩ := hi.step hk
    obtain ⟨hj, hseen'⟩ := ih hk' h
    refine ⟨hj, fun l => ?_⟩
    rw [hseen' l, hseen l, path_of_step hk, elementPaths_cons, List.mem_append, or_assoc]

/-- At the end of a document, the landmarks that it has were seen. -/
theorem seen_iff_of_foldlM (h : events.foldlM Inspection.step {} = .ok i) :
    l.seen i ↔ l.path ∈ elementPaths [] events := by
  have hnot : ¬ l.seen {} := by cases l <;> nofun
  rw [(aware_start.foldlM h).2 l, or_iff_right hnot]

end Inspection

/-! ### The paths in a tree -/

mutual

/-- Behind a tree, no further element is open. -/
theorem foldl_follow_events : ∀ (node : Node) (path : Path), node.events.foldl follow path = path
  | .element content children, path => by
    simp [follow, foldl_follow_eventsOf children]
  | .empty content, path => by simp [follow]
  | .leaf e plain, path => by simpa using follow_of_plain plain

theorem foldl_follow_eventsOf : ∀ (nodes : List Node) (path : Path),
    (eventsOf nodes).foldl follow path = path
  | [], path => by simp
  | node :: nodes, path => by
    simp [foldl_follow_events node, foldl_follow_eventsOf nodes]

end

variable {node : Node} {nodes : List Node} {p q : Path} {events : List Event}

theorem mem_elementPaths_events :
    q ∈ elementPaths p node.events ↔
      ∃ name, node.name? = some name ∧
        (q = name :: p ∨ q ∈ elementPaths (name :: p) (eventsOf node.children)) := by
  cases node with
  | element content children =>
    simp [Node.name?, Node.children, begun, follow]
  | empty content => simp [Node.name?, Node.children, begun]
  | leaf e plain => simp [Node.name?, begun_of_plain plain]

theorem mem_elementPaths_eventsOf :
    q ∈ elementPaths p (eventsOf nodes) ↔ ∃ node ∈ nodes, q ∈ elementPaths p node.events := by
  induction nodes with
  | nil => simp
  | cons node nodes ih => simp [foldl_follow_events, ih]

mutual

/-- Whatever begins in a tree begins inside the elements that are open. -/
theorem suffix_of_mem_events : ∀ {node : Node} {p q : Path}, q ∈ elementPaths p node.events →
    ∃ name, name :: p <:+ q
  | .element content children, p, q, h => by
    obtain ⟨name, -, rfl | h⟩ := mem_elementPaths_events.1 h
    · exact ⟨name, List.suffix_rfl⟩
    · obtain ⟨name', hs⟩ := suffix_of_mem_eventsOf h
      exact ⟨name, (List.suffix_cons ..).trans hs⟩
  | .empty content, p, q, h => by
    obtain rfl : q = tagName content :: p := by simpa [begun] using h
    exact ⟨_, List.suffix_rfl⟩
  | .leaf e plain, p, q, h => by
    simp [begun_of_plain plain] at h

theorem suffix_of_mem_eventsOf : ∀ {nodes : List Node} {p q : Path},
    q ∈ elementPaths p (eventsOf nodes) → ∃ name, name :: p <:+ q
  | [], p, q, h => by simp at h
  | node :: nodes, p, q, h => by
    rw [eventsOf_cons, elementPaths_append, List.mem_append, foldl_follow_events] at h
    exact h.elim suffix_of_mem_events suffix_of_mem_eventsOf

end

/-- The elements right inside the ones that are open. -/
theorem cons_mem_elementPaths {a : List Char} :
    a :: p ∈ elementPaths p (eventsOf nodes) ↔ ∃ node ∈ nodes, node.name? = some a := by
  rw [mem_elementPaths_eventsOf]
  refine exists_congr fun node => and_congr_right fun _ => ?_
  rw [mem_elementPaths_events]
  constructor
  · rintro ⟨name, hname, he | h⟩
    · rw [hname, (List.cons.inj he).1]
    · obtain ⟨_, hs⟩ := suffix_of_mem_eventsOf h
      have hlength := hs.length_le
      simp only [List.length_cons] at hlength
      omega
  · intro hname
    exact ⟨a, hname, .inl rfl⟩

/-- The elements inside those. -/
theorem cons_cons_mem_elementPaths {a b : List Char} :
    b :: a :: p ∈ elementPaths p (eventsOf nodes) ↔
      ∃ node ∈ nodes, node.name? = some a ∧ node.childrenNamed b ≠ [] := by
  rw [mem_elementPaths_eventsOf]
  refine exists_congr fun node => and_congr_right fun _ => ?_
  have hchildren : node.childrenNamed b ≠ [] ↔
      b :: a :: p ∈ elementPaths (a :: p) (eventsOf node.children) := by
    rw [cons_mem_elementPaths, Node.childrenNamed, Ne, List.filter_eq_nil_iff]
    simp
  rw [mem_elementPaths_events, hchildren]
  constructor
  · rintro ⟨name, hname, he | h⟩
    · have hlength := congrArg List.length he
      simp at hlength
    · obtain ⟨_, hs⟩ := suffix_of_mem_eventsOf h
      have he := hs.eq_of_length rfl
      obtain ⟨-, rfl, -⟩ : _ ∧ name = a ∧ p = p := by simpa using he
      exact ⟨hname, h⟩
  · rintro ⟨hname, h⟩
    exact ⟨a, hname, .inr h⟩

/-! ### The root of a document -/

/-- A document with one element outside of all others, the root. -/
structure Rooted (events : List Event) (front : List Node) (root : Node) (back : List Node) :
    Prop where
  events_eq : events = eventsOf (front ++ root :: back)
  name : root.name? = some rootName
  front : ∀ node ∈ front, node.name? = none
  back : ∀ node ∈ back, node.name? = none

/-- All that stands in a document stands in the root. -/
theorem Rooted.mem_elementPaths {front back : List Node} {root : Node}
    (h : Rooted events front root back) :
    q ∈ elementPaths [] events ↔
      q = rootPath ∨ q ∈ elementPaths rootPath (eventsOf root.children) := by
  rw [h.events_eq, mem_elementPaths_eventsOf]
  constructor
  · rintro ⟨node, hnode, hq⟩
    obtain ⟨name, hname, hq⟩ := mem_elementPaths_events.1 hq
    have hroot : node = root := by
      rcases List.mem_append.1 hnode with hnode | hnode
      · simp [h.front node hnode] at hname
      · rcases List.mem_cons.1 hnode with rfl | hnode
        · rfl
        · simp [h.back node hnode] at hname
    subst hroot
    obtain rfl : name = rootName := by simpa [hname] using h.name
    exact hq
  · intro hq
    exact ⟨root, by simp, mem_elementPaths_events.2 ⟨rootName, h.name, hq⟩⟩

/-- At the top of a document that is accepted there is a root, and no second element. -/
theorem Inspection.names_of_foldlM {i j : Inspection} (hi : i.Aware) (hpath : i.path = [])
    (h : (eventsOf nodes).foldlM step i = .ok j) (hroot : j.hasRoot) :
    nodes.filterMap Node.name? = if i.hasRoot then [] else [rootName] := by
  induction nodes generalizing i with
  | nil =>
    obtain rfl : i = j := pure_eq_ok.1 (by simpa using h)
    simp [hroot]
  | cons node nodes ih =>
    rw [eventsOf_cons] at h
    obtain ⟨k, hk, h⟩ := foldlM_append_eq_ok.1 h
    obtain ⟨hk', hseen⟩ := hi.foldlM hk
    have hkpath : k.path = [] := by rw [path_of_foldlM hk, foldl_follow_events, hpath]
    have ih := ih hk' hkpath h
    have hkroot : k.hasRoot ↔ i.hasRoot ∨ rootPath ∈ elementPaths i.path node.events :=
      hseen .root
    cases hname : node.name? with
    | none =>
      have hnot : rootPath ∉ elementPaths i.path node.events := by
        rw [mem_elementPaths_events, hname]
        rintro ⟨name, he, -⟩
        cases he
      rw [List.filterMap_cons_none hname, ih, Bool.eq_iff_iff.2 (hkroot.trans (or_iff_left hnot))]
    | some name =>
      -- the element begins with an event that only a first root can begin with
      obtain ⟨hfirst, rfl⟩ : i.hasRoot = false ∧ name = rootName := by
        cases node with
        | element content children =>
          rw [events_element] at hk
          obtain ⟨m, hm, -⟩ := foldlM_cons_eq_ok.1 hk
          obtain ⟨m', hm', -⟩ := bind_eq_ok.1 hm
          obtain ⟨hfirst, heq, -⟩ := (enter_eq_ok.1 hm').of_path_eq_nil hpath
          exact ⟨hfirst, (Option.some.inj hname).symm.trans heq⟩
        | empty content =>
          rw [events_empty] at hk
          obtain ⟨m, hm, -⟩ := foldlM_cons_eq_ok.1 hk
          obtain ⟨hfirst, heq, -⟩ := (enter_eq_ok.1 hm).of_path_eq_nil hpath
          exact ⟨hfirst, (Option.some.inj hname).symm.trans heq⟩
        | leaf e plain => cases hname
      have hmem : rootPath ∈ elementPaths i.path node.events :=
        mem_elementPaths_events.2 ⟨rootName, hname, .inl (by rw [hpath]; rfl)⟩
      rw [List.filterMap_cons_some hname, ih, if_pos (hkroot.2 (.inr hmem)), hfirst]
      rfl

theorem exists_rooted {i : Inspection} (hlegible : Legible [] events [])
    (h : events.foldlM Inspection.step {} = .ok i) (hroot : i.hasRoot) :
    ∃ front root back, Rooted events front root back := by
  obtain ⟨nodes, rfl⟩ := hlegible.exists_nodes
  have hnames : nodes.filterMap Node.name? = [rootName] :=
    Inspection.names_of_foldlM Inspection.aware_start rfl h hroot
  obtain ⟨front, root, back, rfl, hfront, hname, hback⟩ := List.filterMap_eq_cons_iff.1 hnames
  exact ⟨front, root, back, rfl, hname, hfront, by simpa using hback⟩

end Proctor.Settings
