import Proctor.Proofs.Settings.Elements
import Proctor.Proofs.Settings.Merge

/-! # What a merge leaves as it was

In the tree of a document, the missing elements come last in every configuration or, if there is
none, in a configuration of their own that comes last in the root. All else in the document is
written as it was read. -/

namespace Proctor.Settings
open Proctor.Markup

/-- The configurations of a document with this root. -/
def configurations (root : Node) : List Node := root.childrenNamed configurationName

/-- The elements of this name that stand right in a configuration. -/
def settingsNamed (name : List Char) (root : Node) : List Node :=
  (configurations root).flatMap (Node.childrenNamed name)

/-- An element with the flag as its text. -/
def setting (name : List Char) (flag : Bool) : Node :=
  .element name [.leaf (.text (flagText flag)) rfl]

/-- The elements that no configuration has, with the value they are to have. -/
def lacking (root : Node) (flag : Bool) : List Node :=
  [designModeName.toList, collectSourceName.toList].flatMap fun name =>
    if (settingsNamed name root).isEmpty then [setting name flag] else []

/-- A child of the root: the configurations take the missing elements in. -/
def completeChild (missing : List Node) (child : Node) : Node :=
  if child.name? = some configurationName then child.receive missing else child

/-- The root of the document with the missing elements in it. -/
def complete (missing : List Node) (root : Node) : Node :=
  if (configurations root).isEmpty then root.receive [.element configurationName missing]
  else root.mapChildren (completeChild missing)

section
variable {missing : List Node} {H flag : Bool} {path : Path} {node root : Node} {nodes : List Node}
variable {info : Info}

/-! ### Events at each depth -/

theorem injectAll_element {missing : List Event} (content : List Char) (children : List Node) :
    injectAll missing H path (Node.element content children).events =
      .start content :: (injectAll missing H (tagName content :: path) (eventsOf children) ++
        inject missing H (tagName content :: path) (.close (tagName content))) := by
  rw [events_element, injectAll, injectAll_append, follow, foldl_follow_eventsOf]
  simp [injectAll, inject]

/-- A change of each tree is one of the sequence of trees. -/
theorem injectAll_eventsOf {missing : List Event} {f : Node → Node}
    (h : ∀ node ∈ nodes, injectAll missing H path node.events = (f node).events) :
    injectAll missing H path (eventsOf nodes) = eventsOf (nodes.map f) := by
  induction nodes with
  | nil => rfl
  | cons node nodes ih =>
    obtain ⟨hnode, hnodes⟩ := List.forall_mem_cons.1 h
    rw [eventsOf_cons, injectAll_append, foldl_follow_events, hnode, ih hnodes, List.map_cons,
      eventsOf_cons]

/-- Only what leads back to the root or out of it is a place for the missing elements. -/
theorem length_of_receives {e : Event} (h : Receives H path e) : (follow path e).length ≤ 1 := by
  cases e with
  | empty content =>
    rcases h with ⟨rfl, -⟩ | ⟨rfl, -⟩
    · exact Nat.zero_le 1
    · exact Nat.le_refl 1
  | close name =>
    rcases h with rfl | ⟨rfl, -⟩
    · exact Nat.le_refl 1
    · exact Nat.zero_le 1
  | start _ | text _ | comment _ | cdata _ | instruction _ | doctype _ => exact h.elim

theorem inject_of_deep {missing : List Event} {e : Event} (h : 2 ≤ (follow path e).length) :
    inject missing H path e = [e] :=
  inject_of_not_receives fun hr => absurd (length_of_receives hr) (by omega)

theorem inject_of_plain {missing : List Event} {e : Event} (plain : e.isTag = false) :
    inject missing H path e = [e] := by
  cases e with
  | start _ | empty _ | close _ => cases plain
  | text _ | comment _ | cdata _ | instruction _ | doctype _ => rfl

mutual

/-- What stands inside the children of the root is written as it was read. -/
theorem injectAll_events_of_deep {missing : List Event} : ∀ (node : Node) {path : Path},
    2 ≤ path.length → injectAll missing H path node.events = node.events
  | .element content children, path, h => by
    have hinside : 2 ≤ (tagName content :: path).length := h.trans (Nat.le_succ _)
    have hclose : inject missing H (tagName content :: path) (.close (tagName content)) =
        [.close (tagName content)] := inject_of_deep h
    rw [injectAll_element, injectAll_eventsOf_of_deep children hinside, hclose, events_element]
  | .empty content, path, h => by
    simp [injectAll, inject_of_deep (e := .empty content) h]
  | .leaf e plain, path, h => by
    simp [injectAll, inject_of_plain plain]

theorem injectAll_eventsOf_of_deep {missing : List Event} : ∀ (nodes : List Node) {path : Path},
    2 ≤ path.length → injectAll missing H path (eventsOf nodes) = eventsOf nodes
  | [], path, h => by simp [injectAll]
  | node :: nodes, path, h => by
    rw [eventsOf_cons, injectAll_append, foldl_follow_events, injectAll_events_of_deep node h,
      injectAll_eventsOf_of_deep nodes h]

end

theorem completeChild_of_eq (h : node.name? = some configurationName) :
    completeChild missing node = node.receive missing := if_pos h

theorem completeChild_of_ne (h : node.name? ≠ some configurationName) :
    completeChild missing node = node := if_neg h

/-- Of the children of the root, the configurations take the missing elements in. -/
theorem injectAll_child (child : Node) :
    injectAll (eventsOf missing) H rootPath child.events = (completeChild missing child).events := by
  by_cases hchild : child.name? = some configurationName
  · rw [completeChild_of_eq hchild]
    cases child with
    | element content children =>
      have hname : tagName content = configurationName := Option.some.inj hchild
      have hinside : 2 ≤ (tagName content :: rootPath).length := Nat.le_refl 2
      have hconf : tagName content :: rootPath = configurationPath := by
        rw [hname]
        rfl
      rw [injectAll_element, injectAll_eventsOf_of_deep children hinside,
        inject_close_configuration hconf]
      simp [Node.receive]
    | empty content =>
      have hname : tagName content = configurationName := Option.some.inj hchild
      simp [injectAll, inject_configuration, hname, Node.receive]
    | leaf e plain => cases hchild
  · rw [completeChild_of_ne hchild]
    cases child with
    | element content children =>
      have hname : tagName content ≠ configurationName := fun h => hchild (congrArg some h)
      have hinside : 2 ≤ (tagName content :: rootPath).length := Nat.le_refl 2
      have hother : ¬ Receives H (tagName content :: rootPath) (.close (tagName content)) := by
        rintro (h | ⟨h, -⟩)
        · exact hname (List.cons.inj h).1
        · exact absurd (List.cons.inj h).2 (List.cons_ne_nil _ _)
      rw [injectAll_element, injectAll_eventsOf_of_deep children hinside,
        inject_of_not_receives hother, events_element]
    | empty content =>
      have hother : ¬ Receives H rootPath (.empty content) := by
        rintro (⟨h, -⟩ | ⟨-, h⟩)
        · cases h
        · exact hchild (congrArg some h)
      simp [injectAll, inject_of_not_receives hother]
    | leaf e plain => simp [injectAll, inject_of_plain plain]

/-- Without a configuration, the children of the root stay as they are. -/
theorem map_completeChild (h : configurations root = []) :
    root.children.map (completeChild missing) = root.children := by
  have hnone := List.filter_eq_nil_iff.1 h
  have hself : ∀ child ∈ root.children, completeChild missing child = child := fun child hchild =>
    completeChild_of_ne (by simpa using hnone child hchild)
  rw [List.map_congr_left hself, List.map_id']

theorem eventsOf_configuration :
    eventsOf [.element configurationName missing] = withConfiguration (eventsOf missing) := by
  have hname : tagName configurationName = configurationName := by decide
  simp [withConfiguration, hname]

/-- The root takes the missing elements in. -/
theorem injectAll_root (hname : root.name? = some rootName)
    (hH : H ↔ configurations root ≠ []) :
    injectAll (eventsOf missing) H [] root.events = (complete missing root).events := by
  unfold complete
  cases root with
  | element content children =>
    have hname : tagName content = rootName := Option.some.inj hname
    have hpath : [tagName content] = rootPath := congrArg (· :: []) hname
    have hchildren : injectAll (eventsOf missing) H rootPath (eventsOf children) =
        eventsOf (children.map (completeChild missing)) :=
      injectAll_eventsOf fun child _ => injectAll_child child
    rw [injectAll_element, hpath, hchildren]
    split
    · next hempty =>
      have hnone : configurations (.element content children) = [] := List.isEmpty_iff.1 hempty
      have hH : H = false := by simpa [hnone] using hH
      have hself : children.map (completeChild missing) = children := map_completeChild hnone
      rw [inject_close_root ⟨rfl, by simp [hH]⟩, hself, ← eventsOf_configuration, Node.receive]
      simp
    · next hempty =>
      have hH : H = true := hH.2 (by simpa using hempty)
      have hother : ¬ Receives H rootPath (.close (tagName content)) := by
        rintro (h | ⟨-, h⟩)
        · exact absurd h (by decide)
        · simp [hH] at h
      rw [inject_of_not_receives hother, Node.mapChildren, events_element]
  | empty content =>
    have hname : tagName content = rootName := Option.some.inj hname
    have hnone : (configurations (.empty content)).isEmpty := rfl
    rw [if_pos hnone, events_empty, injectAll, injectAll, inject_root rfl hname,
      ← eventsOf_configuration, Node.receive, events_element, hname]
    simp
  | leaf e plain => cases hname

/-- Outside of the root, all stays as it is. -/
theorem injectAll_of_plain {events : List Event} (h : ∀ e ∈ events, ¬ e.isTag)
    (missing : List Event) (H : Bool) (path : Path) :
    injectAll missing H path events = events ∧ events.foldl follow path = path := by
  induction events with
  | nil => exact ⟨rfl, rfl⟩
  | cons e events ih =>
    obtain ⟨he, hevents⟩ := List.forall_mem_cons.1 h
    obtain ⟨hinject, hfollow⟩ := ih hevents
    have plain : e.isTag = false := by simpa using he
    rw [injectAll, List.foldl_cons, follow_of_plain plain, inject_of_plain plain, hinject, hfollow]
    exact ⟨rfl, rfl⟩

theorem complete_name? : (complete missing root).name? = root.name? := by
  unfold complete
  split <;> cases root <;> rfl

/-! ### A whole document -/

section
variable {events : List Event} {front back : List Node}

/-- A merge writes a document with the same nodes around the root. -/
theorem Rooted.injectAll (h : Rooted events front root back) (hH : H ↔ configurations root ≠ []) :
    Rooted (injectAll (eventsOf missing) H [] events) front (complete missing root) back := by
  obtain ⟨hfront, hfollow⟩ :=
    injectAll_of_plain (not_isTag_of_name?_eq_none h.front) (eventsOf missing) H []
  obtain ⟨hback, -⟩ :=
    injectAll_of_plain (not_isTag_of_name?_eq_none h.back) (eventsOf missing) H []
  refine ⟨?_, complete_name?.trans h.name, h.front, h.back⟩
  rw [h.events_eq, eventsOf_append, eventsOf_cons, injectAll_append, hfollow, injectAll_append,
    foldl_follow_events, hfront, injectAll_root h.name hH, hback, eventsOf_append, eventsOf_cons]

theorem Rooted.fromFirstTag (h : Rooted events front root back) (error? : Option MarkupError) :
    (Reading.mk events error?).fromFirstTag = ⟨root.events ++ eventsOf back, error?⟩ := by
  have hroot : root.name?.isSome := by rw [h.name]; rfl
  have hfront := not_isTag_of_name?_eq_none h.front
  rw [Reading.fromFirstTag, h.events_eq, eventsOf_append, eventsOf_cons,
    dropWhile_isTag hroot hfront]

theorem Rooted.configuration_iff (h : Rooted events front root back) :
    configurationPath ∈ elementPaths [] events ↔ configurations root ≠ [] := by
  have hne : configurationPath ≠ rootPath := by decide
  rw [h.mem_elementPaths, or_iff_right hne, configurationPath, ← rootPath, cons_mem_elementPaths,
    configurations, Node.childrenNamed, Ne, List.filter_eq_nil_iff]
  simp

theorem Rooted.setting_iff (h : Rooted events front root back) (name : List Char) :
    name :: configurationPath ∈ elementPaths [] events ↔ settingsNamed name root ≠ [] := by
  have hne : name :: configurationPath ≠ rootPath := fun he =>
    absurd (List.cons.inj he).2 (List.cons_ne_nil _ _)
  rw [h.mem_elementPaths, or_iff_right hne, configurationPath, ← rootPath,
    cons_cons_mem_elementPaths, settingsNamed, configurations, Node.childrenNamed, Ne,
    List.flatMap_eq_nil_iff]
  simp

end

theorem eventsOf_setting {name : List Char} (hname : tagName name = name) (flag : Bool) :
    eventsOf [setting name flag] = element name (flagText flag) := by
  have hleaf : (Node.leaf (.text (flagText flag)) rfl).events = [.text (flagText flag)] :=
    events_leaf rfl
  rw [setting, eventsOf_cons, events_element, eventsOf_cons, hleaf, hname]
  rfl

theorem eventsOf_lacking {name : List Char} {found : Option String} (hname : tagName name = name)
    (hfound : found.isSome ↔ settingsNamed name root ≠ []) (flag : Bool) :
    eventsOf (if (settingsNamed name root).isEmpty then [setting name flag] else []) =
      if found.isSome then [] else element name (flagText flag) := by
  by_cases hempty : settingsNamed name root = []
  · have hnone : ¬ found.isSome := fun h => hfound.1 h hempty
    rw [if_pos (List.isEmpty_iff.2 hempty), if_neg hnone, eventsOf_setting hname]
  · rw [if_neg (by simpa using hempty), if_pos (hfound.2 hempty), eventsOf_nil]

/-- The inspection tells what stands in a document with this root. -/
structure Describes (info : Info) (root : Node) : Prop where
  configuration : info.hasRunConfiguration ↔ configurations root ≠ []
  designMode : info.designMode.isSome ↔ settingsNamed designModeName.toList root ≠ []
  collectSource : info.collectSource.isSome ↔ settingsNamed collectSourceName.toList root ≠ []

/-- A document that is accepted has a root, and the inspection tells what stands in it. -/
theorem exists_root_of_ok {s : List Char} (h : inspect s = .ok info) :
    ∃ front root back, Rooted (Markup.read (orEmptyDocument s)).events front root back ∧
      Describes info root := by
  obtain ⟨-, i, hfold, hi⟩ := inspectReading_eq_ok.1 h
  obtain ⟨-, hroot, -, -, -, hconf, hdesign, hcollect⟩ := Inspection.conclude_eq_ok.1 hi
  obtain ⟨front, root, back, hr⟩ := exists_rooted (legible_of_ok h) hfold hroot
  have hseen (l : Landmark) := Inspection.seen_iff_of_foldlM l hfold
  refine ⟨front, root, back, hr, ?_, ?_, ?_⟩
  · rw [← hconf, ← hr.configuration_iff]
    exact hseen .configuration
  · rw [← hdesign, ← hr.setting_iff]
    exact hseen .designMode
  · rw [← hcollect, ← hr.setting_iff]
    exact hseen .collectSource

/-- The elements that an inspection has not found are those that no configuration has. -/
theorem Describes.missingElements_eq (h : Describes info root) (flag : Bool) :
    missingElements info flag = eventsOf (lacking root flag) := by
  have hd := eventsOf_lacking (by decide) h.designMode flag
  have hc := eventsOf_lacking (by decide) h.collectSource flag
  simp only [missingElements, lacking, List.flatMap_cons, List.flatMap_nil, eventsOf_append, hd, hc,
    List.append_nil]

theorem Describes.missing_isEmpty_iff (h : Describes info root) (flag : Bool) :
    (missingElements info flag).isEmpty ↔ lacking root flag = [] := by
  rw [h.missingElements_eq, List.isEmpty_iff, eventsOf_eq_nil_iff]

theorem inspect_of_allBlank {s : List Char} (hs : Text.allBlank s) :
    inspect s = .ok ⟨none, false, none, none⟩ := by
  rw [inspect, orEmptyDocument, if_pos hs]
  decide +kernel

/-- A blank text lacks something. -/
theorem orEmptyDocument_of_complete {s : List Char} (h : inspect s = .ok info)
    (hm : (missingElements info flag).isEmpty) : orEmptyDocument s = s := by
  refine orEmptyDocument_eq fun hs => ?_
  obtain rfl := Except.ok.inj ((inspect_of_allBlank hs).symm.trans h)
  cases hm

/-- A document that lacks nothing is returned as it was written. -/
theorem written_of_complete {s : List Char} (h : inspect s = .ok info) (hd : Describes info root)
    (hnone : lacking root flag = []) : written s info flag = s := by
  have hm := (hd.missing_isEmpty_iff flag).2 hnone
  rw [written, if_pos hm, orEmptyDocument_of_complete h hm]

/-- In every other document, the root is completed. -/
theorem fromFirstTag_written {s : List Char} {front back : List Node} (h : inspect s = .ok info)
    (hslash : ∀ content, .empty content ∈ (Markup.read s).events → content.getLast? ≠ some '/')
    (hr : Rooted (Markup.read (orEmptyDocument s)).events front root back)
    (hd : Describes info root) (hsome : lacking root flag ≠ []) :
    (Markup.read (written s info flag)).fromFirstTag =
      ⟨(complete (lacking root flag) root).events ++ eventsOf back, none⟩ := by
  have hm : ¬ (missingElements info flag).isEmpty := fun hm =>
    hsome ((hd.missing_isEmpty_iff flag).1 hm)
  have hinjected : Legible [] (injectAll (missingElements info flag) info.hasRunConfiguration []
      (Markup.read (orEmptyDocument s)).events) [] :=
    legible_injectAll (legible_of_ok h) (unbroken_orEmptyDocument hslash)
  rw [written, if_neg hm, fromFirstTag_read, hinjected.readFrom_eq, hd.missingElements_eq]
  exact (hr.injectAll hd.configuration).fromFirstTag none

/-- A document that lacks nothing is returned as it was written. In every other the configurations
or, if there is none, the root have the missing elements at their end, and all else from the first
tag on is read again from what a merge writes, unless a tag that closes itself has another `/` at
its end. -/
theorem merge_keeps_document {xml : String} (h : inspect xml.toList = .ok info)
    (hslash : ∀ content, .empty content ∈ (Markup.read xml.toList).events →
      content.getLast? ≠ some '/') (flag : Bool) (n : Nat) :
    ∃ m root back, merge xml flag n = .ok m ∧
      (Markup.read (orEmptyDocument xml.toList)).fromFirstTag = ⟨root.events ++ back, none⟩ ∧
      root.name? = some rootName ∧ (∀ e ∈ back, ¬ e.isTag) ∧
      (lacking root flag = [] → m.xml = xml) ∧
      (lacking root flag ≠ [] →
        (Markup.read m.xml.toList).fromFirstTag =
          ⟨(complete (lacking root flag) root).events ++ back, none⟩) := by
  obtain ⟨front, root, back, hr, hd⟩ := exists_root_of_ok h
  obtain ⟨herror, -⟩ := inspectReading_eq_ok.1 h
  refine ⟨_, root, eventsOf back, merge_of_ok h flag n, ?_, hr.name,
    not_isTag_of_name?_eq_none hr.back, fun hnone => ?_, fun hsome => ?_⟩
  · rw [← herror]
    exact hr.fromFirstTag _
  · show String.ofList (written xml.toList info flag) = xml
    rw [written_of_complete h hd hnone, String.ofList_toList]
  · rw [String.toList_ofList]
    exact fromFirstTag_written h hslash hr hd hsome

set_option maxRecDepth 4000 in
theorem each_configuration_is_completed :
    let xml := "<!-- a --><RunSettings><RunConfiguration x=\"/>\"/><A><RunConfiguration/></A><RunConfiguration><DesignMode/></RunConfiguration></RunSettings>"
    ∃ m, merge xml true 10 = .ok m ∧
      (Markup.read m.xml.toList).fromFirstTag =
        ⟨[.start rootName,
          .start "RunConfiguration x=\"/>\"".toList,
            .start collectSourceName.toList, .text "True".toList, .close collectSourceName.toList,
          .close configurationName,
          .start ['A'], .empty configurationName, .close ['A'],
          .start configurationName,
            .empty designModeName.toList,
            .start collectSourceName.toList, .text "True".toList, .close collectSourceName.toList,
          .close configurationName,
          .close rootName], none⟩ := by
  intro xml
  let root : Node := .element rootName
    [.empty "RunConfiguration x=\"/>\"".toList, .element ['A'] [.empty configurationName],
      .element configurationName [.empty designModeName.toList]]
  let document : List Event := .comment " a ".toList :: root.events
  have hxml : xml = String.ofList (Markup.render document) := by rfl
  have hdocument : orEmptyDocument xml.toList = xml.toList := by
    rw [hxml, String.toList_ofList]
    exact orEmptyDocument_eq (by decide +kernel)
  have hread : Markup.read xml.toList = ⟨document, none⟩ := by
    rw [hxml, String.toList_ofList]
    decide +kernel
  have hinspect : inspect xml.toList = .ok ⟨none, true, some "", none⟩ := by
    rw [inspect, hdocument, hread]
    decide +kernel
  have hslash : ∀ content, .empty content ∈ (Markup.read xml.toList).events →
      content.getLast? ≠ some '/' := by
    rw [hread]
    intro content hc
    have hc : content = "RunConfiguration x=\"/>\"".toList ∨ content = configurationName ∨
        content = designModeName.toList := by simpa [document, root] using hc
    rcases hc with rfl | rfl | rfl <;> decide
  obtain ⟨m, root', back, hm, hevents, -, -, -, hwritten⟩ :=
    merge_keeps_document hinspect hslash true 10
  have hevents : root'.events ++ back = root.events ++ [] := by
    have hfirst : (Reading.mk document none).fromFirstTag = ⟨root.events, none⟩ := rfl
    rw [hdocument, hread, hfirst] at hevents
    rw [List.append_nil]
    exact (congrArg Reading.events hevents).symm
  obtain ⟨rfl, rfl⟩ := eq_of_events_append hevents
  have hdesign : (settingsNamed designModeName.toList root).isEmpty = false := by decide +kernel
  have hcollect : (settingsNamed collectSourceName.toList root).isEmpty := by decide +kernel
  have hlacking : lacking root true = [setting collectSourceName.toList true] := by
    simp only [lacking, List.flatMap_cons, List.flatMap_nil, hdesign, hcollect]
    rfl
  refine ⟨m, hm, (hwritten ?_).trans ?_⟩
  · rw [hlacking]
    exact List.cons_ne_nil _ _
  · rw [hlacking]
    decide +kernel

end
end Proctor.Settings
