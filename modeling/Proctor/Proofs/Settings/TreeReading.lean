import Proctor.Proofs.Markup.WellFormed
import Proctor.Proofs.Settings.PassThrough
import Proctor.Proofs.Settings.Verdict

/-! # What the tree of a document says

An inspection of a well-formed document says what stands in the tree: right in the root, right in its
configurations, and right in the settings of these. -/

namespace Proctor.Settings
open Proctor.Markup Proctor.Text

/-! ### Runs of text in a tree -/

/-- The runs of text that stand right in an element. -/
def textsIn (node : Node) : List (List Char) := node.children.filterMap Node.text?

section
variable {place p : Path} {node root : Node} {nodes : List Node} {a : List Char}

theorem runAt_of_not_suffix {e : Event} (h : ¬ p <:+ place) : runAt place p e = [] := by
  have hne : p ≠ place := fun he => h (he ▸ List.suffix_rfl)
  cases e with
  | text content => exact if_neg hne
  | start _ | empty _ | close _ | comment _ | cdata _ | instruction _ | doctype _ => rfl

mutual

/-- Inside an element, all that stands right at a path stands inside the element too. -/
theorem runsAt_events_of_not_suffix : ∀ (node : Node) {place p : Path}, ¬ p <:+ place →
    runsAt place p node.events = []
  | .element content children, place, p, h => by
    have hinside : ¬ tagName content :: p <:+ place := fun hs =>
      h ((List.suffix_cons _ _).trans hs)
    rw [events_element, runsAt_cons, runsAt_append, follow,
      runsAt_eventsOf_of_not_suffix children hinside]
    rfl
  | .empty content, place, p, h => by
    rw [events_empty]
    rfl
  | .leaf e plain, place, p, h => by
    rw [events_leaf, runsAt_cons, runAt_of_not_suffix h]
    rfl

theorem runsAt_eventsOf_of_not_suffix : ∀ (nodes : List Node) {place p : Path}, ¬ p <:+ place →
    runsAt place p (eventsOf nodes) = []
  | [], place, p, h => by simp
  | node :: nodes, place, p, h => by
    rw [eventsOf_cons, runsAt_append, foldl_follow_events, runsAt_events_of_not_suffix node h,
      runsAt_eventsOf_of_not_suffix nodes h, List.append_nil]

end

/-- The runs of text in an element are those in what stands in it. -/
theorem runsAt_events (h : node.name? = some a) :
    runsAt place p node.events = runsAt place (a :: p) (eventsOf node.children) := by
  cases node with
  | element content children =>
    obtain rfl : tagName content = a := Option.some.inj h
    rw [events_element, runsAt_cons, runsAt_append]
    simp [runAt, follow, Node.children]
  | empty content => simp [runAt, Node.children]
  | leaf e plain => cases h

theorem runsAt_of_leaf (h : node.name? = none) :
    runsAt place p node.events = if p = place then node.text?.toList else [] := by
  cases node with
  | element _ _ | empty _ => cases h
  | leaf e plain =>
    rw [events_leaf, runsAt_cons, runsAt_nil, List.append_nil]
    cases e with
    | start _ | empty _ | close _ => cases plain
    | text _ | comment _ | cdata _ | instruction _ | doctype _ => simp [runAt, Node.text?]

theorem text?_of_name? (h : node.name? = some a) : node.text? = none := by
  cases node with
  | element _ _ | empty _ => rfl
  | leaf e plain => cases h

/-- The runs right at the present path are nodes of their own. -/
theorem runsAt_self : runsAt p p (eventsOf nodes) = nodes.filterMap Node.text? := by
  induction nodes with
  | nil => rfl
  | cons node nodes ih =>
    rw [eventsOf_cons, runsAt_append, foldl_follow_events, ih, List.filterMap_cons]
    cases hname : node.name? with
    | some a =>
      have hnot : ¬ a :: p <:+ p := fun hs => by
        have hlength := hs.length_le
        simp only [List.length_cons] at hlength
        omega
      rw [runsAt_events hname, runsAt_eventsOf_of_not_suffix _ hnot, text?_of_name? hname]
      rfl
    | none =>
      rw [runsAt_of_leaf hname, if_pos rfl]
      cases node.text? <;> rfl

/-- The runs further inside stand in the elements of the next name on the way. -/
theorem runsAt_below (h : a :: p <:+ place) :
    runsAt place p (eventsOf nodes) =
      (nodes.filter fun node => node.name? = some a).flatMap fun node =>
        runsAt place (a :: p) (eventsOf node.children) := by
  induction nodes with
  | nil => rfl
  | cons node nodes ih =>
    rw [eventsOf_cons, runsAt_append, foldl_follow_events, ih, List.filter_cons]
    cases hname : node.name? with
    | some b =>
      by_cases hb : b = a
      · subst hb
        simp [runsAt_events hname]
      · have hother : ¬ b :: p <:+ place := fun hs => hb <| by
          have he : b :: p = a :: p :=
            (List.suffix_of_suffix_length_le hs h (by simp)).eq_of_length (by simp)
          exact (List.cons.inj he).1
        simp [runsAt_events hname, runsAt_eventsOf_of_not_suffix _ hother, hb]
    | none =>
      have hne : p ≠ place := fun he => by
        have hlength := h.length_le
        simp only [he, List.length_cons] at hlength
        omega
      simp [runsAt_of_leaf hname, hne]

/-- The runs of text right in the elements of a setting, in the order of the document. -/
def Setting.runs (root : Node) (v : Setting) : List (List Char) :=
  (settingsNamed v.name.toList root).flatMap textsIn

/-- Besides the root, a document has nothing with a name outside of it. -/
theorem Rooted.filter_eq {events : List Event} {front back : List Node}
    (h : Rooted events front root back) {q : Node → Bool}
    (hq : ∀ node : Node, node.name? = none → q node = false) (hroot : q root) :
    (front ++ root :: back).filter q = [root] := by
  have hfront : front.filter q = [] :=
    List.filter_eq_nil_iff.2 fun node hnode => by simp [hq node (h.front node hnode)]
  have hback : back.filter q = [] :=
    List.filter_eq_nil_iff.2 fun node hnode => by simp [hq node (h.back node hnode)]
  simp [hfront, hback, hroot]

theorem Rooted.runsAt_eq {events : List Event} {front back : List Node}
    (h : Rooted events front root back) (v : Setting) :
    runsAt v.path [] events = v.runs root := by
  have hroot : (front ++ root :: back).filter (fun node => node.name? = some rootName) = [root] :=
    h.filter_eq (fun node hname => by simp [hname]) (by simp [h.name])
  have hpath : v.path = [v.name.toList, configurationName, rootName] := rfl
  rw [h.events_eq, runsAt_below ⟨[v.name.toList, configurationName], hpath.symm⟩, hroot,
    List.flatMap_singleton, runsAt_below ⟨[v.name.toList], hpath.symm⟩, Setting.runs,
    settingsNamed, List.flatMap_assoc]
  refine List.flatMap_congr fun c _ => ?_
  rw [runsAt_below ⟨[], hpath.symm⟩]
  exact List.flatMap_congr fun node _ => runsAt_self

end

/-! ### What a root says -/

/-- The last run of text right in an element of a setting, without the blanks around it. -/
def Setting.lastText (root : Node) (v : Setting) : Option String :=
  (v.runs root).getLast?.map fun run => String.ofList (trim run)

/-- What a document with this root says of a setting. An element without a text says something of a
flag only. -/
def Setting.written (root : Node) (v : Setting) : Option String :=
  if v.isFlag then
    if (settingsNamed v.name.toList root).isEmpty then none else some ((v.lastText root).getD "")
  else v.lastText root

/-- The information on a document that its root gives. -/
structure Says (root : Node) (info : Info) : Prop where
  configuration : info.hasRunConfiguration ↔ configurations root ≠ []
  batchSize (n : Nat) : info.batchSize = some n ↔
    ∃ text, Setting.batchSize.written root = some text ∧ IsBatchSize text n
  designMode : info.designMode = Setting.designMode.written root
  collectSource : info.collectSource = Setting.collectSource.written root

theorem Setting.shown_written_iff {root : Node} {info : Info}
    (hconf : info.hasRunConfiguration ↔ configurations root ≠ []) :
    (∀ v : Setting, v.Shown info (v.written root)) ↔ Says root info := by
  constructor
  · intro h
    exact ⟨hconf, h .batchSize, h .designMode, h .collectSource⟩
  · intro h v
    cases v with
    | batchSize => exact h.batchSize
    | designMode => exact h.designMode
    | collectSource => exact h.collectSource

section
variable {root : Node} {events : List Event} {front back : List Node} {i j : Inspection}

/-- Texts stand in elements. -/
theorem Setting.runs_eq_nil {v : Setting} (h : settingsNamed v.name.toList root = []) :
    v.runs root = [] := by rw [runs, h, List.flatMap_nil]

/-- What an inspection has found in the end is what the root says. -/
theorem Rooted.found_eq (h : Rooted events front root back)
    (hfold : events.foldlM Inspection.step {} = .ok i) (v : Setting) :
    v.found i = v.written root := by
  have hseen : v.path ∈ elementPaths [] events ↔ settingsNamed v.name.toList root ≠ [] :=
    h.setting_iff _
  simp only [Inspection.found_of_foldlM v hfold, v.found_start, h.runsAt_eq, Setting.update,
    Setting.written, Setting.lastText, hseen, List.isEmpty_iff]
  cases hlast : (v.runs root).getLast? with
  | none => by_cases hflag : v.isFlag <;> simp [hflag]
  | some run =>
    have hne : settingsNamed v.name.toList root ≠ [] := fun hempty => by
      rw [Setting.runs_eq_nil hempty] at hlast
      cases hlast
    simp [hne]

/-! ### Every document with a root is inspected to its end -/

namespace Inspection

/-- Outside of all elements, nothing but a tag changes an inspection. -/
theorem foldlM_of_plain (hpath : i.path = []) (h : ∀ e ∈ events, ¬ e.isTag) :
    events.foldlM step i = .ok i := by
  induction events with
  | nil => rfl
  | cons e events ih =>
    obtain ⟨he, hevents⟩ := List.forall_mem_cons.1 h
    refine foldlM_cons ?_ (ih hevents)
    cases e with
    | start _ | empty _ | close _ => exact absurd rfl he
    | comment _ | cdata _ | instruction _ | doctype _ => rfl
    | text content => simp [step, addText, hpath]

theorem exists_enter (hpath : i.path ≠ []) (name : List Char) : ∃ k, i.enter name = .ok k := by
  simp only [enter, if_neg hpath]
  split_ifs <;> exact ⟨_, rfl⟩

mutual

/-- Inside an element, every tree is accepted. -/
theorem exists_foldlM_events : ∀ (node : Node) {i : Inspection}, i.path ≠ [] →
    ∃ j, node.events.foldlM step i = .ok j
  | .element content children, i, hpath => by
    obtain ⟨k, hk⟩ := exists_enter hpath (tagName content)
    have hstart := step_start (enter_eq_ok.1 hk)
    obtain ⟨m, hm⟩ := exists_foldlM_eventsOf children
      (i := { k with path := tagName content :: i.path }) (List.cons_ne_nil _ _)
    rw [events_element]
    exact ⟨_, foldlM_cons hstart (foldlM_append hm rfl)⟩
  | .empty content, i, hpath => by
    obtain ⟨k, hk⟩ := exists_enter hpath (tagName content)
    rw [events_empty]
    exact ⟨k, foldlM_cons hk rfl⟩
  | .leaf e plain, i, hpath => by
    rw [events_leaf]
    cases e with
    | start _ | empty _ | close _ => cases plain
    | text _ | comment _ | cdata _ | instruction _ | doctype _ => exact ⟨_, rfl⟩

theorem exists_foldlM_eventsOf : ∀ (nodes : List Node) {i : Inspection}, i.path ≠ [] →
    ∃ j, (eventsOf nodes).foldlM step i = .ok j
  | [], i, _ => by
    rw [eventsOf_nil]
    exact ⟨i, rfl⟩
  | node :: nodes, i, hpath => by
    obtain ⟨k, hk⟩ := exists_foldlM_events node hpath
    have hkpath : k.path = i.path := by rw [path_of_foldlM hk, foldl_follow_events]
    obtain ⟨j, hj⟩ := exists_foldlM_eventsOf nodes (hkpath ▸ hpath)
    rw [eventsOf_cons]
    exact ⟨j, foldlM_append hk hj⟩

end

/-- The root is accepted where no root was before. -/
theorem exists_foldlM_root (hname : root.name? = some rootName) :
    ∃ j, root.events.foldlM step {} = .ok j := by
  have henter (name : List Char) (h : name = rootName) : Enters {} name { hasRoot := true } :=
    .root rfl rfl h
  cases root with
  | element content children =>
    have hstart := step_start (henter (tagName content) (Option.some.inj hname))
    obtain ⟨m, hm⟩ := exists_foldlM_eventsOf children
      (i := { hasRoot := true, path := [tagName content] }) (List.cons_ne_nil _ _)
    rw [events_element]
    exact ⟨_, foldlM_cons hstart (foldlM_append hm rfl)⟩
  | empty content =>
    rw [events_empty]
    exact ⟨_, foldlM_cons (enter_eq_ok.2 (henter _ (Option.some.inj hname))) rfl⟩
  | leaf e plain => cases hname

end Inspection

theorem Rooted.exists_foldlM (h : Rooted events front root back) :
    ∃ j, events.foldlM Inspection.step {} = .ok j ∧ j.path = [] ∧ j.hasRoot := by
  obtain ⟨k, hk⟩ := Inspection.exists_foldlM_root h.name
  have hkpath : k.path = [] := by rw [Inspection.path_of_foldlM hk, foldl_follow_events]
  have hfront := Inspection.foldlM_of_plain (i := {}) rfl (not_isTag_of_name?_eq_none h.front)
  have hback := Inspection.foldlM_of_plain hkpath (not_isTag_of_name?_eq_none h.back)
  have hfold : events.foldlM Inspection.step {} = .ok k := by
    rw [h.events_eq, eventsOf_append, eventsOf_cons]
    exact Inspection.foldlM_append hfront (Inspection.foldlM_append hk hback)
  refine ⟨k, hfold, hkpath, ?_⟩
  have hroot : rootPath ∈ elementPaths [] events := h.mem_elementPaths.2 (.inl rfl)
  exact (Inspection.seen_iff_of_foldlM .root hfold).2 hroot

end

/-! ### A whole document -/

section
variable {nodes : List Node} {s : List Char} {root : Node} {info : Info} {e : SettingsError}

/-- The elements outside of all others. -/
def topElements (nodes : List Node) : List Node := nodes.filter fun node => node.name?.isSome

theorem exists_rooted_of_topElements (h : topElements nodes = [root])
    (hname : root.name? = some rootName) :
    ∃ front back, Rooted (eventsOf nodes) front root back := by
  obtain ⟨front, back, rfl, hfront, -, hback⟩ := List.filter_eq_cons_iff.1 h
  refine ⟨front, back, rfl, hname, fun node hnode => ?_, fun node hnode => ?_⟩
  · simpa using hfront node hnode
  · simpa using List.filter_eq_nil_iff.1 hback node hnode

theorem Rooted.topElements_eq {front back : List Node}
    (h : Rooted (eventsOf nodes) front root back) (hnodes : nodes = front ++ root :: back) :
    topElements nodes = [root] := by
  rw [topElements, hnodes]
  exact h.filter_eq (fun node hname => by simp [hname]) (by simp [h.name])

theorem inspect_of_wellFormed (h : WellFormedNodes nodes) (hs : Spelled (eventsOf nodes) s)
    (hblank : ¬ allBlank s) : inspect s = inspectReading ⟨eventsOf nodes, none⟩ := by
  rw [inspect, orEmptyDocument_eq hblank, inspectReading_read, readFrom_of_wellFormed h hs]

/-- A document that is accepted has one element outside of all others. -/
theorem exists_topElement (h : inspectReading ⟨eventsOf nodes, none⟩ = .ok info) :
    ∃ root, topElements nodes = [root] ∧ root.name? = some rootName := by
  obtain ⟨-, i, hfold, hi⟩ := inspectReading_eq_ok.1 h
  obtain ⟨-, hroot, -⟩ := Inspection.conclude_eq_ok.1 hi
  have hnames : nodes.filterMap Node.name? = [rootName] :=
    Inspection.names_of_foldlM Inspection.aware_start rfl hfold hroot
  obtain ⟨front, root, back, rfl, hfront, hname, hback⟩ := List.filterMap_eq_cons_iff.1 hnames
  have hrooted : Rooted (eventsOf (front ++ root :: back)) front root back :=
    ⟨rfl, hname, hfront, by simpa using hback⟩
  exact ⟨root, hrooted.topElements_eq rfl, hname⟩

/-- A well-formed document is accepted only if `RunSettings` is its one element outside of all
others. It then says what its root says, if the texts of all settings are valid, and else the first
of them that is not is the error. -/
theorem inspect_reads_tree (hnodes : WellFormedNodes nodes) (hs : Spelled (eventsOf nodes) s)
    (hblank : ¬ allBlank s) :
    (∀ info, inspect s = .ok info →
      ∃ root, topElements nodes = [root] ∧ root.name? = some rootName) ∧
    ∀ root, topElements nodes = [root] → root.name? = some rootName →
      (∀ info, inspect s = .ok info ↔
        (∀ (v : Setting) (text : String), v.written root = some text → v.Admits text) ∧
          Says root info) ∧
      ∀ e, inspect s = .error e ↔
        ∃ before v text after,
          Setting.texts Setting.all (·.written root) = before ++ (v, text) :: after ∧
          (∀ p ∈ before, p.1.Admits p.2) ∧ ¬ v.Admits text ∧ e = .invalidValue v.name text := by
  rw [inspect_of_wellFormed hnodes hs hblank]
  refine ⟨fun info h => exists_topElement h, fun root htop hname => ?_⟩
  obtain ⟨front, back, hr⟩ := exists_rooted_of_topElements htop hname
  obtain ⟨i, hfold, hpath, hroot⟩ := hr.exists_foldlM
  have hfound : (fun v : Setting => v.found i) = (·.written root) := funext (hr.found_eq hfold)
  have hconf : i.hasRunConfiguration ↔ configurations root ≠ [] := by
    rw [← hr.configuration_iff]
    exact Inspection.seen_iff_of_foldlM .configuration hfold
  rw [inspectReading_of_foldlM hfold]
  refine ⟨fun info => ?_, fun e => ?_⟩
  · rw [Inspection.conclude_eq_ok_iff]
    simp only [hr.found_eq hfold, Setting.check_eq_ok, forall_and]
    constructor
    · rintro ⟨-, -, hinfo, hcheck, hshown⟩
      exact ⟨hcheck, (Setting.shown_written_iff (hinfo ▸ hconf)).1 hshown⟩
    · rintro ⟨hcheck, hsays⟩
      have hinfo := Bool.eq_iff_iff.2 (hconf.trans hsays.configuration.symm)
      exact ⟨hpath, hroot, hinfo, hcheck, (Setting.shown_written_iff hsays.configuration).2 hsays⟩
  · rw [Inspection.conclude_eq_error_iff hpath hroot, hfound]
    exact Iff.rfl

set_option maxRecDepth 4000 in
theorem lookalike_is_not_read :
    let root : Node := .element "RunSettings a='/>'".toList
      [.element ['A'] [.element batchSizeName.toList [.leaf (.text ['7']) rfl]],
        .element configurationName
          [.element batchSizeName.toList
            [.leaf (.text ['3']) rfl, .leaf (.comment ['-']) rfl, .leaf (.text " 15 ".toList) rfl],
          .empty designModeName.toList]]
    let nodes : List Node := [.leaf (.instruction "xml version='1.0'".toList) rfl, root]
    let xml := "<?xml version='1.0'?><RunSettings a='/>'><A><BatchSize>7</BatchSize></A><RunConfiguration><BatchSize>3<!-----> 15 </BatchSize><DesignMode/></RunConfiguration></RunSettings>"
    WellFormedNodes nodes ∧ Spelled (eventsOf nodes) xml.toList ∧ ¬ allBlank xml.toList ∧
      inspect xml.toList = .ok ⟨some 15, true, some "", none⟩ := by
  intro root nodes xml
  have hnodes : WellFormedNodes nodes := by
    have hname : IsName rootName := by decide
    have hattribute : TagText (' ' :: 'a' :: '=' :: '\'' :: (['/', '>'] ++ ['\''])) :=
      .plain (by decide) (by decide) <| .plain (by decide) (by decide) <|
        .plain (by decide) (by decide) <| .quoted (.inr rfl) (by decide) .nil
    have hroot : IsTag "RunSettings a='/>'".toList :=
      ⟨by decide, hname.tagText.append hattribute, by decide⟩
    have ha : IsTag ['A'] := IsName.isTag (by decide)
    have hbatch : IsTag batchSizeName.toList := IsName.isTag (by decide)
    have hconf : IsTag configurationName := IsName.isTag (by decide)
    have hdesign : IsTag designModeName.toList := IsName.isTag (by decide)
    have hdeclaration : (Event.instruction "xml version='1.0'".toList).IsPlain :=
      ⟨by decide +kernel, by decide⟩
    have hcomment : (Event.comment ['-']).IsPlain := show ¬ _ <:+: _ by decide +kernel
    have htext {content : List Char} (h : content ≠ [] ∧ '<' ∉ content) :
        (Event.text content).IsPlain := h
    simp only [nodes, root, wellFormedNodes_cons, wellFormedNodes_nil, wellFormed_element,
      wellFormed_empty, Node.text?, hroot, ha, hbatch, hconf, hdesign]
    simp only [Option.isSome_none, Option.isSome_some, List.head?_nil, List.head?_cons,
      Option.mem_def, Option.some.injEq, forall_eq', reduceCtorEq, false_implies, implies_true,
      and_true, true_and]
    exact ⟨wellFormed_leaf.2 hdeclaration, wellFormed_leaf.2 (htext (by decide)),
      wellFormed_leaf.2 (htext (by decide)), wellFormed_leaf.2 hcomment,
      wellFormed_leaf.2 (htext (by decide))⟩
  have hxml : xml = String.ofList (Markup.render (eventsOf nodes)) := by rfl
  have hs : Spelled (eventsOf nodes) xml.toList := by
    rw [hxml, String.toList_ofList]
    exact spelled_render _
  have hblank : ¬ allBlank xml.toList := by decide +kernel
  refine ⟨hnodes, hs, hblank, ?_⟩
  obtain ⟨-, htree⟩ := inspect_reads_tree hnodes hs hblank
  have htop : topElements nodes = [root] := rfl
  have hname : root.name? = some rootName := by decide +kernel
  have hbatch : Setting.batchSize.written root = some "15" := by decide +kernel
  have hdesign : Setting.designMode.written root = some "" := by decide +kernel
  have hcollect : Setting.collectSource.written root = none := by decide +kernel
  have hsize (n : Nat) : IsBatchSize "15" n ↔ n = 15 := by
    have hparse : parseBatchSize "15" = .ok 15 := by decide +kernel
    rw [← parseBatchSize_eq_ok, hparse, Except.ok.injEq, eq_comm]
  refine ((htree root htop hname).1 _).2 ⟨fun v text htext => ?_, ?_, fun n => ?_, ?_, ?_⟩
  · cases v with
    | batchSize =>
      obtain rfl := Option.some.inj (hbatch.symm.trans htext)
      exact ⟨15, (hsize 15).2 rfl⟩
    | designMode => exact .inl (Option.some.inj (hdesign.symm.trans htext)).symm
    | collectSource => cases hcollect.symm.trans htext
  · decide +kernel
  · rw [hbatch]
    simp [hsize, eq_comm]
  · exact hdesign.symm
  · exact hcollect.symm

end

end Proctor.Settings
