import Proctor.Proofs.Settings.PassThrough

/-! # How often a setting occurs

What an inspection does not find is put into every configuration, once into each. What it finds
anywhere is put nowhere, even where a configuration does not have it. -/

namespace Proctor.Settings
open Proctor.Markup

/-- How many elements a document has at a path. A blank text is an empty document. -/
def elementsAt (path : Path) (xml : String) : Nat :=
  (elementPaths [] (Markup.read (orEmptyDocument xml.toList)).events).count path

/-! ### The paths in a tree, in order -/

section
variable {path p q : Path} {a b : List Char} {node : Node} {nodes : List Node} {events : List Event}

theorem elementPaths_of_plain (h : ∀ e ∈ events, ¬ e.isTag) : elementPaths path events = [] := by
  induction events with
  | nil => rfl
  | cons e events ih =>
    obtain ⟨he, hevents⟩ := List.forall_mem_cons.1 h
    have plain : e.isTag = false := by simpa using he
    rw [elementPaths_cons, begun_of_plain plain, follow_of_plain plain, ih hevents]
    rfl

/-- In front of the first tag, no element begins. -/
theorem elementPaths_fromFirstTag (r : Reading) :
    elementPaths [] r.fromFirstTag.events = elementPaths [] r.events := by
  obtain ⟨events, error?⟩ := r
  show elementPaths [] (events.dropWhile fun e => !e.isTag) = elementPaths [] events
  induction events with
  | nil => rfl
  | cons e events ih =>
    cases he : e.isTag with
    | true => rw [List.dropWhile_cons_of_neg (by simp [he])]
    | false =>
      rw [List.dropWhile_cons_of_pos (by simp [he]), ih, elementPaths_cons, begun_of_plain he,
        follow_of_plain he]
      rfl

theorem elementPaths_events (h : node.name? = some a) : elementPaths p node.events =
    (a :: p) :: elementPaths (a :: p) (eventsOf node.children) := by
  cases node with
  | element content children =>
    obtain rfl := Option.some.inj h
    simp [Node.children, begun, follow]
  | empty content =>
    obtain rfl := Option.some.inj h
    simp [Node.children, begun]
  | leaf e plain => cases h

theorem elementPaths_events_of_leaf (h : node.name? = none) : elementPaths p node.events = [] := by
  cases node with
  | element | empty => cases h
  | leaf e plain => simp [begun_of_plain plain]

/-- Inside an element, no path is as short as that of the element. -/
theorem count_of_shallow (h : q.length ≤ p.length) :
    (elementPaths p (eventsOf nodes)).count q = 0 := by
  refine List.count_eq_zero.2 fun hq => ?_
  obtain ⟨name, hs⟩ := suffix_of_mem_eventsOf hq
  have hlength := hs.length_le
  simp only [List.length_cons] at hlength
  omega

/-- How many elements stand right inside the ones that are open. -/
theorem count_cons : (elementPaths p (eventsOf nodes)).count (a :: p) =
    (nodes.filter fun node => node.name? = some a).length := by
  induction nodes with
  | nil => rfl
  | cons node nodes ih =>
    rw [eventsOf_cons, elementPaths_append, List.count_append, foldl_follow_events, ih]
    cases hname : node.name? with
    | none => simp [elementPaths_events_of_leaf hname, hname]
    | some name =>
      have hinside : (elementPaths (name :: p) (eventsOf node.children)).count (a :: p) = 0 :=
        count_of_shallow (Nat.le_refl _)
      rw [elementPaths_events hname, List.count_cons, hinside]
      by_cases ha : name = a
      · simp [hname, ha, Nat.add_comm]
      · simp [hname, ha]

/-- How many elements stand inside those. -/
theorem count_cons_cons : (elementPaths p (eventsOf nodes)).count (b :: a :: p) =
    ((nodes.filter fun node => node.name? = some a).flatMap (Node.childrenNamed b)).length := by
  induction nodes with
  | nil => rfl
  | cons node nodes ih =>
    rw [eventsOf_cons, elementPaths_append, List.count_append, foldl_follow_events, ih]
    cases hname : node.name? with
    | none => simp [elementPaths_events_of_leaf hname, hname]
    | some name =>
      have hne : name :: p ≠ b :: a :: p := fun he => by simpa using congrArg List.length he
      rw [elementPaths_events hname, List.count_cons_of_ne hne]
      by_cases ha : name = a
      · subst ha
        rw [count_cons]
        simp [hname, Node.childrenNamed]
      · have hother : (elementPaths (name :: p) (eventsOf node.children)).count (b :: a :: p) = 0 := by
          refine List.count_eq_zero.2 fun hq => ?_
          obtain ⟨c, hs⟩ := suffix_of_mem_eventsOf hq
          have he := hs.eq_of_length rfl
          exact ha (List.cons.inj (List.cons.inj he).2).1
        simp [hother, hname, ha]

end

/-! ### The settings of a document -/

section
variable {root : Node} {back : List Event} {error? : Option MarkupError} {r : Reading}

theorem elementPaths_of_root (hname : root.name? = some rootName) (hback : ∀ e ∈ back, ¬ e.isTag)
    (h : r.fromFirstTag = ⟨root.events ++ back, error?⟩) :
    elementPaths [] r.events = rootPath :: elementPaths rootPath (eventsOf root.children) := by
  rw [← elementPaths_fromFirstTag, h]
  show elementPaths [] (root.events ++ back) = _
  rw [elementPaths_append, elementPaths_of_plain hback, List.append_nil, elementPaths_events hname]
  rfl

theorem count_configurations (hname : root.name? = some rootName)
    (hback : ∀ e ∈ back, ¬ e.isTag) (h : r.fromFirstTag = ⟨root.events ++ back, error?⟩) :
    (elementPaths [] r.events).count configurationPath = (configurations root).length := by
  have hne : rootPath ≠ configurationPath := by decide
  rw [elementPaths_of_root hname hback h, List.count_cons_of_ne hne]
  exact count_cons

theorem count_settings (hname : root.name? = some rootName) (hback : ∀ e ∈ back, ¬ e.isTag)
    (h : r.fromFirstTag = ⟨root.events ++ back, error?⟩) (name : List Char) :
    (elementPaths [] r.events).count (name :: configurationPath) =
      (settingsNamed name root).length := by
  have hne : rootPath ≠ name :: configurationPath := fun he => by
    simpa [rootPath, configurationPath] using congrArg List.length he
  rw [elementPaths_of_root hname hback h, List.count_cons_of_ne hne]
  exact count_cons_cons

end
/-! ### Completed trees -/

section
variable {missing : List Node} {name : List Char} {flag : Bool} {node root : Node} {info : Info}

theorem childrenNamed_receive (h : node.name?.isSome) :
    (node.receive missing).childrenNamed name =
      node.childrenNamed name ++ missing.filter fun child => child.name? = some name := by
  cases node with
  | element content children => simp [Node.receive, Node.childrenNamed, Node.children]
  | empty content => simp [Node.receive, Node.childrenNamed, Node.children]
  | leaf e plain => cases h

theorem name?_receive : (node.receive missing).name? = node.name? := by cases node <;> rfl

theorem name?_completeChild : (completeChild missing node).name? = node.name? := by
  unfold completeChild
  split
  · exact name?_receive
  · rfl

/-- The configurations of the completed root: those that it had, or one of its own. -/
theorem configurations_complete (missing : List Node) (hname : root.name? = some rootName) :
    configurations (complete missing root) =
      if (configurations root).isEmpty then [.element configurationName missing]
      else (configurations root).map (Node.receive missing) := by
  have hconf : (Node.element configurationName missing).name? = some configurationName :=
    congrArg some (by decide)
  unfold complete
  split
  · next hempty =>
    have hsome : root.name?.isSome := by rw [hname]; rfl
    rw [configurations, childrenNamed_receive hsome, ← configurations, List.isEmpty_iff.1 hempty]
    simp [hconf]
  · next hempty =>
    cases root with
    | element content children =>
      have hsame : (fun child : Node => decide (child.name? = some configurationName)) ∘
          completeChild missing = fun child => decide (child.name? = some configurationName) := by
        funext child
        simp [name?_completeChild]
      show (children.map (completeChild missing)).filter _ = _
      rw [List.filter_map, hsame]
      refine List.map_congr_left fun child hchild => completeChild_of_eq ?_
      simpa using (List.mem_filter.1 hchild).2
    | empty content => exact absurd rfl hempty
    | leaf e plain => cases hname

/-- Of the settings that a merge fills in, the lacking ones are those that no configuration has. -/
theorem filter_lacking (root : Node) (flag : Bool)
    (hname : name ∈ [designModeName.toList, collectSourceName.toList]) :
    ((lacking root flag).filter fun child => child.name? = some name) =
      if (settingsNamed name root).isEmpty then [setting name flag] else [] := by
  have hd : tagName designModeName.toList = designModeName.toList := by decide
  have hc : tagName collectSourceName.toList = collectSourceName.toList := by decide
  have hne : designModeName.toList ≠ collectSourceName.toList := by decide
  simp only [lacking, List.flatMap_cons, List.flatMap_nil, List.append_nil, List.filter_append]
  simp only [List.mem_cons, List.not_mem_nil, or_false] at hname
  rcases hname with rfl | rfl
  · split <;> split <;> simp [setting, Node.name?, hd, hc, hne.symm]
  · split <;> split <;> simp [setting, Node.name?, hd, hc, hne]

/-- A root with every setting of another one, and in each configuration the ones that it had in
none. -/
structure Completes (root root' : Node) : Prop where
  name : root'.name? = some rootName
  count : (configurations root').length = max 1 (configurations root).length
  absent : ∀ name ∈ [designModeName.toList, collectSourceName.toList],
    settingsNamed name root = [] →
      ∀ c ∈ configurations root', (c.childrenNamed name).length = 1
  present : ∀ name ∈ [designModeName.toList, collectSourceName.toList],
    settingsNamed name root ≠ [] → settingsNamed name root' = settingsNamed name root

theorem configurations_ne_nil (h : settingsNamed name root ≠ []) : configurations root ≠ [] := by
  intro hnone
  simp [settingsNamed, hnone] at h

/-- A root that lacks nothing is complete. -/
theorem completes_of_lacking_eq_nil (hname : root.name? = some rootName)
    (h : lacking root flag = []) : Completes root root := by
  have hsome : ∀ name ∈ [designModeName.toList, collectSourceName.toList],
      settingsNamed name root ≠ [] := by
    intro name hmem hnone
    have hfilter := filter_lacking root flag hmem
    simp [h, hnone] at hfilter
  have hconf := configurations_ne_nil (hsome designModeName.toList (by simp))
  have hpos : 0 < (configurations root).length := List.length_pos_iff.2 hconf
  exact ⟨hname, by omega, fun name hmem hnone => absurd hnone (hsome name hmem), fun _ _ _ => rfl⟩

theorem name?_of_mem_configurations {c : Node} (h : c ∈ configurations root) :
    c.name?.isSome := by
  have hname := (List.mem_filter.1 h).2
  simp_all

theorem completes_complete (hname : root.name? = some rootName) :
    Completes root (complete (lacking root flag) root) := by
  have hconf := configurations_complete (lacking root flag) hname
  refine ⟨complete_name?.trans hname, ?_, fun name hmem hnone c hc => ?_, fun name hmem hsome => ?_⟩
  · rw [hconf]
    split
    · next hempty => simp [List.isEmpty_iff.1 hempty]
    · next hempty =>
      have hpos : 0 < (configurations root).length := List.length_pos_iff.2 (by simpa using hempty)
      rw [List.length_map]
      omega
  · have hfilter := filter_lacking root flag hmem
    rw [hnone] at hfilter
    rw [hconf] at hc
    split at hc
    · obtain rfl := List.mem_singleton.1 hc
      exact congrArg List.length hfilter
    · obtain ⟨c₀, hc₀, rfl⟩ := List.mem_map.1 hc
      have hold : c₀.childrenNamed name = [] := List.flatMap_eq_nil_iff.1 hnone c₀ hc₀
      rw [childrenNamed_receive (name?_of_mem_configurations hc₀), hold, hfilter]
      rfl
  · have hfilter := filter_lacking root flag hmem
    rw [if_neg (by simpa using hsome)] at hfilter
    have hkeep : ∀ c ∈ configurations root,
        (c.receive (lacking root flag)).childrenNamed name = c.childrenNamed name := by
      intro c hc
      rw [childrenNamed_receive (name?_of_mem_configurations hc), hfilter, List.append_nil]
    have hempty : ¬ (configurations root).isEmpty := by simpa using configurations_ne_nil hsome
    rw [settingsNamed, hconf, if_neg hempty, List.flatMap_map, settingsNamed]
    exact List.flatMap_congr hkeep

/-- A setting that is absent is put once into each configuration. -/
theorem Completes.length_settingsNamed {root' : Node} (h : Completes root root')
    (hname : name ∈ [designModeName.toList, collectSourceName.toList])
    (hnone : settingsNamed name root = []) :
    (settingsNamed name root').length = max 1 (configurations root).length := by
  have hone : (configurations root').map (fun c => (c.childrenNamed name).length) =
      (configurations root').map fun _ => 1 :=
    List.map_congr_left (h.absent name hname hnone)
  rw [settingsNamed, List.length_flatMap, hone, ← h.count]
  simp

/-! ### What a merge puts in -/

/-- The merged text has a completed root. -/
theorem exists_completed {s : List Char} {front back : List Node} (h : inspect s = .ok info)
    (hslash : ∀ content, .empty content ∈ (Markup.read s).events → content.getLast? ≠ some '/')
    (hr : Rooted (Markup.read (orEmptyDocument s)).events front root back)
    (hd : Describes info root) (flag : Bool) :
    ∃ root', (Markup.read (written s info flag)).fromFirstTag =
      ⟨root'.events ++ eventsOf back, none⟩ ∧ Completes root root' := by
  by_cases hnone : lacking root flag = []
  · refine ⟨root, ?_, completes_of_lacking_eq_nil hr.name hnone⟩
    have hdocument := orEmptyDocument_of_complete h ((hd.missing_isEmpty_iff flag).2 hnone)
    obtain ⟨herror, -⟩ := inspectReading_eq_ok.1 h
    rw [written_of_complete h hd hnone, ← herror, ← hr.fromFirstTag, hdocument]
  · exact ⟨_, fromFirstTag_written h hslash hr hd hnone, completes_complete hr.name⟩

/-- How often each setting occurs before a merge and after it, by the roots. -/
theorem exists_counted {xml : String} (h : inspect xml.toList = .ok info)
    (hslash : ∀ content, .empty content ∈ (Markup.read xml.toList).events →
      content.getLast? ≠ some '/') (flag : Bool) :
    ∃ root root' back, Describes info root ∧ Completes root root' ∧ (∀ e ∈ back, ¬ e.isTag) ∧
      (Markup.read (written xml.toList info flag)).fromFirstTag = ⟨root'.events ++ back, none⟩ ∧
      elementsAt configurationPath xml = (configurations root).length ∧
      ∀ name, elementsAt (name :: configurationPath) xml = (settingsNamed name root).length ∧
        elementsAt (name :: configurationPath) (String.ofList (written xml.toList info flag)) =
          (settingsNamed name root').length := by
  obtain ⟨front, root, back, hr, hd⟩ := exists_root_of_ok h
  obtain ⟨root', hread, hcompletes⟩ := exists_completed h hslash hr hd flag
  have hback := not_isTag_of_name?_eq_none hr.back
  -- the merged text is not blank, so it is read as it stands
  obtain ⟨b, hb⟩ : ∃ b, inspectReading (Markup.read (written xml.toList info flag)) =
      .ok (info.filled flag b) := inspectReading_written h (.inr (unbroken_orEmptyDocument hslash))
  have hwritten := orEmptyDocument_eq (not_allBlank_of_ok hb)
  refine ⟨root, root', eventsOf back, hd, hcompletes, hback, hread,
    count_configurations hr.name hback (hr.fromFirstTag _), fun name =>
      ⟨count_settings hr.name hback (hr.fromFirstTag _) name, ?_⟩⟩
  rw [elementsAt, String.toList_ofList, hwritten]
  exact count_settings hcompletes.name hback hread name

/-- A setting that an inspection does not find occurs once in each configuration of the merged
text, of which there are as many as there were, or one if there was none. A setting that it finds
occurs as often as before. -/
theorem absent_setting_is_put_once {xml : String} {n : Nat} {m : Merged}
    (hm : merge xml flag n = .ok m)
    (hslash : ∀ content, .empty content ∈ (Markup.read xml.toList).events →
      content.getLast? ≠ some '/') :
    ∃ info root back, inspect xml.toList = .ok info ∧
      (Markup.read m.xml.toList).fromFirstTag = ⟨root.events ++ back, none⟩ ∧
      root.name? = some rootName ∧ (∀ e ∈ back, ¬ e.isTag) ∧
      (configurations root).length = max 1 (elementsAt configurationPath xml) ∧
      ∀ name found, (name, found) ∈
          [(designModeName, info.designMode), (collectSourceName, info.collectSource)] →
        (found = none →
          (∀ c ∈ configurations root, (c.childrenNamed name.toList).length = 1) ∧
          elementsAt (name.toList :: configurationPath) m.xml =
            max 1 (elementsAt configurationPath xml)) ∧
        (found ≠ none → elementsAt (name.toList :: configurationPath) m.xml =
          elementsAt (name.toList :: configurationPath) xml) := by
  obtain ⟨info, h, rfl⟩ := exists_of_merge hm
  obtain ⟨root, root', back, hd, hcompletes, hback, hread, hconf, hcount⟩ :=
    exists_counted h hslash flag
  have hput : ∀ {name : String} {found : Option String},
      name.toList ∈ [designModeName.toList, collectSourceName.toList] →
      (found.isSome ↔ settingsNamed name.toList root ≠ []) →
      (found = none → (∀ c ∈ configurations root', (c.childrenNamed name.toList).length = 1) ∧
        (settingsNamed name.toList root').length = max 1 (configurations root).length) ∧
      (found ≠ none → (settingsNamed name.toList root').length =
        (settingsNamed name.toList root).length) := by
    intro name found hname hfound
    refine ⟨?_, fun hsome => ?_⟩
    · rintro rfl
      have hnone : settingsNamed name.toList root = [] := by simpa using hfound
      exact ⟨hcompletes.absent _ hname hnone, hcompletes.length_settingsNamed hname hnone⟩
    · have hsome := hfound.1 (Option.isSome_iff_ne_none.2 hsome)
      rw [hcompletes.present _ hname hsome]
  refine ⟨info, root', back, h, by rwa [String.toList_ofList], hcompletes.name, hback, ?_,
    fun name found hmem => ?_⟩
  · rw [hconf, hcompletes.count]
  · rw [(hcount _).1, (hcount _).2, hconf]
    simp only [List.mem_cons, Prod.mk.injEq, List.not_mem_nil, or_false] at hmem
    rcases hmem with ⟨rfl, rfl⟩ | ⟨rfl, rfl⟩
    · exact hput (by simp) hd.designMode
    · exact hput (by simp) hd.collectSource

/-- Two configurations, of which one has a setting twice. -/
def unevenConfigurations : String :=
  "<RunSettings><RunConfiguration><DesignMode/><DesignMode/></RunConfiguration><RunConfiguration/></RunSettings>"

theorem uneven_configurations_get_what_is_absent :
    ∃ m, merge unevenConfigurations true 10 = .ok m ∧
      elementsAt (designModeName.toList :: configurationPath) m.xml = 2 ∧
      elementsAt (collectSourceName.toList :: configurationPath) m.xml = 2 := by
  have hread : Markup.read unevenConfigurations.toList =
      ⟨[.start rootName, .start configurationName, .empty designModeName.toList,
        .empty designModeName.toList, .close configurationName, .empty configurationName,
        .close rootName], none⟩ := by decide +kernel
  have hdocument : orEmptyDocument unevenConfigurations.toList = unevenConfigurations.toList :=
    orEmptyDocument_eq (by decide +kernel)
  have hinspect : inspect unevenConfigurations.toList = .ok ⟨none, true, some "", none⟩ := by
    rw [inspect, hdocument, hread]
    decide +kernel
  have hslash : ∀ content, .empty content ∈ (Markup.read unevenConfigurations.toList).events →
      content.getLast? ≠ some '/' := by
    intro content hc
    have hc : content = designModeName.toList ∨ content = configurationName := by
      simpa [hread, or_assoc] using hc
    rcases hc with rfl | rfl <;> decide
  have hconf : elementsAt configurationPath unevenConfigurations = 2 := by
    rw [elementsAt, hdocument, hread]
    decide +kernel
  have hdesign : elementsAt (designModeName.toList :: configurationPath) unevenConfigurations = 2 := by
    rw [elementsAt, hdocument, hread]
    decide +kernel
  obtain ⟨m, hm⟩ : ∃ m, merge unevenConfigurations true 10 = .ok m := ⟨_, merge_of_ok hinspect true 10⟩
  obtain ⟨info, root, back, hinfo, -, -, -, -, hput⟩ := absent_setting_is_put_once hm hslash
  obtain rfl := Except.ok.inj (hinfo.symm.trans hinspect)
  obtain ⟨-, hkept⟩ := hput designModeName (some "") (by simp)
  obtain ⟨habsent, -⟩ := hput collectSourceName none (by simp)
  exact ⟨m, hm, (hkept (by simp)).trans hdesign, (habsent rfl).2.trans (by rw [hconf]; rfl)⟩

/-- Two configurations, neither of which has a setting. -/
def bareConfigurations : String :=
  "<RunSettings><RunConfiguration/><RunConfiguration/></RunSettings>"

theorem bare_configurations_get_default_twice :
    ∃ info m, inspect bareConfigurations.toList = .ok info ∧ info.designMode = none ∧
      (∀ content, .empty content ∈ (Markup.read bareConfigurations.toList).events →
        content.getLast? ≠ some '/') ∧
      merge bareConfigurations false 10 = .ok m ∧
      elementsAt (designModeName.toList :: configurationPath) m.xml = 2 := by
  have hread : Markup.read bareConfigurations.toList =
      ⟨[.start rootName, .empty configurationName, .empty configurationName, .close rootName],
        none⟩ := by decide +kernel
  have hdocument : orEmptyDocument bareConfigurations.toList = bareConfigurations.toList :=
    orEmptyDocument_eq (by decide +kernel)
  have hinspect : inspect bareConfigurations.toList = .ok ⟨none, true, none, none⟩ := by
    rw [inspect, hdocument, hread]
    decide +kernel
  have hslash : ∀ content, .empty content ∈ (Markup.read bareConfigurations.toList).events →
      content.getLast? ≠ some '/' := by
    intro content hc
    obtain rfl : content = configurationName := by simpa [hread] using hc
    decide
  obtain ⟨root, root', -, hd, hcompletes, -, -, hconf, hcount⟩ := exists_counted hinspect hslash false
  have htwo : elementsAt configurationPath bareConfigurations = 2 := by
    rw [elementsAt, hdocument, hread]
    decide +kernel
  have hnone : settingsNamed designModeName.toList root = [] := by simpa using hd.designMode
  refine ⟨_, _, hinspect, rfl, hslash, merge_of_ok hinspect false 10, (hcount _).2.trans ?_⟩
  rw [hcompletes.length_settingsNamed (by simp) hnone, ← hconf, htwo]
  rfl

end
end Proctor.Settings
