import Proctor.Proofs.Settings.Merge

/-! # Documents that a merge breaks

A tag that takes the missing elements in is written as a start tag. If its content ends in a `/`, it
is read as a tag that closes itself all the same, and what was to stand inside stands behind it. -/

namespace Proctor.Settings
open Proctor.Markup Proctor.Text

variable {info : Info} {flag : Bool}

theorem exists_breaks {path : Path} {events : List Event} (h : ¬ Unbroken path events) :
    ∃ front e back, events = front ++ e :: back ∧ Unbroken path front ∧
      Breaks (front.foldl follow path) e := by
  induction events generalizing path with
  | nil => exact absurd trivial h
  | cons e events ih =>
    by_cases hb : Breaks path e
    · exact ⟨[], e, events, rfl, trivial, hb⟩
    · have hu : ¬ Unbroken (follow path e) events := fun hu => h ⟨hb, hu⟩
      obtain ⟨front, f, back, rfl, hfront, hf⟩ := ih hu
      exact ⟨e :: front, f, back, rfl, ⟨hb, hfront⟩, hf⟩

theorem legible_split {opened opened' : Opened} {a b : List Event} {e : Event}
    (h : Legible opened (a ++ e :: b) opened') :
    Legible opened a (a.foldl follow opened) ∧
      Stands (a.foldl follow opened) e (follow (a.foldl follow opened) e) := by
  induction a generalizing opened with
  | nil =>
    cases h with
    | cons first _ _ => exact ⟨.nil opened, follow_of_stands first ▸ first⟩
  | cons f a ih =>
    cases h with
    | cons first rest hsep =>
      obtain rfl := follow_of_stands first
      obtain ⟨ha, he⟩ := ih rest
      refine ⟨.cons first ha fun ht g hg => hsep ht g ?_, he⟩
      cases a with
      | nil => cases hg
      | cons g' a => exact hg

/-- A document that goes on like this is rejected. -/
def Rejected (i : Inspection) (r : Reading) : Prop :=
  r.error?.isSome ∨ ∀ j, r.events.foldlM Inspection.step i ≠ .ok j

/-- Behind a root that still closes itself, the configuration would be a second root. -/
theorem Inspection.foldlM_second_root {i : Inspection} (hpath : i.path = [])
    (content : List Char) (events : List Event) (j : Inspection) :
    (.empty content :: .start configurationName :: events).foldlM step i ≠ .ok j := by
  intro h
  obtain ⟨k, hk, h⟩ := foldlM_cons_eq_ok.1 h
  obtain ⟨l, hl, -⟩ := foldlM_cons_eq_ok.1 h
  obtain ⟨l', hl', -⟩ := bind_eq_ok.1 hl
  obtain ⟨-, -, rfl⟩ := (enter_eq_ok.1 hk).of_path_eq_nil hpath
  obtain ⟨hroot, -, -⟩ := (enter_eq_ok.1 hl').of_path_eq_nil hpath
  cases hroot

/-- A configuration that still closes itself leaves its end tag without a start. -/
theorem error_of_close_in_root (rest : List Char) :
    (readFrom rootPath ((Event.close configurationName).render ++ rest)).error?.isSome := by
  have hne : configurationName ≠ rootName := by decide
  have hnext := writable_configurationName.next_close_of_ne hne [] rest
  have hs : (Event.close configurationName).render ++ rest ≠ [] := List.cons_ne_nil _ _
  rw [rootPath, readFrom_of_error hs hnext]
  rfl

theorem rejected_of_breaks {i : Inspection} {path : Path} {e : Event} (hpath : i.path = path)
    (he : Stands path e path) (hb : Breaks path e) (info : Info) (flag H : Bool)
    (rest : List Char) :
    Rejected i
      (readFrom path (Markup.render (inject (missingElements info flag) H path e) ++ rest)) := by
  obtain ⟨hr, content, rfl, hlast⟩ := hb
  obtain ⟨front, rfl⟩ := List.getLast?_eq_some_iff.1 hlast
  obtain ⟨hempty, hrender⟩ := he.empty_of_empty
  rcases hr with ⟨hroot, hname⟩ | ⟨hconf, hname⟩
  · right
    intro j
    have hstart := writable_configurationName.stands_start path
    rw [inject_root hroot hname, withConfiguration]
    simp only [List.cons_append, render_cons, List.append_assoc, hrender]
    rw [readFrom_of_stands hempty (by simp [Event.isText]),
      readFrom_of_stands hstart (by simp [Event.isText])]
    exact Inspection.foldlM_second_root (hpath.trans hroot) front _ j
  · left
    have hmissing : Legible path (missingElements info flag) path := by
      simpa using legible_missing_append info flag (.nil path)
    rw [inject_configuration hconf hname]
    simp only [List.cons_append, render_cons, render_append, List.append_assoc, hrender]
    rw [readFrom_of_stands hempty (by simp [Event.isText]),
      hmissing.readFrom_render (by rintro c ⟨⟩; rfl), hconf]
    exact error_of_close_in_root _

theorem head?_of_breaks {path : Path} {e : Event} {missing : List Event} {H : Bool}
    (hb : Breaks path e) (rest : List Char) :
    (Markup.render (inject missing H path e) ++ rest).head? = some '<' := by
  obtain ⟨hr, content, rfl, -⟩ := hb
  rcases hr with ⟨hpath, hname⟩ | ⟨hpath, hname⟩
  · rw [inject_root hpath hname]
    rfl
  · rw [inject_configuration hpath hname]
    rfl

/-- If an event breaks it, the written document is rejected. -/
theorem inspect_written_of_broken {s : List Char} (h : inspect s = .ok info)
    (hm : ¬ (missingElements info flag).isEmpty)
    (hu : ¬ Unbroken [] (Markup.read (orEmptyDocument s)).events) (info' : Info) :
    inspect (written s info flag) ≠ .ok info' := by
  obtain ⟨opened, hlegible⟩ := exists_legible h
  obtain ⟨front, e, back, hevents, hfront, hb⟩ := exists_breaks hu
  rw [hevents] at hlegible
  obtain ⟨hlegible, he⟩ := legible_split hlegible
  let path : Path := front.foldl follow []
  let missing := missingElements info flag
  let H := info.hasRunConfiguration
  let tail := Markup.render (inject missing H path e) ++
    Markup.render (injectAll missing H (follow path e) back)
  have hwritten : written s info flag = Markup.render (injectAll missing H [] front) ++ tail := by
    rw [written, if_neg hm, hevents, injectAll_append, render_append]
    show _ ++ Markup.render (inject missing H path e ++ _) = _
    rw [render_append]
  have hhead : tail.head? = some '<' := head?_of_breaks hb _
  have hmarkup : AtMarkup tail := by
    intro c hc
    exact Option.some.inj (hc.symm.trans hhead)
  have hblank : ¬ allBlank (written s info flag) := by
    intro hall
    rw [hwritten, allBlank_append] at hall
    exact absurd (List.all_eq_true.1 hall.2 '<' (List.mem_of_mem_head? hhead)) (by decide)
  have hinjected : Legible [] (injectAll missing H [] front) path :=
    legible_injectAll hlegible hfront
  intro hok
  rw [inspect, orEmptyDocument_eq hblank, inspectReading_read, hwritten,
    hinjected.readFrom_render hmarkup] at hok
  obtain ⟨herror, k, hfold, -⟩ := inspectReading_eq_ok.1 hok
  obtain ⟨i, hi, hfold⟩ := foldlM_append_eq_ok.1 hfold
  have hpath : i.path = path := by
    rw [Inspection.path_of_foldlM hi]
    exact (follow_of_legible hinjected).symm
  have hself : follow path e = path := by
    obtain ⟨-, content, rfl, -⟩ := hb
    rfl
  have he : Stands path e (follow path e) := he
  rw [hself] at he
  have hrejected : Rejected i (readFrom path tail) :=
    rejected_of_breaks hpath he hb info flag H _
  rcases hrejected with hr | hr
  · rw [herror] at hr
    cases hr
  · exact hr k hfold

/-- What a merge writes is accepted again exactly if nothing was missing or no tag that takes the
missing elements in closes itself behind another `/`. -/
theorem merged_is_accepted_iff {xml : String} {flag : Bool} {n : Nat} {m : Merged}
    (h : merge xml flag n = .ok m) :
    ∃ info, inspect xml.toList = .ok info ∧
      ((∃ info', inspect m.xml.toList = .ok info') ↔
        info.designMode.isSome ∧ info.collectSource.isSome ∨
          Unbroken [] (Markup.read (orEmptyDocument xml.toList)).events) := by
  obtain ⟨info, hinfo, rfl⟩ := exists_of_merge h
  refine ⟨info, hinfo, ?_⟩
  rw [String.toList_ofList, ← missing_isEmpty_iff]
  constructor
  · rintro ⟨info', hok⟩
    by_contra hnot
    obtain ⟨hm, hu⟩ := not_or.1 hnot
    exact inspect_written_of_broken hinfo hm hu info' hok
  · intro hu
    obtain ⟨b, hb⟩ := inspectReading_written hinfo hu
    exact ⟨_, inspect_eq hb⟩

/-- Behind another `/`, a root that takes the missing elements in is not opened. -/
theorem merge_breaks_self_closing_root :
    ∃ m, merge "<RunSettings //>" false 10 = .ok m ∧
      ¬ ∃ info, inspect m.xml.toList = .ok info := by
  have hevents : (Markup.read "<RunSettings //>".toList).events =
      [.empty "RunSettings /".toList] := by decide +kernel
  have hinspect : inspect "<RunSettings //>".toList = .ok ⟨none, false, none, none⟩ := by
    decide +kernel
  have hm := merge_of_ok hinspect false 10
  refine ⟨_, hm, fun hok => ?_⟩
  obtain ⟨info, hinfo, hiff⟩ := merged_is_accepted_iff hm
  obtain rfl := Except.ok.inj (hinfo.symm.trans hinspect)
  rcases hiff.1 hok with ⟨hd, -⟩ | hu
  · cases hd
  · have hdocument : orEmptyDocument "<RunSettings //>".toList = "<RunSettings //>".toList := rfl
    rw [hdocument, hevents] at hu
    exact hu.1 ⟨.inl ⟨rfl, by decide⟩, _, rfl, by decide⟩

end Proctor.Settings
