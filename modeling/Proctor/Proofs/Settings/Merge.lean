import Proctor.Proofs.Settings.Written
import Proctor.Proofs.Text.Trim

/-! # Merging defaults into run settings

A merge fails as inspection fails. What it writes says all that the document said, and has the flag
where the document said nothing. -/

namespace Proctor.Settings
open Proctor.Markup Proctor.Text

/-! ### Reading a document -/

/-- Text in front of the first markup is not looked at. -/
theorem inspectReading_dropWhile (s : List Char) :
    inspectReading (readFrom [] s) = inspectReading (readFrom [] (s.dropWhile (· != '<'))) :=
  apply_readFrom_dropWhile (fun _ _ => rfl) [] s

theorem inspectReading_read (s : List Char) :
    inspectReading (Markup.read s) = inspectReading (readFrom [] s) :=
  apply_read (fun _ _ => rfl) s

theorem not_allBlank_of_ok {s : List Char} {info : Info}
    (h : inspectReading (Markup.read s) = .ok info) : ¬ allBlank s := by
  intro hs
  have hnil : s.dropWhile (· != '<') = [] := by
    rw [List.dropWhile_eq_nil_iff]
    intro c hc
    have hblank := List.all_eq_true.1 hs c hc
    have hne : c ≠ '<' := by
      rintro rfl
      exact absurd hblank (by decide)
    simpa using hne
  rw [inspectReading_read, inspectReading_dropWhile, hnil, readFrom_nil] at h
  cases h

theorem orEmptyDocument_eq {s : List Char} (hs : ¬ allBlank s) : orEmptyDocument s = s := if_neg hs

theorem inspect_eq {s : List Char} {info : Info} (h : inspectReading (Markup.read s) = .ok info) :
    inspect s = .ok info := by
  rw [inspect, orEmptyDocument_eq (not_allBlank_of_ok h), h]

/-! ### Merging -/

/-- The text of a merge, given what the inspection found. -/
def written (s : List Char) (info : Info) (flag : Bool) : List Char :=
  if (missingElements info flag).isEmpty then orEmptyDocument s
  else
    Markup.render (injectAll (missingElements info flag) info.hasRunConfiguration []
      (Markup.read (orEmptyDocument s)).events)

variable {xml : String} {flag : Bool} {n : Nat} {m : Merged} {info : Info}

theorem merge_of_ok (h : inspect xml.toList = .ok info) (flag : Bool) (n : Nat) :
    merge xml flag n =
      .ok ⟨String.ofList (written xml.toList info flag), info.batchSize.getD n⟩ := by
  have h : inspectReading (Markup.read (orEmptyDocument xml.toList)) = .ok info := h
  rw [merge, h]
  rfl

theorem merge_eq_error {e : SettingsError} :
    merge xml flag n = .error e ↔ inspect xml.toList = .error e := by
  cases h : inspect xml.toList with
  | ok info => simp [merge_of_ok h]
  | error e' =>
    have h : inspectReading (Markup.read (orEmptyDocument xml.toList)) = .error e' := h
    rw [merge, h]
    simp [bind, Except.bind]

theorem exists_of_merge (h : merge xml flag n = .ok m) :
    ∃ info, inspect xml.toList = .ok info ∧
      m = ⟨String.ofList (written xml.toList info flag), info.batchSize.getD n⟩ := by
  cases hi : inspect xml.toList with
  | ok info => exact ⟨info, rfl, Except.ok.inj (h.symm.trans (merge_of_ok hi flag n))⟩
  | error e => cases h.symm.trans (merge_eq_error.2 hi)

/-! ### The written document is read back -/

theorem exists_readFrom (s : List Char) : ∃ s', Markup.read s = readFrom [] s' := by
  unfold Markup.read
  split
  · next rest => exact ⟨rest, rfl⟩
  · exact ⟨s, rfl⟩

/-- The events of a document without an error can be written and read again. -/
theorem exists_legible {s : List Char} (h : inspectReading (Markup.read s) = .ok info) :
    ∃ opened, Legible [] (Markup.read s).events opened := by
  obtain ⟨s', hs'⟩ := exists_readFrom s
  obtain ⟨herror, -⟩ := inspectReading_eq_ok.1 h
  rw [hs'] at herror ⊢
  exact legible_of_readFrom (by rw [← herror])

/-- In a document that is accepted, no element is left open. -/
theorem legible_of_ok {s : List Char} (h : inspectReading (Markup.read s) = .ok info) :
    Legible [] (Markup.read s).events [] := by
  obtain ⟨opened, hlegible⟩ := exists_legible h
  obtain ⟨-, i, hfold, hi⟩ := inspectReading_eq_ok.1 h
  obtain ⟨hpath, -⟩ := Inspection.conclude_eq_ok.1 hi
  have hfollow := Inspection.path_of_foldlM hfold
  obtain rfl : opened = [] := (follow_of_legible hlegible).trans (hfollow.symm.trans hpath)
  exact hlegible

theorem missing_isEmpty_iff :
    (missingElements info flag).isEmpty ↔ info.designMode.isSome ∧ info.collectSource.isSome := by
  obtain ⟨batchSize, hasConfiguration, designMode, collectSource⟩ := info
  cases designMode <;> cases collectSource <;> simp [missingElements, element]

theorem filled_of_complete (h : (missingElements info flag).isEmpty) :
    info.filled flag info.hasRunConfiguration = info := by
  obtain ⟨batchSize, hasConfiguration, designMode, collectSource⟩ := info
  cases designMode <;> cases collectSource <;> first | rfl | cases h

/-- As long as no event breaks it, the written document says what the document said, with the
defaults filled in. -/
theorem inspectReading_written {s : List Char} (h : inspect s = .ok info)
    (hu : (missingElements info flag).isEmpty ∨
      Unbroken [] (Markup.read (orEmptyDocument s)).events) :
    ∃ b, inspectReading (Markup.read (written s info flag)) = .ok (info.filled flag b) := by
  by_cases hm : (missingElements info flag).isEmpty
  · refine ⟨info.hasRunConfiguration, ?_⟩
    rw [written, if_pos hm, filled_of_complete hm]
    exact h
  · obtain ⟨opened, hlegible⟩ := exists_legible h
    have hinjected : Legible [] (injectAll (missingElements info flag) info.hasRunConfiguration []
        (Markup.read (orEmptyDocument s)).events) opened :=
      legible_injectAll hlegible (hu.resolve_left hm)
    obtain ⟨b, hb⟩ := inspectReading_injectAll h flag
    rw [written, if_neg hm, inspectReading_read, hinjected.readFrom_eq]
    exact ⟨b, hb⟩

/-! ### What a merge does -/

theorem unbroken_of_forall {path : Path} {events : List Event}
    (h : ∀ content, .empty content ∈ events → content.getLast? ≠ some '/') :
    Unbroken path events := by
  induction events generalizing path with
  | nil => trivial
  | cons e events ih =>
    refine ⟨?_, ih fun content hc => h content (by simp [hc])⟩
    rintro ⟨-, content, rfl, hlast⟩
    exact h content (by simp) hlast

theorem read_emptyDocument :
    (Markup.read "<RunSettings></RunSettings>".toList).events =
      [.start rootName, .close rootName] := by
  have hclose := writable_rootName.stands_close []
  have h : Legible [] [.start rootName, .close rootName] [] :=
    .cons_markup (writable_rootName.stands_start []) nofun (.cons_markup hclose nofun (.nil []))
  exact congrArg Reading.events h.readFrom_eq

/-- A blank text has no tags, and neither has the document that it stands for tags of that kind. -/
theorem unbroken_orEmptyDocument {s : List Char}
    (h : ∀ content, .empty content ∈ (Markup.read s).events → content.getLast? ≠ some '/') :
    Unbroken [] (Markup.read (orEmptyDocument s)).events := by
  by_cases hs : allBlank s
  · have hdocument : orEmptyDocument s = "<RunSettings></RunSettings>".toList := if_pos hs
    rw [hdocument, read_emptyDocument]
    exact unbroken_of_forall (by simp)
  · rw [orEmptyDocument_eq hs]
    exact unbroken_of_forall h

/-- A merge fails exactly if inspection does, and with the same error. Unless a tag that closes
itself has another `/` at its end, the merged settings say what the settings said and have the flag
where they said nothing, and merging them again changes nothing. -/
theorem merge_fills_defaults (xml : String) (flag : Bool) (n : Nat) :
    (∀ e, merge xml flag n = .error e ↔ inspect xml.toList = .error e) ∧
    ∀ m, merge xml flag n = .ok m →
      (∀ content, .empty content ∈ (Markup.read xml.toList).events →
        content.getLast? ≠ some '/') →
      ∃ info info', inspect xml.toList = .ok info ∧ inspect m.xml.toList = .ok info' ∧
        info'.batchSize = info.batchSize ∧
        info'.designMode = some (info.designMode.getD (String.ofList (flagText flag))) ∧
        info'.collectSource = some (info.collectSource.getD (String.ofList (flagText flag))) ∧
        m.batchSize = info.batchSize.getD n ∧
        ∀ flag', merge m.xml flag' n = .ok m := by
  refine ⟨fun e => merge_eq_error, fun m hm hslash => ?_⟩
  obtain ⟨info, hinfo, rfl⟩ := exists_of_merge hm
  obtain ⟨b, hb⟩ := inspectReading_written hinfo (.inr (unbroken_orEmptyDocument hslash))
  have hinfo' : inspect (String.ofList (written xml.toList info flag)).toList =
      .ok (info.filled flag b) := by
    rw [String.toList_ofList]
    exact inspect_eq hb
  refine ⟨info, info.filled flag b, hinfo, hinfo', rfl, rfl, rfl, rfl, fun flag' => ?_⟩
  rw [merge_of_ok hinfo', written, String.toList_ofList, orEmptyDocument_eq (not_allBlank_of_ok hb)]
  rfl

theorem empty_element_is_kept :
    ∃ m info', merge "<RunSettings><RunConfiguration><DesignMode/></RunConfiguration></RunSettings>"
        true 10 = .ok m ∧
      inspect m.xml.toList = .ok info' ∧ info'.designMode = some "" ∧
      info'.collectSource = some "True" ∧ merge m.xml false 10 = .ok m := by
  let xml := "<RunSettings><RunConfiguration><DesignMode/></RunConfiguration></RunSettings>"
  have hevents : (Markup.read xml.toList).events =
      [.start rootName, .start configurationName, .empty designModeName.toList,
        .close configurationName, .close rootName] := by decide +kernel
  have hslash : ∀ content, .empty content ∈ (Markup.read xml.toList).events →
      content.getLast? ≠ some '/' := by
    intro content hc
    obtain rfl : content = designModeName.toList := by simpa [hevents] using hc
    decide
  have hinspect : inspect xml.toList = .ok ⟨none, true, some "", none⟩ := by decide +kernel
  obtain ⟨m, hm⟩ : ∃ m, merge xml true 10 = .ok m := ⟨_, merge_of_ok hinspect true 10⟩
  obtain ⟨info, info', hinfo, hinfo', -, hd, hc, -, hagain⟩ :=
    (merge_fills_defaults xml true 10).2 m hm hslash
  obtain rfl := Except.ok.inj (hinfo.symm.trans hinspect)
  exact ⟨m, info', hm, hinfo', hd, hc, hagain false⟩

end Proctor.Settings
