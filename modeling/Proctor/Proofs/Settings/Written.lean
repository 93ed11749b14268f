import Proctor.Proofs.Markup.Legible
import Proctor.Proofs.Settings.Injection

/-! # The text that a merge writes

What a merge writes is read as the events that it wrote, unless it takes elements into a tag that
closes itself and has a `/` at the end of its content. Such a tag still closes itself when it is
written as a start tag, and the document is rejected. -/

namespace Proctor.Markup

/-- A name that can stand in tags by itself. -/
structure Writable (name : List Char) : Prop where
  end_eq : tagEnd none (name ++ ['>']) = some (name, [])
  opens : OpensTag name
  last : name.getLast? ≠ some '/'
  tagName_eq : tagName name = name
  endName_eq : endName name = name

section
variable {opened opened' : Opened} {name content : List Char} {events : List Event}

theorem Writable.stands_start (h : Writable name) (opened : Opened) :
    Stands opened (.start name) (name :: opened) := by
  have hs : Stands opened (.start name) (tagName name :: opened) :=
    .start (delimited_of_tagEnd h.end_eq) h.opens h.last
  rwa [h.tagName_eq] at hs

theorem Writable.stands_close (h : Writable name) (opened : Opened) :
    Stands (name :: opened) (.close name) opened :=
  .close (delimited_of_tagEnd h.end_eq) h.endName_eq

/-- An end tag that does not match the open element ends the reading. -/
theorem Writable.next_close_of_ne (h : Writable name) {expected : List Char}
    (hne : name ≠ expected) (opened : Opened) (rest : List Char) :
    next (expected :: opened) ((Event.close name).render ++ rest) =
      .error (.mismatchedEnd (String.ofList expected) (String.ofList name)) := by
  have hscan : tagEnd none (name ++ '>' :: rest) = some (name, rest) := by
    simpa using delimited_of_tagEnd h.end_eq rest
  simp [next, endTag, hscan, h.endName_eq, hne]

theorem delimited_of_slash (h : Delimited (tagEnd none) ['>'] (content ++ ['/'])) :
    Delimited (tagEnd none) ['>'] content := by
  have hslash : ∀ c ∈ ['/'], ¬ IsQuote c := by simp [IsQuote]
  have hscan := h []
  rw [List.append_nil] at hscan
  exact delimited_of_tagEnd_append (by simp) hslash hscan

/-- A tag that closes itself can be told from what follows it as a start tag too. -/
theorem Stands.start_of_empty (h : Stands opened (.empty content) opened')
    (hlast : content.getLast? ≠ some '/') :
    Stands opened (.start content) (tagName content :: opened) := by
  cases h with
  | empty hend hopens =>
    exact .start (delimited_of_slash hend) hopens.of_append hlast

/-- With a `/` at its end, what is written as a start tag is read as a tag that closes itself. -/
theorem Stands.empty_of_empty (h : Stands opened (.empty (content ++ ['/'])) opened') :
    Stands opened (.empty content) opened ∧
      (Event.start (content ++ ['/'])).render = (Event.empty content).render := by
  cases h with
  | empty hend hopens =>
    exact ⟨.empty (delimited_of_slash hend) hopens.of_append, by simp⟩

theorem Legible.cons_markup {opened₁ : Opened} {e : Event} (h : Stands opened e opened₁)
    (ht : ¬ e.isText) (hrest : Legible opened₁ events opened') :
    Legible opened (e :: events) opened' :=
  .cons h hrest fun ht' => absurd ht' ht

end

end Proctor.Markup

namespace Proctor.Settings
open Proctor.Markup Proctor.Text

theorem writable_rootName : Writable rootName :=
  ⟨by decide, by decide, by decide, by decide, by decide⟩

theorem writable_configurationName : Writable configurationName :=
  ⟨by decide, by decide, by decide, by decide, by decide⟩

theorem writable_designModeName : Writable designModeName.toList :=
  ⟨by decide, by decide, by decide, by decide, by decide⟩

theorem writable_collectSourceName : Writable collectSourceName.toList :=
  ⟨by decide, by decide, by decide, by decide, by decide⟩

section
variable {opened opened' : Opened} {name content : List Char} {events : List Event} {e : Event}
variable {info : Info} {flag H : Bool}

theorem legible_element_append (hname : Writable name) (flag : Bool)
    (h : Legible opened events opened') :
    Legible opened (element name (flagText flag) ++ events) opened' := by
  have htext : Stands (name :: opened) (.text (flagText flag)) (name :: opened) := by
    cases flag <;> exact .text (by decide) (by decide)
  have hclose := Legible.cons_markup (hname.stands_close opened) nofun h
  exact .cons_markup (hname.stands_start opened) nofun (.cons htext hclose (by simp [Event.isText]))

theorem legible_missing_append (info : Info) (flag : Bool) (h : Legible opened events opened') :
    Legible opened (missingElements info flag ++ events) opened' := by
  have hcollect : Legible opened
      ((if info.collectSource.isSome then []
        else element collectSourceName.toList (flagText flag)) ++ events) opened' := by
    split
    · exact h
    · exact legible_element_append writable_collectSourceName flag h
  rw [missingElements, List.append_assoc]
  dsimp only
  split
  · exact hcollect
  · exact legible_element_append writable_designModeName flag hcollect

theorem legible_withConfiguration_append (info : Info) (flag : Bool)
    (h : Legible opened events opened') :
    Legible opened (withConfiguration (missingElements info flag) ++ events) opened' := by
  have hclose := Legible.cons_markup (writable_configurationName.stands_close opened) nofun h
  have hmissing := legible_missing_append info flag hclose
  have hstart := Legible.cons_markup (writable_configurationName.stands_start opened) nofun hmissing
  simpa [withConfiguration] using hstart

/-- A tag that closes itself still does so when it is written as a start tag. -/
def Breaks (path : Path) (e : Event) : Prop :=
  Receives true path e ∧ ∃ content, e = .empty content ∧ content.getLast? = some '/'

/-- No event breaks the document when elements are taken in. -/
def Unbroken : Path → List Event → Prop
  | _, [] => True
  | path, e :: events => ¬ Breaks path e ∧ Unbroken (follow path e) events

theorem follow_of_stands (h : Stands opened e opened') : opened' = follow opened e := by
  cases h <;> rfl

theorem follow_of_legible (h : Legible opened events opened') :
    opened' = events.foldl follow opened := by
  induction h with
  | nil => rfl
  | cons first _ _ ih => rw [ih, follow_of_stands first, List.foldl_cons]

theorem legible_inject_append {opened₁ : Opened} (he : Stands opened e opened₁)
    (hb : ¬ Breaks opened e) (h : Legible opened₁ events opened')
    (hsep : e.isText → ∀ f ∈ events.head?, ¬ f.isText) :
    Legible opened (inject (missingElements info flag) H opened e ++ events) opened' := by
  by_cases hr : Receives H opened e
  · cases e with
    | empty content =>
      have hlast : content.getLast? ≠ some '/' := fun hlast => hb ⟨hr, content, rfl, hlast⟩
      have hstart := he.start_of_empty hlast
      obtain rfl : opened₁ = opened := follow_of_stands he
      rcases hr with ⟨hpath, hname⟩ | ⟨hpath, hname⟩
      · have hclose := Legible.cons_markup (writable_rootName.stands_close opened₁) nofun h
        have hwith := legible_withConfiguration_append info flag hclose
        rw [inject_root hpath hname]
        simpa using Legible.cons_markup hstart nofun (hname ▸ hwith)
      · have hclose := Legible.cons_markup (writable_configurationName.stands_close opened₁) nofun h
        have hmissing := legible_missing_append info flag hclose
        rw [inject_configuration hpath hname]
        simpa using Legible.cons_markup hstart nofun (hname ▸ hmissing)
    | close name =>
      have hclose := Legible.cons_markup he nofun h
      rcases hr with hconf | hroot
      · rw [inject_close_configuration hconf, List.append_assoc]
        exact legible_missing_append info flag hclose
      · rw [inject_close_root hroot, List.append_assoc]
        exact legible_withConfiguration_append info flag hclose
    | start _ | text _ | comment _ | cdata _ | instruction _ | doctype _ => exact hr.elim
  · rw [inject_of_not_receives hr]
    exact .cons he h hsep

theorem not_isText_missing_append (info : Info) (flag : Bool)
    (h : ∀ f ∈ events.head?, ¬ f.isText) :
    ∀ f ∈ (missingElements info flag ++ events).head?, ¬ f.isText := by
  obtain ⟨batchSize, hasConfiguration, designMode, collectSource⟩ := info
  cases designMode <;> cases collectSource
  case some.some => exact h
  all_goals
    rintro f ⟨⟩
    nofun

/-- What takes the place of an event begins with text only if the event is text. -/
theorem not_isText_inject_append {path : Path} (he : ¬ e.isText) :
    ∀ f ∈ (inject (missingElements info flag) H path e ++ events).head?, ¬ f.isText := by
  by_cases hr : Receives H path e
  · cases e with
    | empty content =>
      rcases hr with ⟨hpath, hname⟩ | ⟨hpath, hname⟩
      · rw [inject_root hpath hname]
        rintro f ⟨⟩
        nofun
      · rw [inject_configuration hpath hname]
        rintro f ⟨⟩
        nofun
    | close name =>
      rcases hr with hconf | hroot
      · rw [inject_close_configuration hconf, List.append_assoc]
        refine not_isText_missing_append info flag ?_
        rintro f ⟨⟩
        nofun
      · rw [inject_close_root hroot]
        rintro f ⟨⟩
        nofun
    | start _ | text _ | comment _ | cdata _ | instruction _ | doctype _ => exact hr.elim
  · rw [inject_of_not_receives hr]
    rintro f ⟨⟩
    exact he

theorem legible_injectAll (h : Legible opened events opened') (hu : Unbroken opened events) :
    Legible opened (injectAll (missingElements info flag) H opened events) opened' := by
  induction h with
  | nil opened => exact .nil opened
  | @cons opened opened₁ opened' e events first rest hsep ih =>
    obtain ⟨hb, hu⟩ := hu
    obtain rfl := follow_of_stands first
    refine legible_inject_append first hb (ih hu) fun ht => ?_
    cases events with
    | nil => nofun
    | cons g events => exact not_isText_inject_append (hsep ht g rfl)

end
end Proctor.Settings
