import Proctor.Proofs.Settings.Inspection

/-! # Inspecting what was filled in

The elements that a merge writes are seen by an inspection and change nothing else in it. An
inspection that has seen them goes on like one that has not, as long as the document does not bring
the same elements itself. -/

namespace Proctor.Settings
open Proctor.Markup Proctor.Text

/-- The values of the elements that are filled in; `none` for one that is not. -/
structure Defaults where
  designMode : Option String
  collectSource : Option String
  deriving Repr, DecidableEq

namespace Defaults

def nothing : Defaults := ⟨none, none⟩

/-- What an inspected document is to be filled with. -/
def lacking (info : Info) (designMode : Bool) : Defaults :=
  let flag := String.ofList (flagText designMode)
  ⟨if info.designMode.isSome then none else some flag,
    if info.collectSource.isSome then none else some flag⟩

/-- An element that is filled in was not found. -/
structure Fits (d : Defaults) (i : Inspection) : Prop where
  designMode : d.designMode.isSome → i.designMode = none
  collectSource : d.collectSource.isSome → i.collectSource = none

theorem fits_nothing (i : Inspection) : nothing.Fits i := ⟨nofun, nofun⟩

end Defaults

namespace Inspection
variable {i j : Inspection} {d : Defaults} {e : Event} {name : List Char}

/-! ### What is not found in the end was never found -/

theorem Enters.fits (h : i.Enters name j) (hd : d.Fits j) : d.Fits i := by
  cases h with
  | root _ _ _ | configuration _ _ | other _ _ _ _ => exact ⟨hd.designMode, hd.collectSource⟩
  | designMode _ _ => exact ⟨fun hs => by simpa using hd.designMode hs, hd.collectSource⟩
  | collectSource _ _ => exact ⟨hd.designMode, fun hs => by simpa using hd.collectSource hs⟩

theorem Hears.fits {content : List Char} (h : i.Hears content j) (hd : d.Fits j) : d.Fits i := by
  cases h with
  | batchSize _ | other _ _ _ => exact ⟨hd.designMode, hd.collectSource⟩
  | designMode _ => exact ⟨fun hs => by simpa using hd.designMode hs, hd.collectSource⟩
  | collectSource _ => exact ⟨hd.designMode, fun hs => by simpa using hd.collectSource hs⟩

theorem fits_of_step (h : i.step e = .ok j) (hd : d.Fits j) : d.Fits i := by
  cases e with
  | start content =>
    obtain ⟨k, hk, h⟩ := bind_eq_ok.1 h
    obtain rfl := pure_eq_ok.1 h
    exact (enter_eq_ok.1 hk).fits ⟨hd.designMode, hd.collectSource⟩
  | empty content => exact (enter_eq_ok.1 h).fits hd
  | text content =>
    exact (addText_eq.1 (Except.ok.inj h)).fits hd
  | close _ | comment _ | cdata _ | instruction _ | doctype _ =>
    cases h
    exact ⟨hd.designMode, hd.collectSource⟩

theorem fits_of_foldlM {events : List Event} (h : events.foldlM step i = .ok j)
    (hd : d.Fits j) : d.Fits i := by
  induction events generalizing i with
  | nil =>
    obtain rfl := pure_eq_ok.1 h
    exact hd
  | cons e events ih =>
    obtain ⟨k, hk, h⟩ := foldlM_cons_eq_ok.1 h
    exact fits_of_step hk (ih h)

/-! ### Going on after elements were filled in -/

/-- The inspection with the values of elements that were filled in. -/
def fill (d : Defaults) (b : Bool) (i : Inspection) : Inspection :=
  { i with
    designMode := i.designMode.or d.designMode
    collectSource := i.collectSource.or d.collectSource
    hasRunConfiguration := b }

theorem eq_none_of_fits {v w : Option String} (h : v.isSome → w = none) (hw : w.isSome) :
    v = none := by
  cases v with
  | none => rfl
  | some _ => simp [h rfl] at hw

theorem Enters.fill (h : i.Enters name j) (hd : d.Fits j) (b : Bool) :
    ∃ b', (i.fill d b).Enters name (j.fill d b') := by
  cases h with
  | root hpath hroot hname => exact ⟨b, .root hpath hroot hname⟩
  | configuration hpath hname => exact ⟨true, .configuration hpath hname⟩
  | other hpath hconf hdesign hcollect => exact ⟨b, .other hpath hconf hdesign hcollect⟩
  | designMode hpath hname =>
    have hnone : d.designMode = none := eq_none_of_fits hd.designMode rfl
    have h : (i.fill d b).Enters name _ := .designMode hpath hname
    exact ⟨b, by simpa [Inspection.fill, hnone] using h⟩
  | collectSource hpath hname =>
    have hnone : d.collectSource = none := eq_none_of_fits hd.collectSource rfl
    have h : (i.fill d b).Enters name _ := .collectSource hpath hname
    exact ⟨b, by simpa [Inspection.fill, hnone] using h⟩

theorem Hears.fill {content : List Char} (h : i.Hears content j) (hd : d.Fits j) (b : Bool) :
    (i.fill d b).Hears content (j.fill d b) := by
  cases h with
  | batchSize hpath => exact .batchSize hpath
  | other hbatch hdesign hcollect => exact .other hbatch hdesign hcollect
  | designMode hpath =>
    have hnone : d.designMode = none := eq_none_of_fits hd.designMode rfl
    have h : (i.fill d b).Hears content _ := .designMode hpath
    simpa [Inspection.fill, hnone] using h
  | collectSource hpath =>
    have hnone : d.collectSource = none := eq_none_of_fits hd.collectSource rfl
    have h : (i.fill d b).Hears content _ := .collectSource hpath
    simpa [Inspection.fill, hnone] using h

/-- An event of the document changes an inspection that was filled in like one that was not. -/
theorem step_fill (h : i.step e = .ok j) (hd : d.Fits j) (b : Bool) :
    ∃ b', (i.fill d b).step e = .ok (j.fill d b') := by
  cases e with
  | start content =>
    obtain ⟨k, hk, h⟩ := bind_eq_ok.1 h
    obtain rfl := pure_eq_ok.1 h
    obtain ⟨b', hb⟩ := (enter_eq_ok.1 hk).fill ⟨hd.designMode, hd.collectSource⟩ b
    exact ⟨b', bind_eq_ok.2 ⟨_, enter_eq_ok.2 hb, rfl⟩⟩
  | empty content =>
    obtain ⟨b', hb⟩ := (enter_eq_ok.1 h).fill hd b
    exact ⟨b', enter_eq_ok.2 hb⟩
  | text content =>
    have hj := (addText_eq.1 (Except.ok.inj h)).fill hd b
    exact ⟨b, congrArg Except.ok (addText_eq.2 hj)⟩
  | close _ | comment _ | cdata _ | instruction _ | doctype _ =>
    cases h
    exact ⟨b, rfl⟩

/-! ### The elements that are filled in -/

/-- The inspection once the elements have been seen that are filled in. -/
def supply (d : Defaults) (i : Inspection) : Inspection :=
  { i with
    designMode := d.designMode.or i.designMode
    collectSource := d.collectSource.or i.collectSource }

theorem foldlM_element {content : List Char} {k : Inspection} (hname : tagName name = name)
    (henter : i.Enters name j) (htext : Hears { j with path := name :: i.path } content k) :
    (element name content).foldlM step i = .ok { k with path := i.path } := by
  have hstart := step_start (hname.symm ▸ henter)
  rw [hname] at hstart
  have hpath : k.path.tail = i.path := congrArg List.tail htext.path_eq
  refine foldlM_cons hstart (foldlM_cons (congrArg Except.ok (addText_eq.2 htext)) ?_)
  rw [← hpath]
  rfl

theorem trim_flagText (b : Bool) : trim (flagText b) = flagText b := by cases b <;> decide

theorem foldlM_designMode (hpath : i.path = configurationPath) (flag : Bool) :
    (element designModeName.toList (flagText flag)).foldlM step i =
      .ok { i with designMode := some (String.ofList (flagText flag)) } := by
  let inside : Inspection :=
    { i with
      path := designModeName.toList :: i.path
      designMode := some (i.designMode.getD "") }
  have htext : inside.Hears (flagText flag) _ :=
    .designMode (congrArg (designModeName.toList :: ·) hpath)
  rw [foldlM_element rfl (.designMode hpath rfl) htext, trim_flagText]

theorem foldlM_collectSource (hpath : i.path = configurationPath) (flag : Bool) :
    (element collectSourceName.toList (flagText flag)).foldlM step i =
      .ok { i with collectSource := some (String.ofList (flagText flag)) } := by
  let inside : Inspection :=
    { i with
      path := collectSourceName.toList :: i.path
      collectSource := some (i.collectSource.getD "") }
  have htext : inside.Hears (flagText flag) _ :=
    .collectSource (congrArg (collectSourceName.toList :: ·) hpath)
  rw [foldlM_element rfl (.collectSource hpath rfl) htext, trim_flagText]

/-- In a configuration, the missing elements are seen with the values that they are to have. -/
theorem foldlM_missing (hpath : i.path = configurationPath) (info : Info) (flag : Bool) :
    (missingElements info flag).foldlM step i = .ok (i.supply (.lacking info flag)) := by
  obtain ⟨batchSize, hasConfiguration, designMode, collectSource⟩ := info
  have hdesign := foldlM_designMode hpath flag
  cases designMode with
  | none =>
    let filled : Inspection := { i with designMode := some (String.ofList (flagText flag)) }
    have hcollect := foldlM_collectSource (i := filled) hpath flag
    cases collectSource with
    | none => exact foldlM_append hdesign hcollect
    | some _ => exact foldlM_append hdesign rfl
  | some _ =>
    cases collectSource with
    | none => exact foldlM_collectSource hpath flag
    | some _ => rfl

/-- In a root, a configuration with the missing elements is seen too. -/
theorem foldlM_withConfiguration (hpath : i.path = rootPath) (info : Info) (flag : Bool) :
    (withConfiguration (missingElements info flag)).foldlM step i =
      .ok { i.supply (.lacking info flag) with hasRunConfiguration := true } := by
  have hstart : i.step (.start configurationName) = .ok _ :=
    step_start (.configuration hpath rfl)
  refine foldlM_append (foldlM_cons hstart (foldlM_missing ?_ info flag)) ?_
  · exact congrArg (configurationName :: ·) hpath
  · rfl

end Inspection
end Proctor.Settings
