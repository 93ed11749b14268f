import Proctor.Proofs.Settings.Elements

/-! # The text that an inspection keeps of a setting

Of the runs of text right in the elements of a setting, an inspection keeps the last. A flag is there
as soon as an element of its name begins, even if no text stands in it. -/

namespace Proctor.Settings
open Proctor.Markup Proctor.Text

/-- The settings that an inspection reads, in the order in which it checks them. -/
inductive Setting
  | batchSize
  | designMode
  | collectSource
  deriving Repr, DecidableEq

namespace Setting

def name : Setting → String
  | batchSize => batchSizeName
  | designMode => designModeName
  | collectSource => collectSourceName

/-- Where the elements of a setting stand. -/
def path (v : Setting) : Path := v.name.toList :: configurationPath

def isFlag : Setting → Bool
  | batchSize => false
  | designMode | collectSource => true

/-- What an inspection has found of a setting. -/
def found (i : Inspection) : Setting → Option String
  | batchSize => i.batchText
  | designMode => i.designMode
  | collectSource => i.collectSource

variable (v : Setting)

@[simp] theorem found_start : v.found {} = none := by cases v <;> rfl

@[simp] theorem found_path (i : Inspection) (p : Path) : v.found { i with path := p } = v.found i := by
  cases v <;> rfl

theorem path_inj {v w : Setting} : v.path = w.path ↔ v = w := by
  cases v <;> cases w <;> decide

theorem path_ne_nil : v.path ≠ [] := List.cons_ne_nil _ _

/-- A setting behind some events, given the runs of text right in its elements and the paths of the
elements that began. -/
def update (old : Option String) (runs : List (List Char)) (begun : List Path) : Option String :=
  match runs.getLast? with
  | some run => some (String.ofList (trim run))
  | none => if v.isFlag ∧ v.path ∈ begun then some (old.getD "") else old

@[simp] theorem update_nil (old : Option String) : v.update old [] [] = old := by simp [update]

/-- What comes later is taken up in the end, whatever was found before. -/
theorem update_update (old : Option String) (runs runs' : List (List Char))
    (begun begun' : List Path) :
    v.update (v.update old runs begun) runs' begun' =
      v.update old (runs ++ runs') (begun ++ begun') := by
  simp only [update, List.getLast?_append]
  cases runs'.getLast? with
  | some run => rfl
  | none =>
    cases runs.getLast? with
    | some run => simp
    | none => by_cases hflag : v.isFlag <;> by_cases hb : v.path ∈ begun <;> simp [hflag, hb]

/-- A run of text makes all that was found before it forgotten. -/
theorem update_append_of_ne_nil {runs : List (List Char)} (h : runs ≠ []) (old : Option String)
    (earlier earlier' : List (List Char)) (begun : List Path) :
    v.update old (earlier ++ runs) begun = v.update old (earlier' ++ runs) begun := by
  simp [update, List.getLast?_append, List.getLast?_eq_some_getLast h]

theorem update_concat (old : Option String) (runs : List (List Char)) (run : List Char)
    (begun : List Path) :
    v.update old (runs ++ [run]) begun = some (String.ofList (trim run)) := by simp [update]

end Setting

/-! ### The runs of text at a path -/

/-- The run of text that an event at a path is, if the path is the place. -/
def runAt (place path : Path) : Event → List (List Char)
  | .text content => if path = place then [content] else []
  | .start _ | .empty _ | .close _ | .comment _ | .cdata _ | .instruction _ | .doctype _ => []

/-- The runs of text that stand right at a place, in the order of the document. -/
def runsAt (place : Path) : Path → List Event → List (List Char)
  | _, [] => []
  | path, e :: events => runAt place path e ++ runsAt place (follow path e) events

section
variable {place path : Path} {e : Event} {events : List Event}

@[simp] theorem runsAt_nil : runsAt place path [] = [] := rfl

@[simp] theorem runsAt_cons :
    runsAt place path (e :: events) = runAt place path e ++ runsAt place (follow path e) events :=
  rfl

@[simp] theorem runsAt_append (a b : List Event) :
    runsAt place path (a ++ b) = runsAt place path a ++ runsAt place (a.foldl follow path) b := by
  induction a generalizing path with
  | nil => rfl
  | cons e a ih => simp [ih]

end

/-! ### What a step and what a run changes -/

namespace Inspection
variable {i j : Inspection} {name content : List Char} {e : Event} {events : List Event}
variable (v : Setting)

/-- An element that begins changes a setting if it is a flag of this name. -/
theorem Enters.found_eq (h : i.Enters name j) :
    v.found j = v.update (v.found i) [] [name :: i.path] := by
  have hpath : v.path = name :: i.path ↔ i.path = configurationPath ∧ name = v.name.toList := by
    rw [Setting.path, List.cons.injEq]
    exact ⟨fun h => ⟨h.2.symm, h.1.symm⟩, fun h => ⟨h.2.symm, h.1.symm⟩⟩
  simp only [Setting.update, List.getLast?_nil, List.mem_singleton, hpath]
  cases h with
  | root hp _ _ =>
    have hne : ¬ i.path = configurationPath := by rw [hp]; decide
    simp only [hne, false_and, and_false, if_false]
    cases v <;> rfl
  | configuration hp _ =>
    have hne : ¬ i.path = configurationPath := by rw [hp]; decide
    simp only [hne, false_and, and_false, if_false]
    cases v <;> rfl
  | designMode hp hname =>
    subst hname
    cases v with
    | batchSize => simp [Setting.isFlag, Setting.found]
    | designMode => simp [Setting.isFlag, Setting.found, Setting.name, hp]
    | collectSource =>
      have hne : designModeName.toList ≠ collectSourceName.toList := by decide
      simp [Setting.found, Setting.name, hne]
  | collectSource hp hname =>
    subst hname
    cases v with
    | batchSize => simp [Setting.isFlag, Setting.found]
    | designMode =>
      have hne : collectSourceName.toList ≠ designModeName.toList := by decide
      simp [Setting.found, Setting.name, hne]
    | collectSource => simp [Setting.isFlag, Setting.found, Setting.name, hp]
  | other _ _ hdesign hcollect =>
    refine (if_neg ?_).symm
    rintro ⟨hflag, hp⟩
    cases v with
    | batchSize => cases hflag
    | designMode => exact hdesign hp
    | collectSource => exact hcollect hp

/-- A run of text changes the setting in whose element it stands. -/
theorem Hears.found_eq (h : i.Hears content j) :
    v.found j = v.update (v.found i) (runAt v.path i.path (.text content)) [] := by
  have hother (w : Setting) (hw : v ≠ w) (hp : i.path = w.path) :
      v.update (v.found i) (runAt v.path i.path (.text content)) [] = v.found i := by
    have hne : i.path ≠ v.path := fun he => hw (Setting.path_inj.1 (he.symm.trans hp))
    simp [runAt, hne]
  have hself (hp : i.path = v.path) :
      v.update (v.found i) (runAt v.path i.path (.text content)) [] =
        some (String.ofList (trim content)) := by
    simp [runAt, hp, Setting.update]
  cases h with
  | batchSize hp =>
    cases v with
    | batchSize => exact (hself hp).symm
    | designMode | collectSource => exact (hother .batchSize (by decide) hp).symm
  | designMode hp =>
    cases v with
    | designMode => exact (hself hp).symm
    | batchSize | collectSource => exact (hother .designMode (by decide) hp).symm
  | collectSource hp =>
    cases v with
    | collectSource => exact (hself hp).symm
    | batchSize | designMode => exact (hother .collectSource (by decide) hp).symm
  | other hbatch hdesign hcollect =>
    have hne : i.path ≠ v.path := by cases v <;> assumption
    simp [runAt, hne]

theorem found_of_step (h : i.step e = .ok j) :
    v.found j = v.update (v.found i) (runAt v.path i.path e) (begun i.path e) := by
  cases e with
  | start content =>
    obtain ⟨k, hk, h⟩ := bind_eq_ok.1 h
    obtain rfl := pure_eq_ok.1 h
    rw [v.found_path]
    exact (enter_eq_ok.1 hk).found_eq v
  | empty content => exact (enter_eq_ok.1 h).found_eq v
  | text content => exact (addText_eq.1 (Except.ok.inj h)).found_eq v
  | close _ | comment _ | cdata _ | instruction _ | doctype _ =>
    obtain rfl := Except.ok.inj h
    simp [runAt, begun]

/-- What an inspection has found of a setting in the end can be told from the events alone. -/
theorem found_of_foldlM (h : events.foldlM step i = .ok j) :
    v.found j =
      v.update (v.found i) (runsAt v.path i.path events) (elementPaths i.path events) := by
  induction events generalizing i with
  | nil =>
    obtain rfl := pure_eq_ok.1 h
    simp
  | cons e events ih =>
    obtain ⟨k, hk, h⟩ := foldlM_cons_eq_ok.1 h
    rw [ih h, found_of_step v hk, path_of_step hk, Setting.update_update, runsAt_cons,
      elementPaths_cons]

end Inspection

end Proctor.Settings
