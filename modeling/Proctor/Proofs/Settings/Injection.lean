import Proctor.Proofs.Settings.Filling

/-! # The document that a merge writes

The missing elements are written in places that the document provides: a configuration or, if there
is none, the root. -/

namespace Proctor.Settings
open Proctor.Markup Proctor.Text

/-- The event takes the missing elements in, at the given path. -/
def Receives (hasRunConfiguration : Bool) (path : Path) : Event → Prop
  | .empty content =>
    path = [] ∧ tagName content = rootName ∨
      path = rootPath ∧ tagName content = configurationName
  | .close _ => path = configurationPath ∨ path = rootPath ∧ !hasRunConfiguration
  | _ => False

section
variable {missing : List Event} {H : Bool} {path : Path} {content : List Char}

theorem inject_root (hpath : path = []) (hname : tagName content = rootName) :
    inject missing H path (.empty content) =
      .start content :: withConfiguration missing ++ [.close rootName] :=
  if_pos ⟨hpath, hname⟩

theorem inject_configuration (hpath : path = rootPath)
    (hname : tagName content = configurationName) :
    inject missing H path (.empty content) =
      .start content :: missing ++ [.close configurationName] := by
  have hne : ¬ (path = [] ∧ tagName content = rootName) := by simp [hpath, rootPath]
  exact (if_neg hne).trans (if_pos ⟨hpath, hname⟩)

theorem inject_close_configuration (hpath : path = configurationPath) (name : List Char) :
    inject missing H path (.close name) = missing ++ [.close name] := if_pos hpath

theorem inject_close_root (hpath : path = rootPath ∧ !H) (name : List Char) :
    inject missing H path (.close name) = withConfiguration missing ++ [.close name] := by
  have hne : path ≠ configurationPath := by
    rw [hpath.1]
    decide
  exact (if_neg hne).trans (if_pos hpath)

end

theorem inject_of_not_receives {missing : List Event} {hasConfiguration : Bool} {path : Path}
    {e : Event} (h : ¬ Receives hasConfiguration path e) :
    inject missing hasConfiguration path e = [e] := by
  cases e with
  | empty content =>
    obtain ⟨hroot, hconf⟩ := not_or.1 h
    simp only [inject, if_neg hroot, if_neg hconf]
  | close name =>
    obtain ⟨hconf, hroot⟩ := not_or.1 h
    simp only [inject, if_neg hroot, if_neg hconf]
  | start _ | text _ | comment _ | cdata _ | instruction _ | doctype _ => rfl

theorem injectAll_append (missing : List Event) (H : Bool) (path : Path) (a b : List Event) :
    injectAll missing H path (a ++ b) =
      injectAll missing H path a ++ injectAll missing H (a.foldl follow path) b := by
  induction a generalizing path with
  | nil => rfl
  | cons e a ih => simp [injectAll, ih]

namespace Inspection
variable {i j : Inspection} {d : Defaults} {e : Event} {H : Bool} {info : Info}

/-- Values that were filled in once are not changed when they are filled in again. -/
theorem supply_fill {d₀ : Defaults} (h₀ : d₀ = .nothing ∨ d₀ = d) (hd : d.Fits i) (b : Bool) :
    (i.fill d₀ b).supply d = i.fill d b := by
  obtain ⟨dm, cs⟩ := d
  have hdm : dm.isSome → i.designMode = none := hd.designMode
  have hcs : cs.isSome → i.collectSource = none := hd.collectSource
  rcases h₀ with rfl | rfl <;> cases dm <;> cases cs <;> simp_all [fill, supply, Defaults.nothing]

theorem foldlM_close {d₀ : Defaults} (h₀ : d₀ = .nothing ∨ d₀ = d) (hd : d.Fits i)
    (name : List Char) (b b' : Bool) :
    [Event.close name].foldlM step { (i.fill d₀ b).supply d with hasRunConfiguration := b' } =
      .ok ({ i with path := i.path.tail }.fill d b') := by
  rw [supply_fill h₀ hd]
  rfl

/-- Where elements are taken in, they are seen, and otherwise all is as it was. -/
theorem foldlM_inject_of_receives (hr : Receives H i.path e) (h : i.step e = .ok j) {flag : Bool}
    (hd : (Defaults.lacking info flag).Fits j) {d₀ : Defaults}
    (h₀ : d₀ = .nothing ∨ d₀ = .lacking info flag) (b : Bool) :
    ∃ b', (inject (missingElements info flag) H i.path e).foldlM step (i.fill d₀ b) =
      .ok (j.fill (.lacking info flag) b') := by
  have hd₀ : d₀.Fits j := by
    rcases h₀ with rfl | rfl
    · exact Defaults.fits_nothing j
    · exact hd
  cases e with
  | empty content =>
    have henter := enter_eq_ok.1 h
    obtain ⟨b', hb⟩ := henter.fill hd₀ b
    have hstart := step_start hb
    let inside : Inspection := { j with path := tagName content :: i.path }
    have hfits : (Defaults.lacking info flag).Fits inside := ⟨hd.designMode, hd.collectSource⟩
    have houtside : { inside with path := inside.path.tail } = j := by
      show { j with path := i.path } = j
      rw [← henter.path_eq]
    rcases hr with ⟨hpath, hname⟩ | ⟨hpath, hname⟩
    · have hroot : inside.path = rootPath := by
        show tagName content :: i.path = rootPath
        rw [hpath, hname]
        rfl
      have hwith := foldlM_withConfiguration (i := inside.fill d₀ b') hroot info flag
      have hclose := foldlM_close h₀ hfits rootName b' true
      rw [houtside] at hclose
      rw [inject_root hpath hname]
      exact ⟨true, foldlM_append (foldlM_cons hstart hwith) hclose⟩
    · have hconf : inside.path = configurationPath := by
        show tagName content :: i.path = configurationPath
        rw [hpath, hname]
        rfl
      have hmissing := foldlM_missing (i := inside.fill d₀ b') hconf info flag
      have hclose := foldlM_close h₀ hfits configurationName b' b'
      rw [houtside] at hclose
      rw [inject_configuration hpath hname]
      exact ⟨b', foldlM_append (foldlM_cons hstart hmissing) hclose⟩
  | close name =>
    have hfits := fits_of_step h hd
    obtain rfl : { i with path := i.path.tail } = j := Except.ok.inj h
    rcases hr with hconf | hroot
    · have hmissing := foldlM_missing (i := i.fill d₀ b) hconf info flag
      rw [inject_close_configuration hconf]
      exact ⟨b, foldlM_append hmissing (foldlM_close h₀ hfits name b b)⟩
    · have hwith := foldlM_withConfiguration (i := i.fill d₀ b) hroot.1 info flag
      rw [inject_close_root hroot]
      exact ⟨true, foldlM_append hwith (foldlM_close h₀ hfits name b true)⟩
  | start _ | text _ | comment _ | cdata _ | instruction _ | doctype _ => exact hr.elim

/-- The elements are still to come: the document has not yet left the place for them. -/
structure Pending (H : Bool) (i : Inspection) : Prop where
  configuration : H → i.hasRunConfiguration → configurationPath <:+ i.path
  root : H = false → i.hasRoot → rootPath <:+ i.path

theorem suffix_tail {p q : Path} (h : p <:+ q) (hne : q ≠ p) : p <:+ q.tail := by
  cases q with
  | nil => exact h
  | cons a q =>
    rcases List.suffix_cons_iff.1 h with rfl | h
    · exact absurd rfl hne
    · exact h

/-- An element that begins is at most the place itself. -/
theorem Pending.start {name : List Char} (hp : Pending H i) (h : i.Enters name j) :
    Pending H { j with path := name :: i.path } := by
  have hup {p : Path} (hs : p <:+ i.path) : p <:+ name :: i.path := hs.trans (List.suffix_cons ..)
  cases h with
  | root hpath _ hname =>
    refine ⟨fun hH hc => hup (hp.configuration hH hc), fun _ _ => ?_⟩
    rw [hpath, hname]
    exact List.suffix_rfl
  | configuration hpath hname =>
    refine ⟨fun _ _ => ?_, fun hH hr => hup (hp.root hH hr)⟩
    rw [hpath, hname]
    exact List.suffix_rfl
  | designMode _ _ | collectSource _ _ | other _ _ _ _ =>
    exact ⟨fun hH hc => hup (hp.configuration hH hc), fun hH hr => hup (hp.root hH hr)⟩

theorem Pending.step (hp : Pending H i) (hr : ¬ Receives H i.path e) (h : i.step e = .ok j) :
    Pending H j := by
  cases e with
  | start content =>
    obtain ⟨k, hk, h⟩ := bind_eq_ok.1 h
    obtain rfl := pure_eq_ok.1 h
    have henter := enter_eq_ok.1 hk
    rw [henter.path_eq]
    exact hp.start henter
  | empty content =>
    cases enter_eq_ok.1 h with
    | root hpath _ hname => exact absurd (.inl ⟨hpath, hname⟩) hr
    | configuration hpath hname => exact absurd (.inr ⟨hpath, hname⟩) hr
    | designMode _ _ | collectSource _ _ | other _ _ _ _ => exact ⟨hp.configuration, hp.root⟩
  | close name =>
    cases h
    exact ⟨fun hH hc => suffix_tail (hp.configuration hH hc) fun he => hr (.inl he),
      fun hH hroot => suffix_tail (hp.root hH hroot) fun he => hr (.inr ⟨he, by simp [hH]⟩)⟩
  | text content =>
    cases addText_eq.1 (Except.ok.inj h) <;> exact ⟨hp.configuration, hp.root⟩
  | comment _ | cdata _ | instruction _ | doctype _ =>
    cases h
    exact hp

/-- An inspection of the written document, against one of the document that was read. -/
inductive Pursues (d : Defaults) (H : Bool) (i : Inspection) : Inspection → Prop
  | before (b : Bool) (hp : Pending H i) : Pursues d H i (i.fill .nothing b)
  | after (b : Bool) : Pursues d H i (i.fill d b)

variable {flag : Bool} {i' : Inspection}

theorem Pursues.step (hp : Pursues (.lacking info flag) H i i') (h : i.step e = .ok j)
    (hd : (Defaults.lacking info flag).Fits j) :
    ∃ j', (inject (missingElements info flag) H i.path e).foldlM step i' = .ok j' ∧
      Pursues (.lacking info flag) H j j' := by
  by_cases hr : Receives H i.path e
  · have hfold {d₀ : Defaults} (h₀ : d₀ = .nothing ∨ d₀ = .lacking info flag) (b : Bool) :=
      foldlM_inject_of_receives hr h hd h₀ b
    cases hp with
    | before b _ =>
      obtain ⟨b', hb⟩ := hfold (.inl rfl) b
      exact ⟨_, hb, .after b'⟩
    | after b =>
      obtain ⟨b', hb⟩ := hfold (.inr rfl) b
      exact ⟨_, hb, .after b'⟩
  · rw [inject_of_not_receives hr]
    cases hp with
    | before b hp =>
      obtain ⟨b', hb⟩ := step_fill h (Defaults.fits_nothing j) b
      exact ⟨_, foldlM_cons hb rfl, .before b' (hp.step hr h)⟩
    | after b =>
      obtain ⟨b', hb⟩ := step_fill h hd b
      exact ⟨_, foldlM_cons hb rfl, .after b'⟩

theorem Pursues.foldlM {events : List Event} (hp : Pursues (.lacking info flag) H i i')
    (h : events.foldlM Inspection.step i = .ok j) (hd : (Defaults.lacking info flag).Fits j) :
    ∃ j', (injectAll (missingElements info flag) H i.path events).foldlM Inspection.step i' =
        .ok j' ∧ Pursues (.lacking info flag) H j j' := by
  induction events generalizing i i' with
  | nil =>
    obtain rfl := pure_eq_ok.1 h
    exact ⟨i', rfl, hp⟩
  | cons e events ih =>
    obtain ⟨k, hk, h⟩ := foldlM_cons_eq_ok.1 h
    obtain ⟨k', hk', hp⟩ := hp.step hk (fits_of_foldlM h hd)
    obtain ⟨j', hj', hp⟩ := ih hp h
    rw [path_of_step hk] at hj'
    exact ⟨j', foldlM_append hk' hj', hp⟩

theorem pursues_start (d : Defaults) (H : Bool) : Pursues d H {} {} :=
  .before false ⟨nofun, nofun⟩

/-- Once the document is over, the elements have been seen. -/
theorem Pursues.exists_fill {d : Defaults} (hp : Pursues d H i i') (hpath : i.path = [])
    (hroot : i.hasRoot) (hconf : i.hasRunConfiguration = H) : ∃ b, i' = i.fill d b := by
  cases hp with
  | after b => exact ⟨b, rfl⟩
  | before b hp =>
    exfalso
    cases H with
    | true => exact absurd (hpath ▸ hp.configuration rfl hconf) (by decide)
    | false => exact absurd (hpath ▸ hp.root rfl hroot) (by decide)

end Inspection

/-- What the settings say once they were filled in. -/
def Info.filled (info : Info) (flag b : Bool) : Info :=
  let value := String.ofList (flagText flag)
  { info with
    hasRunConfiguration := b
    designMode := some (info.designMode.getD value)
    collectSource := some (info.collectSource.getD value) }

theorem checkFlag_flagText (element : String) (flag : Bool) :
    checkFlag element (some (String.ofList (flagText flag))) = .ok () := by
  have hflag : isFlagText (String.ofList (flagText flag)) := by cases flag <;> decide
  simp [checkFlag, hflag]

/-- A value that was filled in passes the check, and so does one that passed it before. -/
theorem checkFlag_or {element : String} {found : Option String} (flag : Bool)
    (h : checkFlag element found = .ok ()) :
    checkFlag element (some (found.getD (String.ofList (flagText flag)))) = .ok () := by
  cases found with
  | none => exact checkFlag_flagText element flag
  | some text => exact h

theorem conclude_fill {i : Inspection} {info : Info} (h : i.conclude = .ok info) (flag b : Bool) :
    (i.fill (.lacking info flag) b).conclude = .ok (info.filled flag b) := by
  obtain ⟨hpath, hroot, hbatch, hdesign, hcollect, -, hd, hc⟩ := Inspection.conclude_eq_ok.1 h
  have hor (found : Option String) :
      found.or (if found.isSome then none else some (String.ofList (flagText flag))) =
        some (found.getD (String.ofList (flagText flag))) := by
    cases found <;> rfl
  have hd' : (i.fill (.lacking info flag) b).designMode = (info.filled flag b).designMode := by
    show i.designMode.or _ = _
    rw [hd]
    exact hor info.designMode
  have hc' :
      (i.fill (.lacking info flag) b).collectSource = (info.filled flag b).collectSource := by
    show i.collectSource.or _ = _
    rw [hc]
    exact hor info.collectSource
  refine Inspection.conclude_eq_ok.2 ⟨hpath, hroot, hbatch, ?_, ?_, rfl, hd', hc'⟩
  · rw [hd']
    exact checkFlag_or flag (hd ▸ hdesign)
  · rw [hc']
    exact checkFlag_or flag (hc ▸ hcollect)

/-- The events that a merge writes are inspected like those that it read, with the missing elements
filled in. -/
theorem inspectReading_injectAll {r : Reading} {info : Info} (h : inspectReading r = .ok info)
    (flag : Bool) :
    ∃ b, inspectReading
        ⟨injectAll (missingElements info flag) info.hasRunConfiguration [] r.events, none⟩ =
      .ok (info.filled flag b) := by
  obtain ⟨-, i, hfold, hi⟩ := inspectReading_eq_ok.1 h
  obtain ⟨hpath, hroot, -, -, -, hconf, hd, hc⟩ := Inspection.conclude_eq_ok.1 hi
  have hfits : (Defaults.lacking info flag).Fits i := by
    refine ⟨fun hs => ?_, fun hs => ?_⟩
    · rw [hd]
      cases hfound : info.designMode <;> simp_all [Defaults.lacking]
    · rw [hc]
      cases hfound : info.collectSource <;> simp_all [Defaults.lacking]
  obtain ⟨i', hfold', hp⟩ :=
    (Inspection.pursues_start _ info.hasRunConfiguration).foldlM hfold hfits
  obtain ⟨b, rfl⟩ := hp.exists_fill hpath hroot hconf
  exact ⟨b, inspectReading_eq_ok.2 ⟨rfl, _, hfold', conclude_fill hi flag b⟩⟩

end Proctor.Settings
