import Proctor.Proofs.Except
import Proctor.Settings.Merge

/-! # What an inspection does

Each event changes one thing in an inspection at most, and the path as `follow` says. -/

namespace Proctor.Settings
open Proctor.Markup Proctor.Text

namespace Inspection
variable {i j : Inspection} {e : Event} {name : List Char} {info : Info}

/-- What an element that begins changes. -/
inductive Enters (i : Inspection) (name : List Char) : Inspection → Prop
  | root (hpath : i.path = []) (hroot : i.hasRoot = false) (hname : name = rootName) :
      Enters i name { i with hasRoot := true }
  | configuration (hpath : i.path = rootPath) (hname : name = configurationName) :
      Enters i name { i with hasRunConfiguration := true }
  | designMode (hpath : i.path = configurationPath) (hname : name = designModeName.toList) :
      Enters i name { i with designMode := some (i.designMode.getD "") }
  | collectSource (hpath : i.path = configurationPath) (hname : name = collectSourceName.toList) :
      Enters i name { i with collectSource := some (i.collectSource.getD "") }
  | other (hpath : i.path ≠ []) (hconf : ¬ (i.path = rootPath ∧ name = configurationName))
      (hdesign : ¬ (i.path = configurationPath ∧ name = designModeName.toList))
      (hcollect : ¬ (i.path = configurationPath ∧ name = collectSourceName.toList)) :
      Enters i name i

theorem enter_eq_ok : i.enter name = .ok j ↔ i.Enters name j := by
  constructor
  · intro h
    unfold enter at h
    repeat' split at h
    all_goals cases h
    · next hpath hroot hname => exact .root hpath (by simpa using hroot) (by simpa using hname)
    · next hconf => exact .configuration hconf.1 hconf.2
    · next hdesign => exact .designMode hdesign.1 hdesign.2
    · next hcollect => exact .collectSource hcollect.1 hcollect.2
    · next hpath hconf hdesign hcollect => exact .other hpath hconf hdesign hcollect
  · intro h
    cases h with
    | root hpath hroot hname => simp [enter, hpath, hroot, hname]
    | configuration hpath hname =>
      have hne : rootPath ≠ [] := by decide
      simp [enter, hpath, hname, hne]
    | designMode hpath hname =>
      have hne : configurationPath ≠ [] := by decide
      have hroot : configurationPath ≠ rootPath := by decide
      simp [enter, hpath, hname, hne, hroot]
    | collectSource hpath hname =>
      have hne : configurationPath ≠ [] := by decide
      have hroot : configurationPath ≠ rootPath := by decide
      have hother : collectSourceName.toList ≠ designModeName.toList := by decide
      simp [enter, hpath, hname, hne, hroot, hother]
    | other hpath hconf hdesign hcollect => simp [enter, hpath, hconf, hdesign, hcollect]

/-- Outside all elements only a root begins, and only once. -/
theorem Enters.of_path_eq_nil (h : i.Enters name j) (hpath : i.path = []) :
    i.hasRoot = false ∧ name = rootName ∧ j = { i with hasRoot := true } := by
  cases h with
  | root _ hroot hname => exact ⟨hroot, hname, rfl⟩
  | configuration hp _ | designMode hp _ | collectSource hp _ =>
    rw [hpath] at hp
    cases hp
  | other hne _ _ _ => exact absurd hpath hne

/-- What a run of text changes. -/
inductive Hears (i : Inspection) (content : List Char) : Inspection → Prop
  | batchSize (hpath : i.path = batchSizeName.toList :: configurationPath) :
      Hears i content { i with batchText := some (String.ofList (trim content)) }
  | designMode (hpath : i.path = designModeName.toList :: configurationPath) :
      Hears i content { i with designMode := some (String.ofList (trim content)) }
  | collectSource (hpath : i.path = collectSourceName.toList :: configurationPath) :
      Hears i content { i with collectSource := some (String.ofList (trim content)) }
  | other (hbatch : i.path ≠ batchSizeName.toList :: configurationPath)
      (hdesign : i.path ≠ designModeName.toList :: configurationPath)
      (hcollect : i.path ≠ collectSourceName.toList :: configurationPath) : Hears i content i

theorem addText_eq {content : List Char} : i.addText content = j ↔ i.Hears content j := by
  have hbatch : batchSizeName.toList ≠ designModeName.toList := by decide
  have hbatch' : batchSizeName.toList ≠ collectSourceName.toList := by decide
  have hdesign : designModeName.toList ≠ collectSourceName.toList := by decide
  constructor
  · rintro rfl
    unfold addText
    split
    · next element outer hpath =>
      split
      · next houter =>
        subst houter
        dsimp only
        split
        · next hb => exact .batchSize (hb ▸ hpath)
        · next hb =>
          split
          · next hd => exact .designMode (hd ▸ hpath)
          · next hd =>
            split
            · next hc => exact .collectSource (hc ▸ hpath)
            · next hc =>
              exact .other (by simp [hpath, hb]) (by simp [hpath, hd]) (by simp [hpath, hc])
      · next houter =>
        exact .other (by simp [hpath, houter]) (by simp [hpath, houter]) (by simp [hpath, houter])
    · next hpath => exact .other (by simp [hpath]) (by simp [hpath]) (by simp [hpath])
  · intro h
    cases h with
    | batchSize hpath => simp [addText, hpath]
    | designMode hpath => simp [addText, hpath, hbatch.symm]
    | collectSource hpath => simp [addText, hpath, hbatch'.symm, hdesign.symm]
    | other hb hd hc =>
      cases hpath : i.path with
      | nil => simp [addText, hpath]
      | cons element outer =>
        by_cases houter : outer = configurationPath
        · simp_all [addText]
        · simp [addText, hpath, houter]

/-! ### The path of an inspection -/

theorem Enters.path_eq (h : i.Enters name j) : j.path = i.path := by cases h <;> rfl

theorem Hears.path_eq {content : List Char} (h : i.Hears content j) : j.path = i.path := by
  cases h <;> rfl

theorem path_of_step (h : i.step e = .ok j) : j.path = follow i.path e := by
  cases e with
  | start content =>
    obtain ⟨k, hk, h⟩ := bind_eq_ok.1 h
    obtain rfl := pure_eq_ok.1 h
    rw [follow, (enter_eq_ok.1 hk).path_eq]
  | empty content => exact (enter_eq_ok.1 h).path_eq
  | text content =>
    exact (addText_eq.1 (Except.ok.inj h)).path_eq
  | close _ | comment _ | cdata _ | instruction _ | doctype _ =>
    cases h
    rfl

theorem path_of_foldlM {events : List Event} (h : events.foldlM step i = .ok j) :
    j.path = events.foldl follow i.path := by
  induction events generalizing i with
  | nil =>
    obtain rfl := pure_eq_ok.1 h
    rfl
  | cons e events ih =>
    obtain ⟨k, hk, h⟩ := foldlM_cons_eq_ok.1 h
    rw [ih h, path_of_step hk, List.foldl_cons]

/-! ### A whole document -/

theorem foldlM_cons {events : List Event} {k : Inspection} (he : i.step e = .ok j)
    (h : events.foldlM step j = .ok k) : (e :: events).foldlM step i = .ok k :=
  foldlM_cons_eq_ok.2 ⟨j, he, h⟩

theorem foldlM_append {a b : List Event} {k : Inspection} (ha : a.foldlM step i = .ok j)
    (hb : b.foldlM step j = .ok k) : (a ++ b).foldlM step i = .ok k :=
  foldlM_append_eq_ok.2 ⟨j, ha, hb⟩

theorem step_start {content : List Char} (h : i.Enters (tagName content) j) :
    i.step (.start content) = .ok { j with path := tagName content :: i.path } := by
  rw [step, enter_eq_ok.2 h, ok_bind, h.path_eq]
  rfl

theorem conclude_eq_ok :
    i.conclude = .ok info ↔ i.path = [] ∧ i.hasRoot ∧
      i.batchText.mapM parseBatchSize = .ok info.batchSize ∧
      checkFlag designModeName i.designMode = .ok () ∧
      checkFlag collectSourceName i.collectSource = .ok () ∧
      i.hasRunConfiguration = info.hasRunConfiguration ∧ i.designMode = info.designMode ∧
      i.collectSource = info.collectSource := by
  obtain ⟨batchSize, hasConfiguration, designMode, collectSource⟩ := info
  unfold conclude
  cases hpath : i.path with
  | cons name outer => simp [throw, throwThe, MonadExceptOf.throw, bind, Except.bind]
  | nil =>
    cases hroot : i.hasRoot with
    | false => simp [throw, throwThe, MonadExceptOf.throw, bind, Except.bind]
    | true =>
      simp only [Bool.not_true, Bool.false_eq_true, if_false, bind_eq_ok, pure_eq_ok,
        Info.mk.injEq, true_and]
      constructor
      · rintro ⟨n, hn, ⟨⟩, hd, ⟨⟩, hc, rfl, hrest⟩
        exact ⟨hn, hd, hc, hrest⟩
      · rintro ⟨hn, hd, hc, hrest⟩
        exact ⟨batchSize, hn, (), hd, (), hc, rfl, hrest⟩

end Inspection

theorem inspectReading_eq_ok {r : Reading} {info : Info} :
    inspectReading r = .ok info ↔
      r.error? = none ∧
        ∃ i, r.events.foldlM Inspection.step {} = .ok i ∧ i.conclude = .ok info := by
  unfold inspectReading
  simp only [bind_eq_ok]
  cases r.error? with
  | none => simp
  | some e => simp [throw, throwThe, MonadExceptOf.throw]

end Proctor.Settings
