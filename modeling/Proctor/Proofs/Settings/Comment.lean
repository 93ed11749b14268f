import Proctor.Proofs.Markup.Splice
import Proctor.Proofs.Markup.WellFormed
import Proctor.Proofs.Settings.Merge
import Proctor.Proofs.Settings.Verdict

/-! # Comments in run settings

A comment that cuts a run of text in two leaves two runs, of which an inspection keeps the later. At
every other place in an element a comment changes nothing. -/

namespace Proctor.Settings
open Proctor.Markup Proctor.Text

/-! ### What the texts of settings have no part in -/

namespace Inspection
variable {i i' j : Inspection} {name : List Char} {e : Event} {events : List Event}

/-- What decides whether an inspection goes on, whatever texts it has found. -/
def frame (i : Inspection) : Path × Bool × Bool := (i.path, i.hasRoot, i.hasRunConfiguration)

theorem frame_eq : i'.frame = i.frame ↔
    i'.path = i.path ∧ i'.hasRoot = i.hasRoot ∧ i'.hasRunConfiguration = i.hasRunConfiguration := by
  simp [frame]

theorem Hears.frame_eq {content : List Char} (h : i.Hears content j) : j.frame = i.frame := by
  cases h <;> rfl

theorem Enters.of_frame (h : i.Enters name j) (hi : i'.frame = i.frame) :
    ∃ j', i'.Enters name j' ∧ j'.frame = j.frame := by
  obtain ⟨hpath, hroot, hconf⟩ := Inspection.frame_eq.1 hi
  cases h with
  | root hp hr hname =>
    exact ⟨_, .root (hpath.trans hp) (hroot.trans hr) hname, by simp [frame, hpath, hconf]⟩
  | configuration hp hname =>
    exact ⟨_, .configuration (hpath.trans hp) hname, by simp [frame, hpath, hroot]⟩
  | designMode hp hname => exact ⟨_, .designMode (hpath.trans hp) hname, hi⟩
  | collectSource hp hname => exact ⟨_, .collectSource (hpath.trans hp) hname, hi⟩
  | other hne hconf hdesign hcollect =>
    exact ⟨i', .other (hpath ▸ hne) (hpath ▸ hconf) (hpath ▸ hdesign) (hpath ▸ hcollect), hi⟩

theorem step_of_frame (h : i.step e = .ok j) (hi : i'.frame = i.frame) :
    ∃ j', i'.step e = .ok j' ∧ j'.frame = j.frame := by
  obtain ⟨hpath, hroot, hconf⟩ := frame_eq.1 hi
  cases e with
  | start content =>
    obtain ⟨k, hk, h⟩ := bind_eq_ok.1 h
    obtain rfl := pure_eq_ok.1 h
    obtain ⟨k', hk', hframe⟩ := (enter_eq_ok.1 hk).of_frame hi
    obtain ⟨-, hkroot, hkconf⟩ := frame_eq.1 hframe
    have hkpath := (enter_eq_ok.1 hk).path_eq
    exact ⟨_, step_start hk', by simp [frame, hpath, hkpath, hkroot, hkconf]⟩
  | empty content =>
    obtain ⟨k', hk', hframe⟩ := (enter_eq_ok.1 h).of_frame hi
    exact ⟨k', enter_eq_ok.2 hk', hframe⟩
  | text content =>
    have hj := (addText_eq.1 (Except.ok.inj h)).frame_eq
    exact ⟨_, rfl, ((addText_eq.1 rfl : i'.Hears content _).frame_eq.trans hi).trans hj.symm⟩
  | close _ =>
    obtain rfl := Except.ok.inj h
    exact ⟨_, rfl, by simp [frame, hpath, hroot, hconf]⟩
  | comment _ | cdata _ | instruction _ | doctype _ =>
    obtain rfl := Except.ok.inj h
    exact ⟨i', rfl, hi⟩

theorem foldlM_of_frame (h : events.foldlM step i = .ok j) (hi : i'.frame = i.frame) :
    ∃ j', events.foldlM step i' = .ok j' ∧ j'.frame = j.frame := by
  induction events generalizing i i' with
  | nil =>
    obtain rfl := pure_eq_ok.1 h
    exact ⟨i', rfl, hi⟩
  | cons e events ih =>
    obtain ⟨k, hk, h⟩ := foldlM_cons_eq_ok.1 h
    obtain ⟨k', hk', hframe⟩ := step_of_frame hk hi
    obtain ⟨j', hj', hframe'⟩ := ih h hframe
    exact ⟨j', foldlM_cons hk' hj', hframe'⟩

end Inspection

/-! ### Places in a document -/

/-- A place in a document: the text in front of it and the text behind it. -/
structure Place where
  front : List Char
  back : List Char

namespace Place

def text (p : Place) : List Char := p.front ++ p.back

def withComment (p : Place) (content : List Char) : List Char :=
  p.front ++ (Event.comment content).render ++ p.back

/-- The names of the elements around the place, the innermost first. -/
def path (p : Place) : Path := (Markup.read p.front).events.foldl follow []

/-- What stands right in front of the place of the run of text that it is in. -/
def before (p : Place) : List Char :=
  match (Markup.read p.front).events.getLast? with
  | some (.text run) => run
  | _ => []

/-- What stands right behind the place of the run of text that it is in. -/
def after (p : Place) : List Char := p.back.takeWhile (· != '<')

/-- The later runs of text right in the innermost element, or in another one at the same path. -/
def later (p : Place) : List (List Char) :=
  runsAt p.path p.path (readFrom p.path (p.back.dropWhile (· != '<'))).events

/-- The place is in an element, and in no piece of markup. -/
structure InContent (p : Place) : Prop where
  whole : (Markup.read p.front).error? = none
  inside : p.path ≠ []

/-- The place is in the run of text that the value of a setting is taken from. -/
structure Cuts (p : Place) (v : Setting) : Prop where
  path : p.path = v.path
  before : p.before ≠ []
  after : p.after ≠ []
  later : p.later = []

end Place

/-- A setting has the same value without the first part of its text. -/
def Setting.Survives : Setting → (before after : List Char) → Prop
  | batchSize, before, after => ∃ n, IsBatchSize (String.ofList (trim (before ++ after))) n ∧
      IsBatchSize (String.ofList (trim after)) n
  | designMode, before, _ | collectSource, before, _ => allBlank before

section
variable {p : Place} {content : List Char} {info : Info}

theorem exists_read_append {front : List Char} (h : front ≠ []) :
    ∃ front', ∀ back, Markup.read (front ++ back) = readFrom [] (front' ++ back) := by
  obtain ⟨c, front, rfl⟩ := List.exists_cons_of_ne_nil h
  by_cases hc : c = '\ufeff'
  · subst hc
    exact ⟨front, fun back => rfl⟩
  · refine ⟨c :: front, fun back => ?_⟩
    rw [List.cons_append, Markup.read]
    simp [hc]

theorem Place.front_ne_nil (h : p.path ≠ []) : p.front ≠ [] := by
  intro hfront
  apply h
  simp [path, hfront, Markup.read, readFrom_nil]

theorem foldl_follow_runEvents (run : List Char) (path : Path) :
    (runEvents run).foldl follow path = path := by
  unfold runEvents
  split <;> rfl

/-- The run of text that some events end in, if those in front of it end in none. -/
theorem lastRun_eq {events : List Event} {run : List Char}
    (hlast : ∀ e ∈ events.getLast?, ¬ e.isText) :
    (match (events ++ runEvents run).getLast? with | some (.text run) => run | _ => []) = run := by
  by_cases hrun : run = []
  · subst hrun
    rw [runEvents_nil, List.append_nil]
    split
    · next run hrun => exact absurd rfl (hlast _ hrun)
    · rfl
  · simp [runEvents_of_ne hrun]

/-- The reading of a document around a place, and its reading with a comment there. -/
theorem Place.exists_reading (h : p.InContent) (hcontent : ¬ "-->".toList <:+: content) :
    ∃ front back error?, front.foldl follow [] = p.path ∧ runsAt p.path p.path back = p.later ∧
      Markup.read p.text = ⟨front ++ (runEvents (p.before ++ p.after) ++ back), error?⟩ ∧
      Markup.read (p.withComment content) =
        ⟨front ++ (runEvents p.before ++ .comment content :: (runEvents p.after ++ back)), error?⟩ := by
  obtain ⟨front', hfront'⟩ := exists_read_append (front_ne_nil h.inside)
  have hread : Markup.read p.front = readFrom [] front' := by simpa using hfront' []
  obtain ⟨front, run, events, opened, hends⟩ := exists_endsInRun (hread ▸ h.whole)
  obtain rfl : p.before = run := by
    rw [before, hread, hends.events_eq]
    exact lastRun_eq hends.last
  obtain rfl : opened = p.path := by
    rw [path, hread, hends.events_eq, List.foldl_append, foldl_follow_runEvents]
    exact follow_of_legible hends.legible
  -- the run of text goes on up to the next markup
  let rest := p.back.dropWhile (· != '<')
  have hback : p.back = p.after ++ rest := List.takeWhile_append_dropWhile.symm
  have hrest : AtMarkup rest := atMarkup_dropWhile _
  have hafter : '<' ∉ p.after := fun hmem => by simpa using List.mem_takeWhile_imp hmem
  have hjoined : '<' ∉ p.before ++ p.after := by simp [hends.plain, hafter]
  have hcomment : Stands p.path (.comment content) p.path :=
    .comment (delimited_of_no_mark (by decide) hcontent)
  have hmarkup (s : List Char) : AtMarkup ((Event.comment content).render ++ s) :=
    atMarkup_render hcomment nofun s
  refine ⟨events, (readFrom p.path rest).events, (readFrom p.path rest).error?,
    (follow_of_legible hends.legible).symm, rfl, ?_, ?_⟩
  · rw [text, hfront', hends.split, hback, List.append_assoc, hends.read_append,
      ← List.append_assoc, readFrom_run hjoined hrest]
  · rw [withComment, List.append_assoc, hfront', hends.split, hback, List.append_assoc,
      hends.read_append, readFrom_run hends.plain (hmarkup _), readFrom_of_stands hcomment nofun,
      readFrom_run hafter hrest]

/-! ### What a comment changes -/

theorem isBatchSize_unique {text : String} {m n : Nat} (hm : IsBatchSize text m)
    (hn : IsBatchSize text n) : m = n :=
  Except.ok.inj ((parseBatchSize_eq_ok.2 hm).symm.trans (parseBatchSize_eq_ok.2 hn))

/-- The part of a text behind a comment amounts to the same as the whole exactly if the setting
survives. -/
theorem Setting.shown_iff_survives {v : Setting} {before after : List Char}
    (hcheck : v.check (some (String.ofList (trim (before ++ after)))) = .ok ())
    (hshown : v.Shown info (some (String.ofList (trim (before ++ after))))) :
    v.check (some (String.ofList (trim after))) = .ok () ∧
        v.Shown info (some (String.ofList (trim after))) ↔
      v.Survives before after := by
  have hflag (found : Option String) (h : found = some (String.ofList (trim (before ++ after)))) :
      found = some (String.ofList (trim after)) ↔ allBlank before := by
    rw [h, Option.some.injEq, String.ofList_inj, trim_append_eq_iff]
  cases v with
  | batchSize =>
    simp only [check_eq_ok, Shown, Admits, Option.some.injEq, exists_eq_left', forall_eq'] at *
    constructor
    · rintro ⟨⟨n, hn⟩, hafter⟩
      exact ⟨n, (hshown n).1 ((hafter n).2 hn), hn⟩
    · rintro ⟨n, hwhole, hn⟩
      refine ⟨⟨n, hn⟩, fun m => ?_⟩
      rw [hshown m]
      exact ⟨fun hm => isBatchSize_unique hwhole hm ▸ hn, fun hm => isBatchSize_unique hn hm ▸ hwhole⟩
  | designMode =>
    refine Iff.trans ⟨And.right, fun h => ⟨?_, h⟩⟩ (hflag _ hshown)
    rwa [← show _ = _ from h, show _ = _ from hshown]
  | collectSource =>
    refine Iff.trans ⟨And.right, fun h => ⟨?_, h⟩⟩ (hflag _ hshown)
    rwa [← show _ = _ from h, show _ = _ from hshown]

namespace Inspection
variable {i j : Inspection}

/-- A run of text is always accepted. -/
theorem exists_foldlM_runEvents (i : Inspection) (run : List Char) :
    ∃ j, (runEvents run).foldlM step i = .ok j ∧ j.frame = i.frame := by
  unfold runEvents
  split
  · exact ⟨i, rfl, rfl⟩
  · exact ⟨i.addText run, rfl, (addText_eq.1 rfl : i.Hears run _).frame_eq⟩

/-- With a comment in a run of text an inspection goes on as it does without it. -/
theorem exists_foldlM_comment {front back : List Event} {before after : List Char}
    (h : (front ++ (runEvents (before ++ after) ++ back)).foldlM step i = .ok j)
    (content : List Char) :
    ∃ j', (front ++ (runEvents before ++ .comment content :: (runEvents after ++ back))).foldlM step i
        = .ok j' ∧ j'.frame = j.frame := by
  obtain ⟨k, hfront, h⟩ := foldlM_append_eq_ok.1 h
  obtain ⟨m, hm, hback⟩ := foldlM_append_eq_ok.1 h
  obtain ⟨m', hm', hframe⟩ := exists_foldlM_runEvents k (before ++ after)
  obtain rfl := Except.ok.inj (hm'.symm.trans hm)
  obtain ⟨k₁, hk₁, hframe₁⟩ := exists_foldlM_runEvents k before
  obtain ⟨k₂, hk₂, hframe₂⟩ := exists_foldlM_runEvents k₁ after
  obtain ⟨j', hj', hframe'⟩ := foldlM_of_frame hback (hframe₂.trans (hframe₁.trans hframe.symm))
  exact ⟨j', foldlM_append hfront (foldlM_append hk₁ (foldlM_cons rfl (foldlM_append hk₂ hj'))),
    hframe'⟩

end Inspection

@[simp] theorem elementPaths_runEvents (path : Path) (run : List Char) :
    elementPaths path (runEvents run) = [] := by
  unfold runEvents
  split <;> rfl

theorem runsAt_runEvents_of_ne {place path : Path} (h : path ≠ place) (run : List Char) :
    runsAt place path (runEvents run) = [] := by
  unfold runEvents
  split
  · rfl
  · simp [runAt, h]

theorem runsAt_runEvents_self {path : Path} {run : List Char} (h : run ≠ []) :
    runsAt path path (runEvents run) = [run] := by simp [runEvents_of_ne h, runAt]

/-- A comment that cuts the run of text that the value of the setting is taken from leaves the part
behind it to be found. -/
theorem Place.update_of_cuts {v : Setting} (h : p.Cuts v) (earlier later : List (List Char))
    (begun : List Path) (hlater : later = p.later) :
    v.update none (earlier ++ (runsAt v.path p.path (runEvents p.before) ++
        (runsAt v.path p.path (runEvents p.after) ++ later))) begun =
      some (String.ofList (trim p.after)) ∧
    v.update none (earlier ++ (runsAt v.path p.path (runEvents (p.before ++ p.after)) ++ later))
      begun = some (String.ofList (trim (p.before ++ p.after))) := by
  have hjoined : p.before ++ p.after ≠ [] := by simp [h.before]
  have hrun {run : List Char} (hne : run ≠ []) : runsAt v.path p.path (runEvents run) = [run] := by
    rw [← h.path, runsAt_runEvents_self hne]
  rw [hlater, h.later, hrun h.before, hrun h.after, hrun hjoined, List.append_nil, List.append_nil,
    ← List.append_assoc, v.update_concat, v.update_concat]
  exact ⟨rfl, rfl⟩

/-- If a comment does not, what is found of the setting stays the same. -/
theorem Place.update_of_not_cuts {v : Setting} (h : ¬ p.Cuts v) (earlier later : List (List Char))
    (begun : List Path) (hlater : p.path = v.path → later = p.later) :
    v.update none (earlier ++ (runsAt v.path p.path (runEvents p.before) ++
        (runsAt v.path p.path (runEvents p.after) ++ later))) begun =
      v.update none (earlier ++ (runsAt v.path p.path (runEvents (p.before ++ p.after)) ++ later))
        begun := by
  by_cases hpath : p.path = v.path
  · by_cases hbefore : p.before = []
    · simp [hbefore]
    by_cases hafter : p.after = []
    · simp [hafter]
    have hne : later ≠ [] := fun hnil => h ⟨hpath, hbefore, hafter, (hlater hpath).symm.trans hnil⟩
    rw [← List.append_assoc, ← List.append_assoc, ← List.append_assoc]
    exact v.update_append_of_ne_nil hne none _ _ begun
  · simp only [runsAt_runEvents_of_ne hpath, List.nil_append]

theorem Place.not_allBlank (h : p.path ≠ []) : ¬ allBlank p.front := by
  intro hblank
  apply h
  have hlt : '<' ∉ p.front := fun hmem =>
    absurd (List.all_eq_true.1 hblank '<' hmem) (by decide)
  have hread : Markup.read p.front = readFrom [] p.front := by
    unfold Markup.read
    split
    · next rest hfront =>
      rw [hfront] at hblank
      exact absurd (allBlank_cons.1 hblank).1 (by decide)
    · rfl
  have hrun : readFrom [] (p.front ++ []) = _ := readFrom_run hlt atMarkup_nil
  rw [List.append_nil, readFrom_nil, List.append_nil] at hrun
  rw [path, hread, hrun]
  exact foldl_follow_runEvents _ _

/-- A comment in an element leaves what a document says as it is, unless it cuts the run of text that
a setting has its value from. Of that run only the part behind the comment counts. -/
theorem comment_keeps_settings_iff (h : inspect p.text = .ok info) (hplace : p.InContent)
    (hcontent : ¬ "-->".toList <:+: content) :
    inspect (p.withComment content) = .ok info ↔
      ∀ v : Setting, p.Cuts v → v.Survives p.before p.after := by
  obtain ⟨front, back, error?, hpath, hlater, hread, hread'⟩ :=
    Place.exists_reading hplace hcontent
  have hblank := Place.not_allBlank hplace.inside
  have htext : ¬ allBlank p.text := fun hb => hblank (allBlank_append.1 hb).1
  have hcomment : ¬ allBlank (p.withComment content) := fun hb =>
    hblank (allBlank_append.1 (allBlank_append.1 hb).1).1
  rw [inspect, orEmptyDocument_eq htext, hread] at h
  rw [inspect, orEmptyDocument_eq hcomment, hread']
  obtain ⟨herror, j, hfold, hj⟩ := inspectReading_eq_ok.1 h
  obtain rfl : error? = none := herror
  obtain ⟨j', hfold', hframe⟩ := Inspection.exists_foldlM_comment hfold content
  obtain ⟨hjpath, hjroot, hjconf⟩ := Inspection.frame_eq.1 hframe
  obtain ⟨hpath', hroot', hconf', hshown⟩ := Inspection.conclude_eq_ok_iff.1 hj
  rw [inspectReading_of_foldlM hfold', Inspection.conclude_eq_ok_iff, hjpath, hjroot, hjconf]
  simp only [hpath', hroot', hconf', true_and]
  refine forall_congr' fun v => ?_
  obtain ⟨hcheck, hv⟩ := hshown v
  have hfound := Inspection.found_of_foldlM v hfold
  have hfound' := Inspection.found_of_foldlM v hfold'
  simp only [runsAt_append, runsAt_cons, elementPaths_append, elementPaths_cons,
    elementPaths_runEvents, foldl_follow_runEvents, follow, hpath, runAt, begun,
    List.nil_append, Setting.found_start] at hfound hfound'
  by_cases hcuts : p.Cuts v
  · obtain ⟨hpart, hwhole⟩ := Place.update_of_cuts hcuts (runsAt v.path [] front)
      (runsAt v.path p.path back) _ (hcuts.path ▸ hlater)
    rw [hfound, hwhole] at hcheck hv
    rw [hfound', hpart, Setting.shown_iff_survives hcheck hv]
    exact ⟨fun hs _ => hs, fun hs => hs hcuts⟩
  · have hsame : v.found j' = v.found j := by
      rw [hfound, hfound']
      exact Place.update_of_not_cuts hcuts _ _ _ fun he => he ▸ hlater
    rw [hsame]
    exact ⟨fun _ hc => absurd hc hcuts, fun _ => ⟨hcheck, hv⟩⟩

set_option maxRecDepth 4000 in
theorem comment_hides_batch_size :
    let p : Place :=
      ⟨"<RunSettings><RunConfiguration><BatchSize>15".toList,
        " </BatchSize></RunConfiguration></RunSettings>".toList⟩
    inspect p.text = .ok ⟨some 15, true, none, none⟩ ∧ p.InContent ∧
      inspect (p.withComment " tests ".toList) ≠ .ok ⟨some 15, true, none, none⟩ := by
  intro p
  have hinspect : inspect p.text = .ok ⟨some 15, true, none, none⟩ := by decide +kernel
  have hplace : p.InContent := ⟨by decide +kernel, by decide +kernel⟩
  have hcontent : ¬ "-->".toList <:+: " tests ".toList := by decide +kernel
  refine ⟨hinspect, hplace, fun h => ?_⟩
  have hcuts : p.Cuts .batchSize :=
    ⟨by decide +kernel, by decide +kernel, by decide +kernel, by decide +kernel⟩
  obtain ⟨n, -, hn⟩ := (comment_keeps_settings_iff hinspect hplace hcontent).1 h .batchSize hcuts
  have hparse : parseBatchSize (String.ofList (trim p.after)) =
      .error (.invalidValue batchSizeName "") := by decide +kernel
  cases hparse.symm.trans (parseBatchSize_eq_ok.2 hn)

end

end Proctor.Settings
