import Proctor.Proofs.Engine.Selection

/-! # How far runs of a catalogue engine come

A run sleeps, waits at a gate, and is over. One that nobody else keeps from the gate comes to its
end once the time has passed and a permit is given. -/

namespace Proctor.Catalogue
open Proctor.Request

/-- A run of this number has come to this stage. -/
def State.IsAt (s : State) (i : Nat) (g : Stage) : Prop := ∃ r ∈ s.runs, r.id = i ∧ r.stage = g

section
variable {script : Script} {s : State} {now id i : Nat} {g : Stage} {r : Run}

theorem isAt_of_run? (h : s.run? id = some r) : s.IsAt id r.stage :=
  ⟨r, (State.run?_mem h).1, (State.run?_mem h).2, rfl⟩

theorem ne_of_run?_eq_none (h : s.run? id = none) (hi : s.IsAt i g) : i ≠ id := by
  rintro rfl
  obtain ⟨r, hr, rfl, -⟩ := hi
  have hnone := List.find?_eq_none.1 h r hr
  simp at hnone

theorem isAt_setRun (h : (s.setRun r).IsAt i g) : s.IsAt i g ∧ i ≠ r.id ∨ i = r.id ∧ g = r.stage := by
  obtain ⟨x, hx, rfl, rfl⟩ := h
  obtain ⟨y, hy, rfl⟩ := List.mem_map.1 hx
  by_cases hid : y.id = r.id
  · have hnew : (if y.id == r.id then r else y) = r := if_pos (by simpa using hid)
    rw [hnew]
    exact .inr ⟨rfl, rfl⟩
  · have hold : (if y.id == r.id then r else y) = y := if_neg (by simpa using hid)
    rw [hold]
    exact .inl ⟨⟨y, hy, rfl, rfl⟩, hid⟩

/-- A permit takes a run only through the gate. -/
theorem isAt_givePermit (h : s.givePermit.IsAt i g) :
    s.IsAt i g ∨ g = .atGate true ∧ s.IsAt i (.atGate false) := by
  unfold State.givePermit at h
  split at h
  · next r hr =>
    rcases isAt_setRun h with ⟨hi, -⟩ | ⟨rfl, rfl⟩
    · exact .inl hi
    · have hstage : r.stage = .atGate false := by simpa using List.find?_some hr
      exact .inr ⟨rfl, r, List.mem_of_find?_eq_some hr, rfl, hstage⟩
  · exact .inl h

/-- A run passes the gate, or waits at it unless it has been let through. -/
theorem passGate_cases (script : Script) (s : State) (r : Run) :
    (∃ (permit : Bool) (r' : Run), r'.id = r.id ∧
      passGate script s r = ({ s with permit }, some r')) ∨
      passGate script s r = (s.setRun { r with stage := .atGate false }, none) ∧
        r.stage ≠ .atGate true := by
  unfold passGate
  split
  · exact .inl ⟨s.permit, r, rfl, rfl⟩
  · next hgate =>
    split
    · exact .inl ⟨false, r, rfl, rfl⟩
    · split
      · exact .inl ⟨s.permit, { r with stopped := false }, rfl, rfl⟩
      · refine .inr ⟨rfl, fun hstage => hgate ?_⟩
        simp [hstage]

theorem resumeRun_of_asleep (h : now < r.wakesAt script now) : resumeRun script s now r =
    ⟨s.setRun { r with stage := .sleeping (r.wakesAt script now) }, [], none⟩ := by
  rw [resumeRun_eq, if_pos h]

/-- A run that is awake comes to its end, or waits at the gate unless it has been let through. -/
theorem resumeRun_of_awake (h : r.wakesAt script now ≤ now) :
    (∃ (permit : Bool) (r' : Run), r'.id = r.id ∧ resumeRun script s now r =
      ⟨State.setRun { s with permit } { r' with stage := .over }, r'.events,
        some (outcome script.executionFailure)⟩) ∨
      resumeRun script s now r = ⟨s.setRun { r with stage := .atGate false }, [], none⟩ ∧
        r.stage ≠ .atGate true := by
  rw [resumeRun_eq, if_neg (Nat.not_lt.2 h)]
  rcases passGate_cases script s r with ⟨permit, r', hid, hgate⟩ | ⟨hgate, hstage⟩
  · rw [hgate]
    exact .inl ⟨permit, r', hid, rfl⟩
  · rw [hgate]
    exact .inr ⟨rfl, hstage⟩

/-- A run sleeps as long as it has been told to, from now on or from an earlier time on. -/
theorem stage_of_asleep (h : now < r.wakesAt script now) :
    r.wakesAt script now = now + script.delay.getD 0 ∨
      r.stage = .sleeping (r.wakesAt script now) := by
  unfold Run.wakesAt at h ⊢
  split
  · exact .inl rfl
  · next u hstage => exact .inr hstage
  · next hstage => simp [hstage] at h
  · next hstage => simp [hstage] at h

theorem isAt_resumeRun (hr : s.run? r.id = some r)
    (h : (resumeRun script s now r).state.IsAt i g) :
    s.IsAt i g ∧ i ≠ r.id ∨ i = r.id ∧ (g = .over ∨ (resumeRun script s now r).result = none ∧
      (g = .sleeping (now + script.delay.getD 0) ∨ s.IsAt i g ∨ g = .atGate false)) := by
  by_cases hasleep : now < r.wakesAt script now
  · rw [resumeRun_of_asleep hasleep] at h ⊢
    refine (isAt_setRun h).imp_right ?_
    rintro ⟨rfl, rfl⟩
    refine ⟨rfl, .inr ⟨rfl, ?_⟩⟩
    rcases stage_of_asleep hasleep with hwakes | hstage
    · exact .inl (congrArg Stage.sleeping hwakes)
    · exact .inr (.inl (hstage ▸ isAt_of_run? hr))
  · rcases resumeRun_of_awake (s := s) (Nat.not_lt.1 hasleep) with ⟨permit, r', hid, heq⟩ | ⟨heq, -⟩
    · rw [heq] at h
      rcases isAt_setRun h with ⟨hi, hne⟩ | ⟨rfl, rfl⟩
      · exact .inl ⟨hi, hid ▸ hne⟩
      · exact .inr ⟨hid, .inl rfl⟩
    · rw [heq] at h ⊢
      refine (isAt_setRun h).imp_right ?_
      rintro ⟨rfl, rfl⟩
      exact ⟨rfl, .inr ⟨rfl, .inr (.inr rfl)⟩⟩

theorem state_resume_of_none (script : Script) (now : Nat) (hr : s.run? id = none) :
    (resume script s now id).state = s := by
  simp only [resume, hr]
  split <;> rfl

/-- Only the run that takes a step gets on, and it is over if the engine has come to its end. -/
theorem isAt_resume (h : (resume script s now id).state.IsAt i g) :
    s.IsAt i g ∧ i ≠ id ∨ i = id ∧ (g = .over ∨ (resume script s now id).result = none ∧
      (g = .sleeping (now + script.delay.getD 0) ∨ s.IsAt i g ∨ g = .atGate false)) := by
  cases hr : s.run? id with
  | some r =>
    obtain ⟨-, rfl⟩ := State.run?_mem hr
    simp only [resume, hr] at h ⊢
    exact isAt_resumeRun hr h
  | none =>
    rw [state_resume_of_none script now hr] at h
    exact .inl ⟨h, ne_of_run?_eq_none hr h⟩

theorem isAt_signal {sig : Signal} (h : (signal script s sig id).1.IsAt i g) : s.IsAt i g := by
  cases hr : s.run? id with
  | none => simpa only [signal, hr] using h
  | some r =>
    rw [signal_of_some hr] at h
    rcases isAt_setRun h with ⟨hi, -⟩ | ⟨rfl, rfl⟩
    · exact hi
    · cases sig <;> exact ⟨r, (State.run?_mem hr).1, rfl, rfl⟩

/-- A run that is given up is over, and may let another one through the gate. -/
theorem isAt_abandon (h : (abandon s id).IsAt i g) (hg : g ≠ .over) :
    i ≠ id ∧ (s.IsAt i g ∨ g = .atGate true ∧ s.IsAt i (.atGate false)) := by
  cases hr : s.run? id with
  | none =>
    simp only [abandon, hr] at h
    exact ⟨ne_of_run?_eq_none hr h, .inl h⟩
  | some r =>
    obtain ⟨-, rfl⟩ := State.run?_mem hr
    have hset : ∀ {g}, g ≠ .over → (s.setRun { r with stage := .over }).IsAt i g →
        i ≠ r.id ∧ s.IsAt i g := by
      rintro g hg hi
      rcases isAt_setRun hi with ⟨hi, hne⟩ | ⟨-, rfl⟩
      · exact ⟨hne, hi⟩
      · exact absurd rfl hg
    simp only [abandon, hr] at h
    split at h
    · rcases isAt_givePermit h with hi | ⟨rfl, hi⟩
      · obtain ⟨hne, hi⟩ := hset hg hi
        exact ⟨hne, .inl hi⟩
      · obtain ⟨hne, hi⟩ := hset (by simp) hi
        exact ⟨hne, .inr ⟨rfl, hi⟩⟩
    · obtain ⟨hne, hi⟩ := hset hg h
      exact ⟨hne, .inl hi⟩

/-- What an order changes: a run or a discovery is added if it is accepted. -/
theorem create_cases (script : Script) (s : State) (id : Nat) (o : Order)
    (launcher : Option Launcher) :
    (create script s id o launcher).state = s ∨
      (create script s id o launcher).result = .ok () ∧ ∃ selected,
        (o.kind = .run ∧ (create script s id o launcher).state =
          { s with runs := s.runs ++ [{ id, selected }] }) ∨
        o.kind = .discovery ∧ (create script s id o launcher).state =
          { s with discoveries := s.discoveries ++ [⟨id, selected, o.criteria.batchSize⟩] } := by
  unfold create
  split
  · exact .inl rfl
  · dsimp only
    split
    · exact .inl rfl
    · next selected _ hkind => exact .inr ⟨rfl, selected, .inr ⟨hkind, rfl⟩⟩
    · next selected _ hkind => exact .inr ⟨rfl, selected, .inl ⟨hkind, rfl⟩⟩

theorem isAt_create {o : Order} {launcher : Option Launcher}
    (h : (create script s id o launcher).state.IsAt i g) :
    s.IsAt i g ∨ o.kind = .run ∧ (create script s id o launcher).result = .ok () ∧ i = id ∧
      g = .idle := by
  rcases create_cases script s id o launcher with hs | ⟨hok, selected, ⟨hkind, hs⟩ | ⟨-, hs⟩⟩
  · exact .inl (hs ▸ h)
  · rw [hs] at h
    obtain ⟨r, hr, rfl, rfl⟩ := h
    rcases List.mem_append.1 hr with hr | hr
    · exact .inl ⟨r, hr, rfl, rfl⟩
    · obtain rfl := List.mem_singleton.1 hr
      exact .inr ⟨hkind, hok, rfl, rfl⟩
  · exact .inl (by rwa [hs] at h)

/-! ### Discoveries -/

theorem discoveries_givePermit (s : State) : s.givePermit.discoveries = s.discoveries := by
  unfold State.givePermit
  split <;> rfl

theorem discoveries_resume (script : Script) (s : State) (now id : Nat) :
    (resume script s now id).state.discoveries = s.discoveries := by
  cases hr : s.run? id with
  | some r =>
    simp only [resume, hr]
    by_cases hasleep : now < r.wakesAt script now
    · rw [resumeRun_of_asleep hasleep]
      rfl
    · rcases resumeRun_of_awake (s := s) (Nat.not_lt.1 hasleep) with
        ⟨permit, r', -, heq⟩ | ⟨heq, -⟩
      · rw [heq]
        rfl
      · rw [heq]
        rfl
  | none => rw [state_resume_of_none script now hr]

theorem discoveries_signal (script : Script) (s : State) (sig : Signal) (id : Nat) :
    (signal script s sig id).1.discoveries = s.discoveries := by
  cases hr : s.run? id with
  | some r => rw [signal_of_some hr]; rfl
  | none => simp only [signal, hr]

theorem discoveries_abandon (s : State) (id : Nat) :
    (abandon s id).discoveries = s.discoveries := by
  unfold abandon
  split
  · dsimp only
    split
    · exact discoveries_givePermit _
    · rfl
  · rfl

theorem discoveries_create {o : Order} {launcher : Option Launcher} {d : Discovery}
    (h : d ∈ (create script s id o launcher).state.discoveries) : d ∈ s.discoveries ∨ d.id = id := by
  rcases create_cases script s id o launcher with hs | ⟨-, selected, ⟨-, hs⟩ | ⟨-, hs⟩⟩
  · exact .inl (hs ▸ h)
  · rw [hs] at h
    exact .inl h
  · rw [hs] at h
    rcases List.mem_append.1 h with h | h
    · exact .inl h
    · exact .inr (congrArg Discovery.id (List.mem_singleton.1 h))

/-- A discovery reports all at once. -/
theorem resume_of_new_discovery (hscript : script.Obliging) {o : Order}
    {launcher : Option Launcher} {selected : List TestCase}
    (hselect : select script.catalogue o.criteria = .ok selected)
    (hlaunch : ∀ l ∈ launcher, ∃ process, l.launch ⟨"testhost", o.criteria.sources⟩ = .ok process)
    (hkind : o.kind = .discovery) (hrun : s.run? id = none)
    (hnew : ∀ d ∈ s.discoveries, d.id ≠ id) :
    let s' := (create script s id o launcher).state
    resume script s' now id =
      ⟨s', Discovery.events ⟨id, selected, o.criteria.batchSize⟩, some (.ok ())⟩ := by
  intro s'
  have hs' : s' = { s with
      discoveries := s.discoveries ++ [⟨id, selected, o.criteria.batchSize⟩] } := by
    have hstate : s' = _ := (create_of_select hscript hselect hlaunch).2
    rwa [hkind] at hstate
  have hrun' : s'.run? id = none := by rwa [hs']
  have hnone : s.discoveries.find? (·.id == id) = none :=
    List.find?_eq_none.2 fun d hd => by simpa using hnew d hd
  have hfind : s'.discoveries.find? (·.id == id) =
      some ⟨id, selected, o.criteria.batchSize⟩ := by
    rw [hs', List.find?_append, hnone]
    simp
  simp only [resume, hrun', hfind, hscript.discovery]
  rfl

/-! ### A run that is let go on -/

/-- The engine knows this run, which is the only one that is not over, and no sleep lasts longer
than the script says. -/
structure State.Alone (script : Script) (s : State) (now id : Nat) : Prop where
  known : ∃ r, s.run? id = some r
  only : ∀ i g, s.IsAt i g → g ≠ .over → i = id
  due : ∀ i u, s.IsAt i (.sleeping u) → u ≤ now + script.delay.getD 0

theorem run?_setRun (hr : s.run? id = some r) {r' : Run} (hid : r'.id = id) :
    (s.setRun r').run? id = some r' := by
  subst hid
  have hfun : ((fun x : Run => x.id == r'.id) ∘ fun x => if x.id == r'.id then r' else x) =
      fun x => x.id == r'.id := by
    funext x
    by_cases h : x.id = r'.id <;> simp [h]
  have hfind : s.runs.find? (fun x => x.id == r'.id) = some r := hr
  have hcond : (r.id == r'.id) = true := by simpa using (State.run?_mem hr).2
  simp only [State.run?, State.setRun, List.find?_map, hfun, hfind, Option.map_some, hcond, if_true]

namespace State.Alone

/-- After a step the run is over, or waits for a time that comes soon or at the gate. -/
theorem resume (h : s.Alone script now id) :
    (∃ result, (Catalogue.resume script s now id).result = some result) ∨
      ∃ r, (Catalogue.resume script s now id).state.run? id = some r ∧
        r.wakesAt script (now + script.delay.getD 0) ≤ now + script.delay.getD 0 := by
  obtain ⟨r, hr⟩ := h.known
  obtain ⟨-, hid⟩ := State.run?_mem hr
  simp only [Catalogue.resume, hr]
  by_cases hasleep : now < r.wakesAt script now
  · have hsoon : r.wakesAt script now ≤ now + script.delay.getD 0 := by
      rcases stage_of_asleep hasleep with hwakes | hstage
      · exact Nat.le_of_eq hwakes
      · exact h.due id _ (hstage ▸ isAt_of_run? hr)
    rw [resumeRun_of_asleep hasleep]
    exact .inr ⟨_, run?_setRun hr hid, hsoon⟩
  · rcases resumeRun_of_awake (s := s) (Nat.not_lt.1 hasleep) with ⟨_, _, -, heq⟩ | ⟨heq, -⟩
    · exact .inl ⟨_, congrArg Progress.result heq⟩
    · rw [heq]
      exact .inr ⟨_, run?_setRun hr hid, Nat.le_refl _⟩

/-- A permit lets the run through the gate, as no other run is there, and then it ends. -/
theorem resume_of_permit (h : s.Alone script now id) (hr : s.run? id = some r)
    (hgate : r.stage = .atGate false) :
    ∃ result, (Catalogue.resume script s.givePermit now id).result = some result := by
  have hsome : (s.runs.find? (·.stage == .atGate false)).isSome :=
    List.find?_isSome.2 ⟨r, (State.run?_mem hr).1, by simp [hgate]⟩
  obtain ⟨r', hr'⟩ := Option.isSome_iff_exists.1 hsome
  have hstage : r'.stage = .atGate false := by simpa using List.find?_some hr'
  have hid : r'.id = id :=
    h.only _ _ ⟨r', List.mem_of_find?_eq_some hr', rfl, hstage⟩ (by simp)
  have hpermit : s.givePermit = s.setRun { r' with stage := .atGate true } := by
    simp only [State.givePermit, hr']
  have hrun : s.givePermit.run? id = some { r' with stage := .atGate true } := by
    rw [hpermit]
    exact run?_setRun hr hid
  have hawake : ({ r' with stage := .atGate true } : Run).wakesAt script now ≤ now := Nat.le_refl _
  simp only [Catalogue.resume, hrun]
  rcases resumeRun_of_awake (s := s.givePermit) hawake with ⟨_, _, -, heq⟩ | ⟨-, hno⟩
  · exact ⟨_, congrArg Progress.result heq⟩
  · exact absurd rfl hno

end State.Alone

/-- A run that is awake is over after its step, or waits at the gate. -/
theorem resume_of_awake (hr : s.run? id = some r) (hawake : r.wakesAt script now ≤ now) :
    (∃ result, (resume script s now id).result = some result) ∨
      ∃ r', (resume script s now id).state.run? id = some r' ∧ r'.stage = .atGate false := by
  obtain ⟨-, hid⟩ := State.run?_mem hr
  simp only [resume, hr]
  rcases resumeRun_of_awake (s := s) hawake with ⟨_, _, -, heq⟩ | ⟨heq, -⟩
  · exact .inl ⟨_, congrArg Progress.result heq⟩
  · rw [heq]
    exact .inr ⟨_, run?_setRun hr hid, rfl⟩

end
end Proctor.Catalogue
