import Mathlib.Data.List.Nodup
import Proctor.Engine.Catalogue
import Proctor.Proofs.Except

/-! # The records of a catalogue engine

How far a run has come changes at every step. What it reports does not: the tests selected for it
and the signals that it was given, which only a signal changes. -/

namespace Proctor.Catalogue
open Proctor.Request

/-! ### Records -/

namespace Run

/-- What a run reports depends on this alone. -/
def record (r : Run) : Run := { r with stage := .idle, stopped := false }

theorem events_record (r : Run) : r.record.events = r.events := rfl

/-- There is room for the two events of a run. -/
theorem length_events_le (r : Run) : r.events.length ≤ capacity := by simp [events, capacity]

def flag (r : Run) : Signal → Bool
  | .cancel => r.cancelled
  | .abort => r.aborted

/-- A run is given a signal. -/
def mark (r : Run) : Signal → Run
  | .cancel => { r with cancelled := true }
  | .abort => { r with aborted := true }

theorem id_mark (r : Run) (sig : Signal) : (r.mark sig).id = r.id := by cases sig <;> rfl

theorem selected_mark (r : Run) (sig : Signal) : (r.mark sig).selected = r.selected := by
  cases sig <;> rfl

theorem flag_mark (r : Run) (sig sig' : Signal) :
    (r.mark sig).flag sig' = (r.flag sig' || sig' = sig) := by
  cases sig <;> cases sig' <;> simp [mark, flag]

theorem events_of_flag {r : Run} {sig : Signal} (h : r.flag sig) :
    r.events = [.testsExecuted [], .runCompleted 0 r.cancelled r.aborted] := by
  have hstopped : (r.cancelled || r.aborted) = true := by cases sig <;> simp_all [flag]
  simp [events, executed, hstopped]

theorem events_of_no_flag {r : Run} (h : ∀ sig, r.flag sig = false) :
    r.events = [.testsExecuted (r.selected.map TestCase.fullyQualifiedName),
      .runCompleted r.selected.length false false] := by
  have hcancelled : r.cancelled = false := h .cancel
  have haborted : r.aborted = false := h .abort
  simp [events, executed, hcancelled, haborted]

end Run

namespace State
variable {s : State} {r : Run} {id : Nat}

/-- The records of all runs. -/
def records (s : State) : List Run := s.runs.map Run.record

/-- No two runs have the same number. -/
def Distinct (s : State) : Prop := (s.records.map Run.id).Nodup

theorem run?_mem (h : s.run? id = some r) : r ∈ s.runs ∧ r.id = id :=
  ⟨List.mem_of_find?_eq_some h, by simpa using List.find?_some h⟩

theorem record_mem (h : r ∈ s.runs) : r.record ∈ s.records := List.mem_map_of_mem h

theorem exists_run? (h : r ∈ s.records) : ∃ r', s.run? r.id = some r' := by
  obtain ⟨r₀, hr₀, rfl⟩ := List.mem_map.1 h
  have hsome : (s.runs.find? (·.id == r₀.id)).isSome := List.find?_isSome.2 ⟨r₀, hr₀, by simp⟩
  exact Option.isSome_iff_exists.1 hsome

/-- The number of a run determines its record. -/
theorem Distinct.eq (hd : s.Distinct) {r' : Run} (hr : r ∈ s.records) (hr' : r' ∈ s.records)
    (h : r.id = r'.id) : r = r' := List.inj_on_of_nodup_map hd hr hr' h

theorem records_setRun (s : State) (r : Run) :
    (s.setRun r).records = s.records.map fun x => if x.id = r.id then r.record else x := by
  simp only [records, setRun, List.map_map]
  refine List.map_congr_left fun x _ => ?_
  by_cases h : x.id = r.id <;> simp [h, Run.record]

/-- A run takes the place of one with the same record. -/
theorem Distinct.records_setRun (hd : s.Distinct) (hr : r.record ∈ s.records) :
    (s.setRun r).records = s.records := by
  rw [State.records_setRun]
  have hsame : ∀ x ∈ s.records, (if x.id = r.id then r.record else x) = x := by
    intro x hx
    split
    · next h => exact hd.eq hr hx h.symm
    · rfl
  exact (List.map_congr_left hsame).trans (List.map_id' _)

theorem Distinct.records_givePermit (hd : s.Distinct) : s.givePermit.records = s.records := by
  unfold givePermit
  split
  · next r hr =>
    have hmem : r.record ∈ s.records := record_mem (List.mem_of_find?_eq_some hr)
    exact hd.records_setRun (r := { r with stage := .atGate true }) hmem
  · rfl

end State

/-- When a run is done sleeping. -/
def Run.wakesAt (script : Script) (now : Nat) (r : Run) : Nat :=
  match r.stage with
  | .idle => now + script.delay.getD 0
  | .sleeping u => u
  | .atGate _ | .over => now

/-! ### Steps of the engine -/

section
variable {script : Script} {s s' : State} {now id : Nat} {r r' : Run}
open State

theorem passGate_some (h : passGate script s r = (s', some r')) :
    s'.records = s.records ∧ r'.record = r.record := by
  unfold passGate at h
  split at h
  · cases h
    exact ⟨rfl, rfl⟩
  · split at h
    · cases h
      exact ⟨rfl, rfl⟩
    · split at h
      · cases h
        exact ⟨rfl, rfl⟩
      · cases h

theorem passGate_none (hd : s.Distinct) (hr : r.record ∈ s.records)
    (h : passGate script s r = (s', none)) : s'.records = s.records := by
  unfold passGate at h
  split at h
  · cases h
  · split at h
    · cases h
    · split at h
      · cases h
      · cases h
        exact hd.records_setRun hr

theorem resumeRun_eq : resumeRun script s now r =
    if now < r.wakesAt script now then
      ⟨s.setRun { r with stage := .sleeping (r.wakesAt script now) }, [], none⟩
    else
      match passGate script s r with
      | (s, none) => ⟨s, [], none⟩
      | (s, some r) =>
        ⟨s.setRun { r with stage := .over }, r.events, some (outcome script.executionFailure)⟩ :=
  rfl

/-- A run at work either waits, and has reported nothing, or is over, and has reported all. -/
theorem resumeRun_cases (hd : s.Distinct) (hr : r.record ∈ s.records) :
    (resumeRun script s now r).state.records = s.records ∧
      ((resumeRun script s now r).result = none ∧ (resumeRun script s now r).events = [] ∨
        (resumeRun script s now r).result.isSome ∧
          (resumeRun script s now r).events = r.events) := by
  rw [resumeRun_eq]
  split
  · exact ⟨hd.records_setRun (r := { r with stage := .sleeping _ }) hr, .inl ⟨rfl, rfl⟩⟩
  · split
    · next hgate => exact ⟨passGate_none hd hr hgate, .inl ⟨rfl, rfl⟩⟩
    · next s' r' hgate =>
      obtain ⟨hs, hr'⟩ := passGate_some hgate
      have hd' : s'.Distinct := by rwa [Distinct, hs]
      have hmem : r'.record ∈ s'.records := by rwa [hr', hs]
      refine ⟨(hd'.records_setRun (r := { r' with stage := .over }) hmem).trans hs, .inr ⟨rfl, ?_⟩⟩
      rw [← Run.events_record, hr', Run.events_record]

theorem records_resume (hd : s.Distinct) : (resume script s now id).state.records = s.records := by
  unfold resume
  split
  · next r hr => exact (resumeRun_cases hd (record_mem (run?_mem hr).1)).1
  · split <;> rfl

/-- A run that is not over has reported nothing, and a run that is over what its record says. -/
theorem resume_cases (hd : s.Distinct) (hr : r ∈ s.records) :
    (resume script s now r.id).result = none ∧ (resume script s now r.id).events = [] ∨
      (resume script s now r.id).result.isSome ∧ (resume script s now r.id).events = r.events := by
  obtain ⟨r', hr'⟩ := exists_run? hr
  obtain ⟨hmem, hid⟩ := run?_mem hr'
  have hrecord : r'.record = r := hd.eq (record_mem hmem) hr hid
  have hevents : r'.events = r.events := by rw [← hrecord, Run.events_record]
  simp only [resume, hr', ← hevents]
  exact (resumeRun_cases hd (record_mem hmem)).2

theorem records_abandon (hd : s.Distinct) : (abandon s id).records = s.records := by
  unfold abandon
  split
  · next r hr =>
    have hmem : r.record ∈ s.records := record_mem (run?_mem hr).1
    have hkeep := hd.records_setRun (r := { r with stage := .over }) hmem
    dsimp only
    split
    · have hd' : (s.setRun { r with stage := .over }).Distinct := by rwa [Distinct, hkeep]
      exact hd'.records_givePermit.trans hkeep
    · exact hkeep
  · rfl

theorem signal_of_some (hr : s.run? id = some r) (sig : Signal) :
    (signal script s sig id).1 = s.setRun { r.mark sig with stopped := true } := by
  cases sig <;> simp only [signal, hr] <;> rfl

/-- A signal marks the run that it is for. -/
theorem records_signal (hd : s.Distinct) (sig : Signal) (id : Nat) :
    (signal script s sig id).1.records =
      s.records.map fun x => if x.id = id then x.mark sig else x := by
  cases hr : s.run? id with
  | some r =>
    obtain ⟨hmem, rfl⟩ := run?_mem hr
    rw [signal_of_some hr, records_setRun]
    refine List.map_congr_left fun x hx => ?_
    simp only [Run.id_mark]
    split
    · next h =>
      rw [hd.eq hx (record_mem hmem) h]
      cases sig <;> rfl
    · rfl
  | none =>
    have hother : ∀ x ∈ s.records, (if x.id = id then x.mark sig else x) = x := by
      intro x hx
      split
      · next h =>
        obtain ⟨r, hr'⟩ := exists_run? hx
        rw [h, hr] at hr'
        cases hr'
      · rfl
    simp only [signal, hr]
    exact ((List.map_congr_left hother).trans (List.map_id' _)).symm

/-- An order that is refused leaves the engine as it is. -/
theorem state_create_of_error {o : Order} {launcher : Option Launcher} {e : EngineError}
    (h : (create script s id o launcher).result = .error e) :
    (create script s id o launcher).state = s := by
  unfold create at h ⊢
  split
  · rfl
  · dsimp only
    split
    · rfl
    · simp_all
    · simp_all

theorem records_create_of_discovery {o : Order} {launcher : Option Launcher}
    (ho : o.kind = .discovery) : (create script s id o launcher).state.records = s.records := by
  unfold create
  split
  · rfl
  · dsimp only
    split
    · rfl
    · rfl
    · simp_all

theorem records_create_of_run {o : Order} {launcher : Option Launcher} (ho : o.kind = .run)
    (h : (create script s id o launcher).result = .ok ()) :
    ∃ selected, select script.catalogue o.criteria = .ok selected ∧
      (create script s id o launcher).state.records =
        s.records ++ [{ id := id, selected := selected }] := by
  revert h
  unfold create
  split
  · simp
  · dsimp only
    split
    · simp
    · simp_all
    · next selected hready _ =>
      intro _
      obtain ⟨_, -, hselect⟩ := bind_eq_ok.1 hready
      exact ⟨selected, hselect, by simp [records, Run.record]⟩

end

end Proctor.Catalogue
