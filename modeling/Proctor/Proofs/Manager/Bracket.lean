import Proctor.Proofs.Manager.Snapshot

/-! # Starts and stops

A call for a request shows up in telemetry with its first step, and has its stop there once it is
done or dropped. Whether it has taken its first step, and whether it was dropped, is known from the
steps alone. -/

namespace Proctor.Manager
open Proctor.Request

namespace Lifecycle
variable {t : Task} {kind : Kind} {p : Phase} {as : List Action}

/-- A call that has done anything has shown up in telemetry first. -/
theorem eq_nil_or_cons (h : Lifecycle t kind p as) :
    p.isIdle ∧ as = [] ∨ ∃ rest, as = .telemetry kind .start :: rest := by
  cases h with
  | fresh | unstarted => exact .inl ⟨rfl, rfl⟩
  | misread | queued | unqueued | refused | executing | discovering | finished | abandonedRun
  | abandonedDiscovery => exact .inr ⟨_, rfl⟩

theorem isLive_iff (h : Lifecycle t kind p as) :
    p.isLive ↔ (∃ rest, as = .telemetry kind .start :: rest) ∧ ¬ p.isOver := by
  cases h <;> simp [Phase.isLive, Phase.isOver]

end Lifecycle

namespace World
variable {σ ε : Type} {E : Engine σ ε} {w : World σ} {n : Nat} {t : Task} {kind : Kind} {p : Phase}
  {options : Options} {engine : σ} {steps : List (Step ε)}

/-- The call takes its first step at one of these. -/
def Begins (E : Engine σ ε) (w : World σ) (steps : List (Step ε)) (n : Nat) : Prop :=
  ∃ front back, steps = front ++ .resume n :: back ∧ (w.run E front).phase? n = some .fresh

/-- The call is dropped at one of these steps, when it is not over. -/
def Drops (E : Engine σ ε) (w : World σ) (steps : List (Step ε)) (n : Nat) : Prop :=
  ∃ front back, steps = front ++ .drop n :: back ∧
    ∃ p, (w.run E front).phase? n = some p ∧ p.isOver = false

theorem dropped_run_iff (hw : w.phase? n ≠ some .dropped) (steps : List (Step ε)) :
    (w.run E steps).phase? n = some .dropped ↔ w.Drops E steps n := by
  induction steps using List.reverseRecOn with
  | nil =>
    have hnil : w.run E [] = w := rfl
    simp [Drops, hnil, hw]
  | append_singleton steps s ih =>
    rw [run_append, run_singleton, dropped_apply_iff, ih]
    exact exists_split_append_singleton.symm

theorem actionsOf_run (E : Engine σ ε) (w : World σ) (n : Nat) (steps : List (Step ε)) :
    w.actionsOf n <+: (w.run E steps).actionsOf n := ((history_run E w steps).filter _).map _

/-- With its first step, a call shows up in telemetry. -/
theorem Reachable.exists_start (h : Reachable E options engine w) (ht : w.task? n = some t)
    (hk : t.kind? = some kind) (hp : w.phase? n = some .fresh) :
    ∃ as, (w.resume E n).actionsOf n = .telemetry kind .start :: as := by
  have ht' : (w.resume E n).task? n = some t := (changes_apply E w (.resume n)).task?_eq ht
  obtain ⟨p, hp'⟩ := World.exists_phase? _ n (Option.isSome_of_eq_some ht')
  have hidle : ((w.resume E n).phase? n).any Phase.isIdle = false :=
    resume_not_idle (by simp [hp])
  rw [hp', Option.any_some] at hidle
  have h' : Reachable E options engine (w.resume E n) := h.step (.resume n)
  rcases (h'.lifecycle ht' hk hp').eq_nil_or_cons with ⟨hidle', -⟩ | hstart
  · rw [hidle] at hidle'
    cases hidle'
  · exact hstart

/-- A call has taken its first step exactly if it has shown up in telemetry. -/
theorem begins_iff (E : Engine σ ε) (options : Options) (engine : σ) (steps : List (Step ε))
    (ht : ((World.start options engine).run E steps).task? n = some t)
    (hk : t.kind? = some kind) : (World.start options engine).Begins E steps n ↔
      ∃ as, ((World.start options engine).run E steps).actionsOf n =
        .telemetry kind .start :: as := by
  constructor
  · rintro ⟨front, back, rfl, hfresh⟩
    rw [run_append] at ht ⊢
    let u := (World.start options engine).run E front
    obtain ⟨t', ht'⟩ := Option.isSome_iff_exists.1 (u.isSome_task?_of_phase? n hfresh)
    obtain rfl := Option.some.inj (((changes_run E u _).task?_eq ht').symm.trans ht)
    obtain ⟨as, has⟩ := (reachable_run E options engine front).exists_start ht' hk hfresh
    obtain ⟨rest, hrest⟩ := actionsOf_run E (u.resume E n) n back
    exact ⟨as ++ rest, by rw [← List.cons_append, ← has, hrest]; rfl⟩
  · rintro ⟨as, has⟩
    rcases idle_or_hasSeen E options engine steps ht with hidle | ⟨front, back, hsteps, hfresh, -⟩
    · cases hidle.1.symm.trans has
    · exact ⟨front, back, hsteps, hfresh⟩

/-! ### As many starts as stops, but for the calls under way -/

/-- The calls for requests of a kind that have taken their first step, and are neither finished nor
dropped. -/
def liveCalls (w : World σ) (kind : Kind) : List Nat :=
  (List.range w.calls.length).filter fun n =>
    (w.task? n).bind Task.kind? = some kind ∧ (w.phase? n).any Phase.isLive

theorem mem_liveCalls (kind : Kind) : n ∈ w.liveCalls kind ↔
    (w.task? n).bind Task.kind? = some kind ∧ (w.phase? n).any Phase.isLive := by
  simp only [liveCalls, List.mem_filter, List.mem_range, decide_eq_true_eq, and_iff_right_iff_imp]
  rintro ⟨hkind, -⟩
  obtain ⟨t, ht, -⟩ := Option.bind_eq_some_iff.1 hkind
  obtain ⟨c, hc, -⟩ := Option.map_eq_some_iff.1 ht
  exact (List.getElem?_eq_some_iff.1 hc).1

theorem count_actionsOf (a : Action) :
    (w.actionsOf n).count a = w.history.countP fun e => e.call = n ∧ e.action = a := by
  rw [actionsOf, List.count, List.countP_map, List.countP_filter]
  refine List.countP_congr fun e _ => ?_
  simp [and_comm]

/-- The actions of the first calls, one call after the other. -/
theorem countP_call_lt_succ (entries : List Entry) (k : Nat) (a : Action) :
    (entries.countP fun e => e.call < k + 1 ∧ e.action = a) =
      (entries.countP fun e => e.call < k ∧ e.action = a) +
        entries.countP fun e => e.call = k ∧ e.action = a := by
  induction entries with
  | nil => rfl
  | cons e entries ih => grind

theorem Reachable.count_start (h : Reachable E options engine w) (n : Nat) (kind : Kind) :
    (w.actionsOf n).count (.telemetry kind .start) =
      (w.actionsOf n).count (.telemetry kind .stop) +
        if (w.task? n).bind Task.kind? = some kind ∧ (w.phase? n).any Phase.isLive then 1
        else 0 := by
  cases ht : w.task? n with
  | none => simp [h.actionsOf_eq_nil ht]
  | some t =>
    obtain ⟨p, hp⟩ := w.exists_phase? n (by simp [ht])
    cases hk : t.kind? with
    | some k =>
      rw [(h.lifecycle ht hk hp).count_start kind]
      simp [hk, hp]
    | none =>
      cases t with
      | discover | run => cases hk
      | signal s =>
        have hs := h.signalling ht hp
        simp [hs.count_telemetry, hk]

/-- As many calls of a kind are live as starts have no stop. -/
theorem Reachable.starts_eq (h : Reachable E options engine w) (kind : Kind) :
    (w.history.countP fun e => e.action = .telemetry kind .start) =
      (w.history.countP fun e => e.action = .telemetry kind .stop) +
        (w.liveCalls kind).length := by
  have hall : ∀ a, (w.history.countP fun e => e.call < w.calls.length ∧ e.action = a) =
      w.history.countP fun e => e.action = a := by
    intro a
    refine List.countP_congr fun e he => ?_
    simp [h.call_lt he]
  rw [← hall, ← hall, liveCalls]
  generalize w.calls.length = k
  induction k with
  | zero => simp
  | succ k ih =>
    rw [countP_call_lt_succ, countP_call_lt_succ, ih, ← count_actionsOf, ← count_actionsOf,
      h.count_start, List.range_succ, List.filter_append, List.length_append]
    simp only [List.filter_cons, List.filter_nil, decide_eq_true_eq]
    split
    · simp only [List.length_singleton]
      omega
    · simp only [List.length_nil]
      omega

/-- The steps tell which calls are live. -/
theorem mem_liveCalls_iff (E : Engine σ ε) (options : Options) (engine : σ)
    (steps : List (Step ε)) (n : Nat) (kind : Kind) :
    let start := World.start options engine
    let w := start.run E steps
    n ∈ w.liveCalls kind ↔
      (w.task? n).bind Task.kind? = some kind ∧ start.Begins E steps n ∧ ¬ w.IsOver n := by
  intro start w
  rw [mem_liveCalls]
  refine and_congr_right fun hkind => ?_
  obtain ⟨t, ht, hk⟩ := Option.bind_eq_some_iff.1 hkind
  obtain ⟨p, hp⟩ := w.exists_phase? n (Option.isSome_of_eq_some ht)
  have hl := (reachable_run E options engine steps).lifecycle ht hk hp
  have hover : w.IsOver n ↔ p.isOver := by simp [IsOver, hp]
  rw [hover, hp, Option.any_some, hl.isLive_iff, begins_iff E options engine steps ht hk]

/-- Whatever calls there are, however their steps interleave and whichever of them are dropped, each
call for a request goes through its lifecycle. It shows up in telemetry if it has taken its first
step, and else has done nothing. Over, it has done what its end requires, and before that the
beginning of what a finished call has done; it ends as dropped exactly if a step drops it before it
is done. At each moment, as many calls of a kind have taken their first step and are not over as
starts have no stop. -/
theorem calls_are_bracketed (E : Engine σ ε) (options : Options) (engine : σ)
    (steps : List (Step ε)) :
    let start := World.start options engine
    let w := start.run E steps
    (∀ n t kind p, w.task? n = some t → t.kind? = some kind → w.phase? n = some p →
      Lifecycle t kind p (w.actionsOf n) ∧
      (start.Begins E steps n → ∃ as, w.actionsOf n = .telemetry kind .start :: as) ∧
      (¬ start.Begins E steps n → w.actionsOf n = []) ∧
      (p = .dropped ↔ start.Drops E steps n) ∧
      (p.isOver = false →
        ∃ result as, Lifecycle t kind (.done result) as ∧ w.actionsOf n <+: as)) ∧
    ∀ kind, ∃ live : List Nat, live.Nodup ∧
      (∀ n, n ∈ live ↔ (w.task? n).bind Task.kind? = some kind ∧ start.Begins E steps n ∧
        ¬ w.IsOver n) ∧
      (w.history.countP fun e => e.action = .telemetry kind .start) =
        (w.history.countP fun e => e.action = .telemetry kind .stop) + live.length := by
  intro start w
  have h : Reachable E options engine w := reachable_run E options engine steps
  refine ⟨fun n t kind p ht hk hp => ?_, fun kind => ⟨w.liveCalls kind,
    List.nodup_range.filter _, fun n => ?_, h.starts_eq kind⟩⟩
  · have hl := h.lifecycle ht hk hp
    have hbegins := begins_iff E options engine steps ht hk
    have hnew : start.phase? n ≠ some .dropped := by simp [start, World.start, phase?]
    refine ⟨hl, hbegins.1, fun hnot => ?_, ?_, hl.exists_done hk options⟩
    · exact (hl.eq_nil_or_cons.resolve_right fun hstart => hnot (hbegins.2 hstart)).2
    · rw [← dropped_run_iff hnew, ← Option.some_inj, ← hp]
  · exact mem_liveCalls_iff E options engine steps n kind

/-- Keeps each run at the gate. -/
def gatekeeper : Engine Catalogue.State Catalogue.Outside :=
  Catalogue.engine { catalogue := Catalogue.sample, gated := true }

def calcRun : Task := .run ⟨["calc.dll"], "", none⟩ none ⟨6⟩

/-- The first run is at the gate and the others queue when the second one and the first one are
dropped. -/
def upheaval : List (Step Catalogue.Outside) := [
  .issue calcRun, .issue calcRun, .issue calcRun, .resume 0, .resume 1, .resume 2, .drop 1, .drop 0]

theorem dropped_runs_are_bracketed :
    let start := World.start {} {}
    let w := start.run gatekeeper upheaval
    (.begin .run 1 ∈ w.actionsOf 0 ∧ .finish .run 1 ∉ w.actionsOf 0) ∧
    w.actionsOf 1 = [.telemetry .run .start, .telemetry .run .stop] ∧
    (∀ n ∈ [0, 1], start.Begins gatekeeper upheaval n ∧ start.Drops gatekeeper upheaval n ∧
      w.phase? n = some .dropped ∧ Lifecycle calcRun .run .dropped (w.actionsOf n) ∧
      ∃ as, w.actionsOf n = .telemetry .run .start :: as) ∧
    ∃ live : List Nat, live.Nodup ∧
      (∀ n, n ∈ live ↔ (w.task? n).bind Task.kind? = some .run ∧
        start.Begins gatekeeper upheaval n ∧ ¬ w.IsOver n) ∧
      3 = 2 + live.length := by
  intro start w
  obtain ⟨hcalls, hcount⟩ := calls_are_bracketed gatekeeper {} {} upheaval
  have hdropped : ∀ n, w.task? n = some calcRun → start.Begins gatekeeper upheaval n →
      start.Drops gatekeeper upheaval n → start.Begins gatekeeper upheaval n ∧
        start.Drops gatekeeper upheaval n ∧ w.phase? n = some .dropped ∧
        Lifecycle calcRun .run .dropped (w.actionsOf n) ∧
        ∃ as, w.actionsOf n = .telemetry .run .start :: as := by
    intro n ht hbegins hdrops
    obtain ⟨p, hp⟩ := w.exists_phase? n (Option.isSome_of_eq_some ht)
    obtain ⟨hl, hstart, -, hp', -⟩ := hcalls n calcRun .run p ht rfl hp
    obtain rfl := hp'.2 hdrops
    exact ⟨hbegins, hdrops, hp, hl, hstart hbegins⟩
  have hbegins₀ : start.Begins gatekeeper upheaval 0 := ⟨upheaval.take 3, upheaval.drop 4, rfl, rfl⟩
  have hbegins₁ : start.Begins gatekeeper upheaval 1 :=
    ⟨upheaval.take 4, upheaval.drop 5, rfl, by decide +kernel⟩
  have hdrops₀ : start.Drops gatekeeper upheaval 0 :=
    ⟨upheaval.take 7, [], rfl, .executing 1, by decide +kernel, rfl⟩
  obtain ⟨p₁, hp₁, hlive₁⟩ : ∃ p, (start.run gatekeeper (upheaval.take 6)).phase? 1 = some p ∧
      !p.isOver := (Option.any_eq_true ..).1 (by decide +kernel)
  have hdrops₁ : start.Drops gatekeeper upheaval 1 :=
    ⟨upheaval.take 6, [.drop 0], rfl, p₁, hp₁, by simpa using hlive₁⟩
  obtain ⟨live, hnodup, hlive, hstarts⟩ := hcount .run
  have hcounted : (w.history.countP fun e => e.action = .telemetry .run .start) = 3 ∧
      (w.history.countP fun e => e.action = .telemetry .run .stop) = 2 := by decide +kernel
  rw [hcounted.1, hcounted.2] at hstarts
  refine ⟨by decide +kernel, by decide +kernel, ?_, live, hnodup, hlive, hstarts⟩
  simp only [List.forall_mem_cons, List.not_mem_nil, false_imp_iff, implies_true, and_true]
  exact ⟨hdropped 0 (task?_of_take 3 rfl) hbegins₀ hdrops₀,
    hdropped 1 (task?_of_take 3 rfl) hbegins₁ hdrops₁⟩

end World
end Proctor.Manager
