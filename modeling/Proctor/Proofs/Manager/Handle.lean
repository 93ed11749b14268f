import Proctor.Proofs.Manager.Lifecycle

/-! # Handles

No two orders have the same number. A handle therefore belongs to one call, which is the one that
created it, and only signals come from others. -/

namespace Proctor.Manager
open Proctor.Request

/-- The handle of its own that a call acts on. -/
def Action.handle? : Action → Option Nat
  | .create id _ _ | .register id | .unregister id | .begin _ id | .finish _ id => some id
  | .telemetry .. | .launch .. | .signal .. => none

variable {σ ε : Type} {E : Engine σ ε} {w w' : World σ} {n m id : Nat} {t : Task} {kind : Kind}
  {p p' : Phase} {a : Action} {as as' : List Action}

theorem handle?_of_mem_creation {o : Order} {launcher : Option Launcher}
    {launches : List (ProcessStart × Except EngineError Nat)} {k : Nat}
    (ha : a ∈ creation k o launcher launches) (hid : a.handle? = some id) : k = id := by
  simp only [creation, List.mem_cons, List.mem_map] at ha
  rcases ha with rfl | ⟨_, -, rfl⟩
  · exact Option.some.inj hid
  · cases hid

theorem created_of_mem {o : Order} {launcher : Option Launcher}
    {launches : List (ProcessStart × Except EngineError Nat)} {k : Nat} {rest : List Action}
    (hrest : ∀ b ∈ rest, b.handle? = some k ∨ b.handle? = none)
    (ha : a ∈ .telemetry kind .start :: creation k o launcher launches ++ rest)
    (hid : a.handle? = some id) :
    ∃ o' d, .create id o' d ∈ .telemetry kind .start :: creation k o launcher launches ++ rest := by
  obtain rfl : k = id := by
    rcases List.mem_append.1 ha with ha | ha
    · rcases List.mem_cons.1 ha with rfl | ha
      · cases hid
      · exact handle?_of_mem_creation ha hid
    · rcases hrest a ha with h | h
      · exact Option.some.inj (h.symm.trans hid)
      · cases h.symm.trans hid
  exact ⟨o, launcher.map Launcher.isDebug, by simp [creation]⟩

/-- Whoever acts on a handle has created it. -/
theorem Lifecycle.created (h : Lifecycle t kind p as) (ha : a ∈ as) (hid : a.handle? = some id) :
    ∃ o d, .create id o d ∈ as := by
  cases h with
  | fresh | unstarted => cases ha
  | misread | queued | unqueued =>
    simp only [List.mem_cons, List.not_mem_nil, or_false] at ha
    rcases ha with rfl | rfl <;> cases hid
  | refused | executing | discovering | finished | abandonedRun | abandonedDiscovery =>
    refine created_of_mem ?_ ha hid
    simp [Action.handle?]

namespace World

/-- Orders are numbered one after the other. -/
structure Numbered (w : World σ) : Prop where
  lt : ∀ {n id o d}, ⟨n, .create id o d⟩ ∈ w.history → id < w.nextId
  unique : ∀ {n m id o d o' d'}, ⟨n, .create id o d⟩ ∈ w.history →
    ⟨m, .create id o' d'⟩ ∈ w.history → n = m

/-- A move gives one order at most, and gives it the next number. -/
theorem Rule.nextId (h : Rule E w n t p p' as w') :
    w'.nextId = w.nextId ∧ (∀ id o d, .create id o d ∉ as) ∨
      w'.nextId = w.nextId + 1 ∧ ∀ id o d, .create id o d ∈ as → id = w.nextId := by
  have hmem : ∀ {id o d launcher launches a b}, (Action.create id o d) ∈
      creation w.nextId a launcher launches ++ b → (∀ id o d, .create id o d ∉ b) →
        id = w.nextId := by
    intro id o d launcher launches a b h hb
    rcases List.mem_append.1 h with h | h
    · exact (handle?_of_mem_creation h rfl).symm
    · exact absurd h (hb _ _ _)
  cases h with
  | refuseRun | enterRun =>
    exact .inr ⟨create_nextId .., fun id o d h => hmem h (by simp)⟩
  | refuseDiscovery | enterDiscovery =>
    refine .inr ⟨create_nextId .., fun id o d h => ?_⟩
    rcases List.mem_cons.1 h with h | h
    · cases h
    · exact hmem h (by simp)
  | misread | queue | proceedRun | proceedDiscovery | finishRun | finishDiscovery | await | expire
  | signal | dropFresh | dropAwaiting | dropQueued | dropDiscovery | dropRun =>
    exact .inl ⟨rfl, by simp⟩

theorem Rule.nextId_le (h : Rule E w n t p p' as w') : w.nextId ≤ w'.nextId := by
  rcases h.nextId with ⟨h, -⟩ | ⟨h, -⟩ <;> omega

theorem Numbered.move (h : w.Numbered) (hm : Move E w n t p p' as w') : w'.Numbered := by
  -- an order of the new history is an old one, or it has the next number
  have hnew : ∀ {m id o d}, ⟨m, .create id o d⟩ ∈ w'.history →
      ⟨m, .create id o d⟩ ∈ w.history ∨ m = n ∧ id = w.nextId ∧ w'.nextId = w.nextId + 1 := by
    intro m id o d he
    refine (hm.moved.mem_history.1 he).imp_right fun ⟨hmn, ha⟩ => ?_
    rcases hm.rule.nextId with ⟨-, hno⟩ | ⟨hnext, hid⟩
    · exact absurd ha (hno _ _ _)
    · exact ⟨hmn, hid _ _ _ ha, hnext⟩
  have hle := hm.rule.nextId_le
  refine ⟨fun he => ?_, fun he he' => ?_⟩
  · rcases hnew he with he | ⟨-, rfl, hnext⟩
    · exact Nat.lt_of_lt_of_le (h.lt he) hle
    · omega
  · rcases hnew he with he | ⟨rfl, rfl, -⟩ <;> rcases hnew he' with he' | ⟨rfl, hid, -⟩
    · exact h.unique he he'
    · exact absurd (h.lt he) (by omega)
    · exact absurd (h.lt he') (by omega)
    · rfl

namespace Reachable
variable {options : Options} {engine : σ}

theorem numbered (h : Reachable E options engine w) : w.Numbered := by
  induction h with
  | refl => constructor <;> simp [start]
  | tail _ hc ih =>
    cases hc with
    | move hm => exact ih.move hm
    | issue | advance | setOptions | outside => exact ⟨ih.lt, ih.unique⟩

theorem exists_call (h : Reachable E options engine w) (he : ⟨n, a⟩ ∈ w.history) :
    ∃ t p, w.task? n = some t ∧ w.phase? n = some p := by
  cases ht : w.task? n with
  | none =>
    have ha := mem_actionsOf.2 he
    rw [h.actionsOf_eq_nil ht] at ha
    cases ha
  | some t =>
    obtain ⟨p, hp⟩ := w.exists_phase? n (by simp [ht])
    exact ⟨t, p, rfl, hp⟩

/-- A call to signal does nothing else. -/
theorem signals (h : Reachable E options engine w) {s : Signal}
    (ht : w.task? n = some (.signal s)) (he : ⟨n, a⟩ ∈ w.history) : ∃ id, a = .signal s id := by
  obtain ⟨p, hp⟩ := w.exists_phase? n (by simp [ht])
  have ha := mem_actionsOf.2 he
  have hs := h.signalling ht hp
  generalize w.actionsOf n = as at ha hs
  cases hs with
  | signalled id => exact ⟨id, List.mem_singleton.1 ha⟩
  | fresh | awaiting | expired | dropped => cases ha

theorem created (h : Reachable E options engine w) (he : ⟨n, a⟩ ∈ w.history)
    (hid : a.handle? = some id) : ∃ o d, ⟨n, .create id o d⟩ ∈ w.history := by
  obtain ⟨t, p, ht, hp⟩ := h.exists_call he
  have ha := mem_actionsOf.2 he
  simp only [← mem_actionsOf]
  cases t with
  | discover => exact (h.lifecycle ht rfl hp).created ha hid
  | run => exact (h.lifecycle ht rfl hp).created ha hid
  | signal s =>
    obtain ⟨_, rfl⟩ := h.signals ht he
    cases hid

theorem isOver_of_finish (h : Reachable E options engine w) {kind : Kind}
    (he : ⟨n, .finish kind id⟩ ∈ w.history) (hp : w.phase? n = some p) : p.isOver := by
  obtain ⟨t, _, ht, -⟩ := h.exists_call he
  have ha := mem_actionsOf.2 he
  cases t with
  | discover => exact (h.lifecycle ht rfl hp).isOver_of_finish ha
  | run => exact (h.lifecycle ht rfl hp).isOver_of_finish ha
  | signal s =>
    obtain ⟨_, ⟨⟩⟩ := h.signals ht he

/-- A handle belongs to one call. -/
theorem call_eq (h : Reachable E options engine w) {b : Action} (hn : ⟨n, a⟩ ∈ w.history)
    (hm : ⟨m, b⟩ ∈ w.history) (ha : a.handle? = some id) (hb : b.handle? = some id) : n = m := by
  obtain ⟨o, d, hn⟩ := h.created hn ha
  obtain ⟨o', d', hm⟩ := h.created hm hb
  exact h.numbered.unique hn hm

end Reachable
end World
end Proctor.Manager
