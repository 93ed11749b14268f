import Mathlib.Control.Monad.Basic
import Proctor.Proofs.Manager.Reachable

/-! # The lifecycle of a call

The phase of a call tells what it has done. Whatever becomes of a request, its actions stand between
one start and one stop in telemetry, and the registrar of a run is unhooked. -/

namespace Proctor.Manager
open Proctor.Request

deriving instance DecidableEq for Phase

def Phase.isOver : Phase → Bool
  | .done _ | .dropped => true
  | .fresh | .queued _ | .discovering _ | .executing _ | .awaiting _ => false

/-- A call has taken its first step, and is neither finished nor dropped. -/
def Phase.isLive : Phase → Bool
  | .queued _ | .discovering _ | .executing _ | .awaiting _ => true
  | .fresh | .done _ | .dropped => false

/-- What a call for a request has done when it has come to a phase. -/
inductive Lifecycle (t : Task) : Kind → Phase → List Action → Prop
  | fresh (kind : Kind) : Lifecycle t kind .fresh []
  /-- Dropped before its first step. -/
  | unstarted (kind : Kind) : Lifecycle t kind .dropped []
  | misread {kind : Kind} {options : Options} {e : Settings.SettingsError}
      (order : t.order? options = some (.error e)) :
      Lifecycle t kind (.done (settle (.error (.ofSettings e))))
        [.telemetry kind .start, .telemetry kind .stop]
  | queued {options : Options} {o : Order} (order : t.order? options = some (.ok o)) :
      Lifecycle t .run (.queued o) [.telemetry .run .start]
  /-- Dropped in the queue for the lock. -/
  | unqueued : Lifecycle t .run .dropped [.telemetry .run .start, .telemetry .run .stop]
  | refused {kind : Kind} {options : Options} {o : Order} {id : Nat}
      {launches : List (ProcessStart × Except EngineError Nat)} {e : EngineError}
      (order : t.order? options = some (.ok o)) :
      Lifecycle t kind (.done (settle (.error e)))
        (.telemetry kind .start :: creation id o t.launcher? launches ++ [.telemetry kind .stop])
  | executing {options : Options} {o : Order} {id : Nat}
      {launches : List (ProcessStart × Except EngineError Nat)}
      (order : t.order? options = some (.ok o)) :
      Lifecycle t .run (.executing id)
        (.telemetry .run .start :: creation id o t.launcher? launches ++
          [.register id, .begin .run id])
  | discovering {options : Options} {o : Order} {id : Nat}
      {launches : List (ProcessStart × Except EngineError Nat)}
      (order : t.order? options = some (.ok o)) :
      Lifecycle t .discovery (.discovering id)
        (.telemetry .discovery .start :: creation id o t.launcher? launches ++
          [.register id, .begin .discovery id])
  | finished {kind : Kind} {options : Options} {o : Order} {id : Nat}
      {launches : List (ProcessStart × Except EngineError Nat)} {result : Except EngineError Unit}
      (order : t.order? options = some (.ok o)) :
      Lifecycle t kind (.done (settle result))
        (.telemetry kind .start :: creation id o t.launcher? launches ++
          [.register id, .begin kind id, .finish kind id, .unregister id, .telemetry kind .stop])
  | abandonedRun {options : Options} {o : Order} {id : Nat}
      {launches : List (ProcessStart × Except EngineError Nat)}
      (order : t.order? options = some (.ok o)) :
      Lifecycle t .run .dropped
        (.telemetry .run .start :: creation id o t.launcher? launches ++
          [.register id, .begin .run id, .unregister id, .telemetry .run .stop])
  /-- Nobody unhooks the registrar of a dropped discovery. -/
  | abandonedDiscovery {options : Options} {o : Order} {id : Nat}
      {launches : List (ProcessStart × Except EngineError Nat)}
      (order : t.order? options = some (.ok o)) :
      Lifecycle t .discovery .dropped
        (.telemetry .discovery .start :: creation id o t.launcher? launches ++
          [.register id, .begin .discovery id, .telemetry .discovery .stop])

/-- What a call to signal has done when it has come to a phase. -/
inductive Signalling (s : Signal) : Phase → List Action → Prop
  | fresh : Signalling s .fresh []
  | awaiting (deadline : Nat) : Signalling s (.awaiting deadline) []
  | expired : Signalling s (.done (.ok false)) []
  | signalled (id : Nat) (result : Except EngineError Unit) :
      Signalling s (.done (settle result)) [.signal s id]
  | dropped : Signalling s .dropped []

variable {σ ε : Type} {E : Engine σ ε} {w w' : World σ} {n : Nat} {t : Task} {kind : Kind}
  {p p' : Phase} {as as' : List Action}

/-- Nothing happens to a call that is over. -/
theorem World.Rule.not_isOver (h : World.Rule E w n t p p' as w') : p.isOver = false := by
  cases h with
  | await _ waits | expire _ waits | signal _ waits => rcases waits with ⟨rfl, -⟩ | rfl <;> rfl
  | misread | queue | refuseRun | enterRun | refuseDiscovery | enterDiscovery | proceedRun
  | proceedDiscovery | finishRun | finishDiscovery | dropFresh | dropAwaiting | dropQueued
  | dropDiscovery | dropRun => rfl

theorem Task.launcher?_of_discovery (h : t.kind? = some .discovery) : t.launcher? = none := by
  cases t with
  | discover | signal => rfl
  | run => simp [kind?] at h

theorem Task.exists_order? (h : t.kind? = some kind) (options : Options) :
    ∃ r, t.order? options = some r := by
  cases t with
  | discover | run => exact ⟨_, rfl⟩
  | signal => cases h

theorem count_telemetry_creation (kind : Kind) (edge : Edge) (id : Nat) (o : Order)
    (launcher : Option Launcher) (launches : List (ProcessStart × Except EngineError Nat)) :
    (creation id o launcher launches).count (.telemetry kind edge) = 0 := by
  simp [creation, List.count_eq_zero]

namespace Lifecycle

/-- Each rule takes a call on in its lifecycle. -/
theorem rule (h : Lifecycle t kind p as) (hk : t.kind? = some kind)
    (hr : World.Rule E w n t p p' as' w') : Lifecycle t kind p' (as ++ as') := by
  cases hr with
  | misread asks order =>
    obtain rfl := Option.some.inj (asks.symm.trans hk)
    cases h
    exact .misread order
  | queue asks order =>
    obtain rfl := Option.some.inj (asks.symm.trans hk)
    cases h
    exact .queued order
  | refuseRun =>
    cases h with
    | queued order => exact .refused order
  -- the order was read before the call queued, maybe under other options
  | enterRun =>
    cases h with
    | queued order => exact .executing order
  | refuseDiscovery asks order =>
    obtain rfl := Option.some.inj (asks.symm.trans hk)
    cases h
    rw [← Task.launcher?_of_discovery asks]
    exact .refused order
  | enterDiscovery asks order =>
    obtain rfl := Option.some.inj (asks.symm.trans hk)
    cases h
    rw [← Task.launcher?_of_discovery asks]
    exact .discovering order
  | proceedRun | proceedDiscovery => rwa [List.append_nil]
  | finishRun =>
    cases h with
    | executing order => simpa using @finished t .run _ _ _ _ _ order
  | finishDiscovery =>
    cases h with
    | discovering order => simpa using @finished t .discovery _ _ _ _ _ order
  | await task | expire task | signal task =>
    subst task
    cases hk
  | dropFresh =>
    cases h
    exact .unstarted kind
  | dropAwaiting => cases h
  | dropQueued =>
    cases h
    exact .unqueued
  | dropDiscovery =>
    cases h with
    | discovering order => simpa using abandonedDiscovery order
  | dropRun =>
    cases h with
    | executing order => simpa using abandonedRun order

/-- What a call that is not over has done is how what a finished call has done begins. -/
theorem exists_done (h : Lifecycle t kind p as) (hk : t.kind? = some kind) (options : Options)
    (hp : p.isOver = false) :
    ∃ result bs, Lifecycle t kind (.done result) bs ∧ as <+: bs := by
  have hfinished : ∀ {options o} id launches, t.order? options = some (.ok o) →
      Lifecycle t kind (.done (settle (.ok ()))) (.telemetry kind .start ::
        creation id o t.launcher? launches ++ [.register id, .begin kind id, .finish kind id,
          .unregister id, .telemetry kind .stop]) := fun _ _ order => .finished order
  cases h with
  | fresh =>
    obtain ⟨r, order⟩ := t.exists_order? hk options
    cases r with
    | error e => exact ⟨_, _, .misread order, List.nil_prefix⟩
    | ok o => exact ⟨_, _, hfinished 0 [] order, List.nil_prefix⟩
  | queued order => exact ⟨_, _, hfinished 0 [] order, by simp⟩
  | @executing options o id launches order | @discovering options o id launches order =>
    exact ⟨_, _, hfinished id launches order, by simp⟩
  | unstarted | misread | unqueued | refused | finished | abandonedRun | abandonedDiscovery =>
    cases hp

theorem isOver_of_finish (h : Lifecycle t kind p as) {k : Kind} {id : Nat}
    (hf : .finish k id ∈ as) : p.isOver := by
  cases h with
  | finished => rfl
  | fresh | unstarted | misread | queued | unqueued | refused | executing | discovering
  | abandonedRun | abandonedDiscovery => simp [creation] at hf

/-- A request that has been carried out to its end had its registrar hooked. -/
theorem finish_of_register (h : Lifecycle t kind p as) {result : Except EngineError Bool} {id : Nat}
    (hp : p = .done result) (hr : .register id ∈ as) : .finish kind id ∈ as := by
  subst hp
  cases h with
  | misread | refused => simp [creation] at hr
  | finished =>
    obtain rfl : id = _ := by simpa [creation] using hr
    simp

/-- Every start has its stop, but for a call that is live. -/
theorem count_start (h : Lifecycle t kind p as) (k : Kind) :
    as.count (.telemetry k .start) =
      as.count (.telemetry k .stop) + if kind = k ∧ p.isLive then 1 else 0 := by
  cases h <;> simp [count_telemetry_creation, Phase.isLive, List.count_cons]

end Lifecycle

namespace Signalling
variable {s : Signal}

theorem eq_nil_of_waits (h : Signalling s p as) {deadline : Nat}
    (hw : w.WaitsUntil p deadline) : as = [] := by
  rcases hw with ⟨rfl, -⟩ | rfl
  · cases h
    rfl
  · cases h
    rfl

theorem rule (h : Signalling s p as) (hr : World.Rule E w n (.signal s) p p' as' w') :
    Signalling s p' (as ++ as') := by
  cases hr with
  | misread asks | queue asks | refuseDiscovery asks | enterDiscovery asks => cases asks
  | refuseRun | enterRun | finishRun | finishDiscovery | dropQueued | dropDiscovery | dropRun
  | proceedRun | proceedDiscovery => cases h
  | await _ waits =>
    obtain rfl := h.eq_nil_of_waits waits
    exact .awaiting _
  | expire _ waits =>
    obtain rfl := h.eq_nil_of_waits waits
    exact .expired
  | signal task waits =>
    obtain rfl := Task.signal.inj task
    obtain rfl := h.eq_nil_of_waits waits
    exact .signalled _ _
  | dropFresh | dropAwaiting =>
    cases h
    exact .dropped

theorem eq_signal (h : Signalling s p as) (hp : p = .done (.ok true)) :
    ∃ id, as = [.signal s id] := by
  subst hp
  generalize hq : Phase.done (.ok true) = q at h
  cases h with
  | signalled id => exact ⟨id, rfl⟩
  | fresh | awaiting | expired | dropped => cases hq

theorem count_telemetry (h : Signalling s p as) (kind : Kind) (edge : Edge) :
    as.count (.telemetry kind edge) = 0 := by
  cases h <;> simp

end Signalling

namespace World
variable {options : Options} {engine : σ}

theorem Reachable.lifecycle (h : Reachable E options engine w) (ht : w.task? n = some t)
    (hk : t.kind? = some kind) (hp : w.phase? n = some p) :
    Lifecycle t kind p (w.actionsOf n) := by
  refine h.course (P := fun t p as => ∀ kind, t.kind? = some kind → Lifecycle t kind p as)
    (fun _ kind _ => .fresh kind) (fun hm h kind hk => ?_) ht hp kind hk
  exact (h kind hk).rule hk hm.rule

theorem Reachable.signalling (h : Reachable E options engine w) {s : Signal}
    (ht : w.task? n = some (.signal s)) (hp : w.phase? n = some p) :
    Signalling s p (w.actionsOf n) := by
  refine h.course (P := fun t p as => ∀ s, t = .signal s → Signalling s p as)
    (fun _ _ _ => .fresh) (fun hm h s hs => ?_) ht hp s rfl
  subst hs
  exact (h s rfl).rule hm.rule

theorem Reachable.call_lt (h : Reachable E options engine w) {e : Entry} (he : e ∈ w.history) :
    e.call < w.calls.length := by
  cases ht : w.task? e.call with
  | none =>
    have ha : e.action ∈ w.actionsOf e.call := mem_actionsOf.2 he
    rw [h.actionsOf_eq_nil ht] at ha
    cases ha
  | some t =>
    obtain ⟨c, hc, -⟩ := Option.map_eq_some_iff.1 ht
    exact (List.getElem?_eq_some_iff.1 hc).1

end World
end Proctor.Manager
