import Proctor.Request.Payload

/-! # Request contexts and their metrics -/

namespace Proctor.Request

/-- Named values, each name with its latest value. -/
structure Metrics where
  entries : List (String × String)
  deriving Repr, DecidableEq

namespace Metrics

def empty : Metrics := ⟨[]⟩

def isEmpty (m : Metrics) : Bool := m.entries.isEmpty

def get? (m : Metrics) (key : String) : Option String := m.entries.lookup key

def add (m : Metrics) (key value : String) : Metrics :=
  ⟨m.entries.filter (·.1 != key) ++ [(key, value)]⟩

theorem get?_add_self (m : Metrics) (key value : String) :
    (m.add key value).get? key = some value := by
  have h : (m.entries.filter (·.1 != key)).lookup key = none := by
    simp only [List.lookup_eq_none_iff, List.mem_filter]
    rintro p ⟨-, hp⟩
    simpa [bne, Bool.beq_comm] using hp
  simp [get?, add, List.lookup_append, h]

end Metrics

def sourceCountName : String := "TestRequest.SourceCount"
def batchSizeName : String := "TestRequest.EventBatchSize"
def filterUsedName : String := "TestRequest.TestCaseFilterUsed"

/-- What an engine is told about the caller. Every call has a context of its own. -/
structure Context where
  protocol : ProtocolConfig
  telemetryOptedIn : Bool
  metrics : Metrics
  deriving Repr, DecidableEq

def Context.new (protocol : ProtocolConfig) (telemetryOptedIn : Bool) : Context :=
  ⟨protocol, telemetryOptedIn, .empty⟩

/-! ### Shared metrics

Several handles may stand for one set of metrics; what is added through one is seen through all. -/

structure SharedMetrics where
  /-- The sets of metrics. -/
  cells : List Metrics
  /-- For each handle, the set it stands for. -/
  handles : List Nat
  deriving Repr, DecidableEq

namespace SharedMetrics

/-- One empty set under the handle 0. -/
def single : SharedMetrics := ⟨[.empty], [0]⟩

def read (s : SharedMetrics) (handle : Nat) : Metrics :=
  (s.handles[handle]?.bind (s.cells[·]?)).getD .empty

def add (s : SharedMetrics) (handle : Nat) (key value : String) : SharedMetrics :=
  match s.handles[handle]? with
  | some cell => { s with cells := s.cells.modify cell (·.add key value) }
  | none => s

/-- A further handle for the same set. -/
def share (s : SharedMetrics) (handle : Nat) : SharedMetrics :=
  { s with handles := s.handles ++ [s.handles[handle]?.getD s.cells.length] }

/-- A handle for a set of its own. -/
def new (s : SharedMetrics) : SharedMetrics :=
  ⟨s.cells ++ [.empty], s.handles ++ [s.cells.length]⟩

end SharedMetrics
end Proctor.Request
