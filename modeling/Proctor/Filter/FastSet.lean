import Proctor.Filter.Condition

/-! # Sets of accepted values

A filter that only lists the values of one property, such as `Name=A|Name=B`, is kept as a set and
decided by membership. `Candidate` watches the conditions of a filter go by and knows whether they
form such a set. -/

namespace Proctor.Filter
open Proctor.Text

/-- A finite set of strings, listed in strictly ascending order. -/
structure ValueSet where
  toList : List String
  sorted : toList.Pairwise (· < ·)
  deriving Repr, DecidableEq

namespace ValueSet

def place (v : String) : List String → List String
  | [] => [v]
  | w :: rest => if v < w then v :: w :: rest else if v = w then w :: rest else w :: place v rest

theorem mem_place {v w : String} {s : List String} : w ∈ place v s ↔ w = v ∨ w ∈ s := by
  induction s with
  | nil => simp [place]
  | cons x rest ih =>
    simp only [place]
    split
    · simp
    · split
      · next hv => simp [hv]
      · simp only [List.mem_cons, ih]
        exact or_left_comm

theorem sorted_place {v : String} {s : List String} (h : s.Pairwise (· < ·)) :
    (place v s).Pairwise (· < ·) := by
  induction s with
  | nil => simp [place]
  | cons x rest ih =>
    rw [List.pairwise_cons] at h
    simp only [place]
    split
    · next hv =>
      refine List.pairwise_cons.2 ⟨fun y hy => ?_, List.pairwise_cons.2 h⟩
      rcases List.mem_cons.1 hy with rfl | hy
      · exact hv
      · exact String.lt_trans hv (h.1 y hy)
    · split
      · exact List.pairwise_cons.2 h
      · next hv hne =>
        refine List.pairwise_cons.2 ⟨fun y hy => ?_, ih h.2⟩
        rcases mem_place.1 hy with rfl | hy
        · grind
        · exact h.1 y hy

def empty : ValueSet := ⟨[], .nil⟩

def insert (v : String) (s : ValueSet) : ValueSet := ⟨place v s.toList, sorted_place s.sorted⟩

def ofList (values : List String) : ValueSet := values.foldl (fun s v => s.insert v) empty

def contains (s : ValueSet) (v : String) : Bool := s.toList.contains v

instance : Membership String ValueSet := ⟨fun s v => v ∈ s.toList⟩

theorem not_mem_empty (v : String) : v ∉ empty := List.not_mem_nil

theorem mem_insert {v w : String} {s : ValueSet} : w ∈ s.insert v ↔ w = v ∨ w ∈ s := mem_place

theorem contains_iff {s : ValueSet} {v : String} : s.contains v ↔ v ∈ s := by
  simp [contains, Membership.mem]

end ValueSet

/-- The tests whose property `name` has a value in `values`. -/
structure FastSet where
  name : String
  values : ValueSet
  deriving Repr, DecidableEq

namespace FastSet

def isNormalized (s : FastSet) : Bool := Filter.isNormalized s.name

def lookupName (s : FastSet) : String := Filter.lookupName s.name

/-- Whether some value of the property is a member. Each value is first transformed, and one without
a transform is no member; the normalized name is cut at its first space instead. -/
def holds (transform : String → Option String) (s : FastSet) : Option PropertyValue → Bool
  | none => false
  | some answer => answer.toList.any fun value =>
    if s.isNormalized then s.values.contains (normalize value)
    else (transform value).any s.values.contains

/-- The condition whose validity decides the set's: equality with the empty value. -/
def blankCondition (s : FastSet) : Condition := ⟨s.name, .equal, ""⟩

def render (s : FastSet) : List Char :=
  (s.name ++ " in \x7b" ++ ", ".intercalate s.values.toList ++ "\x7d").toList

end FastSet

/-- What is known of the conditions so far: none seen, all on one property with `=`, or not a set. -/
inductive Candidate
  | untouched
  | collecting (set : FastSet)
  | ruledOut
  deriving Repr, DecidableEq

namespace Candidate

def add (c : Condition) : Candidate → Candidate
  | untouched =>
    if c.operation = .equal then collecting ⟨c.name, ValueSet.empty.insert c.value⟩ else ruledOut
  | collecting set =>
    if c.operation = .equal ∧ c.name = set.name then
      collecting { set with values := set.values.insert c.value }
    else ruledOut
  | ruledOut => ruledOut

def set? : Candidate → Option FastSet
  | collecting set => some set
  | untouched | ruledOut => none

end Candidate
end Proctor.Filter
