import Proctor.Proofs.Filter.Options

/-! # What an evaluation asks

An evaluation asks for one property per condition and per set, from left to right, whatever it is
told. So it can be taken apart: first all questions are put, which the expression alone decides, and
then the answers are judged and joined by the connectives. -/

namespace Proctor.Filter
open Proctor.Text

/-- A place in an expression at which a property is asked for. -/
inductive Question
  | condition (c : Condition)
  | member (set : FastSet)
  deriving Repr, DecidableEq

namespace Question

/-- The name of the property as it stands in the expression. -/
def name : Question → String
  | condition c => c.name
  | member set => set.name

/-- The name that is asked for. -/
def lookupName (q : Question) : String := Filter.lookupName q.name

/-- What the answer comes to. Only a set transforms the values that it is told. -/
def holds (transform : String → Option String) : Question → Option PropertyValue → Bool
  | condition c, answer => c.holds answer
  | member set, answer => set.holds transform answer

end Question

namespace Expression

/-- One question for each condition and each set, from left to right. -/
def questions : Expression → List Question
  | leaf c => [.condition c]
  | binary _ left right => left.questions ++ right.questions
  | oneOf set => [.member set]

/-- The names that are asked for, in the order of the questions. -/
def lookupNames (e : Expression) : List String := e.questions.map Question.lookupName

/-- What the connectives make of the results of the questions, given in their order. -/
def combine : Expression → List Bool → Bool
  | leaf _, results | oneOf _, results => results.headD false
  | binary op left right, results =>
    op.combine (left.combine (results.take left.questions.length))
      (right.combine (results.drop left.questions.length))

/-- A transformation reaches a set only if it is the whole expression. -/
def reaching (transform : String → Option String) : Expression → String → Option String
  | oneOf _ => transform
  | leaf _ | binary .. => some

/-- What an expression comes to, given the answers in the order of the questions. -/
def verdict (transform : String → Option String) (e : Expression)
    (answers : List (Option PropertyValue)) : Bool :=
  e.combine (List.zipWith (Question.holds (e.reaching transform)) e.questions answers)

theorem length_lookupNames (e : Expression) : e.lookupNames.length = e.questions.length :=
  List.length_map _

theorem lookupNames_leaf (c : Condition) : (leaf c).lookupNames = [c.lookupName] := rfl

theorem lookupNames_oneOf (set : FastSet) : (oneOf set).lookupNames = [set.lookupName] := rfl

theorem lookupNames_binary (op : Connective) (left right : Expression) :
    (binary op left right).lookupNames = left.lookupNames ++ right.lookupNames :=
  List.map_append

theorem verdict_some (e : Expression) (answers : List (Option PropertyValue)) :
    e.verdict some answers =
      e.combine (List.zipWith (Question.holds some) e.questions answers) := by
  cases e <;> rfl

/-- The first answers are those of the left side, as many as it has questions. -/
theorem verdict_binary {op : Connective} {left right : Expression}
    {l r : List (Option PropertyValue)} (hl : l.length = left.lookupNames.length) :
    (binary op left right).verdict some (l ++ r) =
      op.combine (left.verdict some l) (right.verdict some r) := by
  have hlength : left.questions.length = l.length := by rw [hl, length_lookupNames]
  have hresults : List.zipWith (Question.holds some) (left.questions ++ right.questions) (l ++ r) =
      List.zipWith (Question.holds some) left.questions l ++
        List.zipWith (Question.holds some) right.questions r := List.zipWith_append hlength
  have hzip : (List.zipWith (Question.holds some) left.questions l).length =
      left.questions.length := by simp [hlength]
  simp only [verdict_some, combine, questions, hresults, List.take_left' hzip,
    List.drop_left' hzip]

end Expression

/-! ### Questions before answers -/

section
variable {m : Type → Type} [Monad m] [LawfulMonad m] {α β γ : Type}

theorem bind_mapM_singleton (f : α → m β) (a : α) (g : List β → m γ) :
    [a].mapM f >>= g = f a >>= fun b => g [b] := by
  simp

/-- What comes after a list of calls may rely on their number. -/
theorem bind_mapM_congr {f : α → m β} {as : List α} {g g' : List β → m γ}
    (h : ∀ bs, bs.length = as.length → g bs = g' bs) : as.mapM f >>= g = as.mapM f >>= g' := by
  induction as generalizing g g' with
  | nil => simp [h [] rfl]
  | cons a as ih =>
    simp only [List.mapM_cons, bind_assoc, pure_bind]
    congr 1
    funext b
    exact ih fun bs hbs => h (b :: bs) (by simp [hbs])

namespace Expression

/-- The answers are judged when all questions have been put. -/
theorem evaluate_eq_verdict (lookup : String → m (Option PropertyValue)) (e : Expression) :
    e.evaluate lookup = do return e.verdict some (← e.lookupNames.mapM lookup) := by
  induction e with
  | leaf c =>
    rw [lookupNames_leaf, bind_mapM_singleton]
    rfl
  | binary op left right ihl ihr =>
    rw [evaluate, ihl, ihr, lookupNames_binary, List.mapM_append]
    simp only [bind_assoc, pure_bind]
    refine bind_mapM_congr fun l hl => ?_
    congr 1
    funext r
    rw [verdict_binary hl]
  | oneOf set =>
    rw [lookupNames_oneOf, bind_mapM_singleton]
    rfl

theorem evaluateTransformed_eq_verdict (transform : String → Option String)
    (lookup : String → m (Option PropertyValue)) (e : Expression) :
    e.evaluateTransformed transform lookup =
      do return e.verdict transform (← e.lookupNames.mapM lookup) := by
  cases e with
  | leaf c => exact evaluate_eq_verdict lookup (leaf c)
  | binary op left right => exact evaluate_eq_verdict lookup (binary op left right)
  | oneOf set =>
    rw [lookupNames_oneOf, bind_mapM_singleton]
    rfl

end Expression
end

/-! ### A provider that remembers -/

/-- Answers by all the names asked for so far, and notes the new one. -/
def remembering (answer : List String → String → Option PropertyValue) (name : String) :
    StateM (List String) (Option PropertyValue) :=
  fun asked => (answer asked name, asked ++ [name])

/-- What such a provider answers when names are asked for one after the other. -/
def answersAfter (answer : List String → String → Option PropertyValue) :
    List String → List String → List (Option PropertyValue)
  | _, [] => []
  | asked, name :: names => answer asked name :: answersAfter answer (asked ++ [name]) names

theorem run_mapM_remembering (answer : List String → String → Option PropertyValue)
    (names asked : List String) :
    (names.mapM (remembering answer)).run asked =
      pure (answersAfter answer asked names, asked ++ names) := by
  induction names generalizing asked with
  | nil => simp [answersAfter]
  | cons name names ih =>
    have hname : (remembering answer name).run asked = pure (answer asked name, asked ++ [name]) :=
      rfl
    simp [hname, ih, answersAfter]

/-- No answer spares a question. An expression asks once for each condition and each set in it, from
left to right, for the fully qualified name where the normalized one is meant. These names are fixed
before the first answer, also if a provider answers by the names asked for so far, and what the
answers come to in their order is joined by the connectives. -/
theorem every_question_is_asked (e : Expression) (transform : String → Option String) :
    (∀ q ∈ e.questions, q.lookupName =
        if sameName q.name "NFQN" then "FullyQualifiedName" else q.name) ∧
      (∀ (m : Type → Type) [Monad m] [LawfulMonad m]
        (lookup : String → m (Option PropertyValue)),
        e.evaluate lookup = do return e.verdict some (← e.lookupNames.mapM lookup)) ∧
      (∀ (m : Type → Type) [Monad m] [LawfulMonad m]
        (lookup : String → m (Option PropertyValue)),
        e.evaluateTransformed transform lookup =
          do return e.verdict transform (← e.lookupNames.mapM lookup)) ∧
      ∀ (answer : List String → String → Option PropertyValue) (asked : List String),
        (e.evaluate (remembering answer)).run asked =
          (e.verdict some (answersAfter answer asked e.lookupNames), asked ++ e.lookupNames) := by
  refine ⟨fun q _ => rfl, fun m _ _ lookup => e.evaluate_eq_verdict lookup,
    fun m _ _ lookup => e.evaluateTransformed_eq_verdict transform lookup, fun answer asked => ?_⟩
  rw [Expression.evaluate_eq_verdict, StateT.run_bind, run_mapM_remembering]
  rfl

/-- The first answer makes the conjunction false, the second the disjunction true; the others are
asked for all the same. The names asked for before are the answer here. -/
theorem decided_expression_goes_on_asking :
    let set : FastSet := ⟨"nfqn", ValueSet.empty.insert "A"⟩
    let e : Expression := .binary .and (.leaf ⟨"A", .equal, "1"⟩)
      (.binary .or (.oneOf set) (.leaf ⟨"B", .notContains, "x"⟩))
    let answer : List String → String → Option PropertyValue :=
      fun asked _ => if asked.isEmpty then none else some (.multiple asked)
    (Question.member set).lookupName = "FullyQualifiedName" ∧
      e.evaluate (remembering answer) =
        (do return e.verdict some (← e.lookupNames.mapM (remembering answer))) ∧
      (e.evaluate (remembering answer)).run [] = (false, ["A", "FullyQualifiedName", "B"]) := by
  intro set e answer
  obtain ⟨hnames, heval, -, hrun⟩ := every_question_is_asked e some
  have hset := hnames (.member set) (by decide)
  have hnormalized : sameName "nfqn" "NFQN" := by decide
  have hasked : e.lookupNames = ["A", "FullyQualifiedName", "B"] := by decide
  have hverdict : e.verdict some (answersAfter answer [] e.lookupNames) = false := by decide
  refine ⟨hset.trans (if_pos hnormalized), heval _ (remembering answer), ?_⟩
  rw [hrun, hverdict, hasked]
  rfl

end Proctor.Filter
