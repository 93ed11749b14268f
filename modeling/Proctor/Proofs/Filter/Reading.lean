import Proctor.Proofs.Except
import Proctor.Proofs.Filter.Condition
import Proctor.Proofs.Filter.Grammar
import Proctor.Proofs.Filter.Tree

/-! # Reading a list of terminals

An operand token stands for the conditions that its text splits into. Reading tokens comes down to
taking the terminals that they stand for one by one. -/

namespace Proctor.Filter
open Proctor.Text

/-! ### From tokens to terminals -/

/-- A token with its operand text read as conditions. -/
def Terminal.ofToken : Token → Except FilterError (List Terminal)
  | .connective op => .ok [.connective op]
  | .opening => .ok [.opening]
  | .closing => .ok [.closing]
  | .operand text => return (← (splitJuxtaposed text).mapM Condition.parse).map .condition

def terminals : List Token → Except FilterError (List Terminal)
  | [] => .ok []
  | token :: tokens => return (← Terminal.ofToken token) ++ (← terminals tokens)

theorem terminals_cons_eq_ok {token : Token} {tokens : List Token} {ts : List Terminal} :
    terminals (token :: tokens) = .ok ts ↔
      ∃ s s', Terminal.ofToken token = .ok s ∧ terminals tokens = .ok s' ∧ s ++ s' = ts := by
  simp only [terminals, bind_eq_ok, pure_eq_ok]
  grind

theorem terminals_append_eq_ok {a b : List Token} {ts : List Terminal} :
    terminals (a ++ b) = .ok ts ↔
      ∃ s s', terminals a = .ok s ∧ terminals b = .ok s' ∧ s ++ s' = ts := by
  induction a generalizing ts with
  | nil => simp [terminals]
  | cons token a ih =>
    simp only [List.cons_append, terminals_cons_eq_ok, ih]
    constructor
    · rintro ⟨s, _, hs, ⟨s', s'', hs', hs'', rfl⟩, rfl⟩
      exact ⟨s ++ s', s'', ⟨s, s', hs, hs', rfl⟩, hs'', List.append_assoc ..⟩
    · rintro ⟨_, s'', ⟨s, s', hs, hs', rfl⟩, hs'', rfl⟩
      exact ⟨s, s' ++ s'', hs, ⟨s', s'', hs', hs'', rfl⟩, (List.append_assoc ..).symm⟩

namespace Reading

def take (r : Reading) : Terminal → Except FilterError Reading
  | .connective op => r.step (.connective op)
  | .opening => r.step .opening
  | .closing => r.step .closing
  | .condition c => .ok (r.addCondition c)

theorem foldlM_addCondition_eq_ok {pieces : List (List Char)} {r r' : Reading} :
    pieces.foldlM (fun r piece => return r.addCondition (← Condition.parse piece)) r = .ok r' ↔
      ∃ cs, pieces.mapM Condition.parse = .ok cs ∧
        (cs.map Terminal.condition).foldlM take r = .ok r' := by
  induction pieces generalizing r with
  | nil => simp [pure_eq_ok]
  | cons piece pieces ih =>
    simp only [List.foldlM_cons, List.mapM_cons, bind_eq_ok, pure_eq_ok, ih]
    constructor
    · rintro ⟨_, ⟨c, hc, rfl⟩, cs, hcs, h⟩
      exact ⟨c :: cs, ⟨c, hc, cs, hcs, rfl⟩, h⟩
    · rintro ⟨_, ⟨c, hc, cs, hcs, rfl⟩, h⟩
      exact ⟨_, ⟨c, hc, rfl⟩, cs, hcs, h⟩

theorem step_eq_ok {r r' : Reading} {token : Token} :
    r.step token = .ok r' ↔
      ∃ ts, Terminal.ofToken token = .ok ts ∧ ts.foldlM take r = .ok r' := by
  cases token with
  | connective op => simp [Terminal.ofToken, take]
  | opening => simp [Terminal.ofToken, take]
  | closing => simp [Terminal.ofToken, take]
  | operand text =>
    simp only [step, addOperand, foldlM_addCondition_eq_ok, Terminal.ofToken, bind_eq_ok,
      pure_eq_ok]
    constructor
    · rintro ⟨cs, hcs, h⟩
      exact ⟨_, ⟨cs, hcs, rfl⟩, h⟩
    · rintro ⟨_, ⟨cs, hcs, rfl⟩, h⟩
      exact ⟨cs, hcs, h⟩

theorem foldlM_step_eq_ok {tokens : List Token} {r r' : Reading} :
    tokens.foldlM step r = .ok r' ↔ ∃ ts, terminals tokens = .ok ts ∧ ts.foldlM take r = .ok r' := by
  induction tokens generalizing r with
  | nil => simp [terminals]
  | cons token tokens ih =>
    simp only [List.foldlM_cons, bind_eq_ok, step_eq_ok, ih, terminals_cons_eq_ok]
    constructor
    · rintro ⟨r₁, ⟨s, hs, h₁⟩, s', hs', h₂⟩
      refine ⟨_, ⟨s, s', hs, hs', rfl⟩, ?_⟩
      rw [List.foldlM_append, h₁]
      exact h₂
    · rintro ⟨_, ⟨s, s', hs, hs', rfl⟩, h⟩
      rw [List.foldlM_append] at h
      obtain ⟨r₁, h₁, h₂⟩ := bind_eq_ok.1 h
      exact ⟨r₁, ⟨s, hs, h₁⟩, s', hs', h₂⟩

end Reading

theorem Expression.ofTokens_eq_ok {tokens : List Token} {tree : Expression}
    {set : Option FastSet} :
    ofTokens tokens = .ok (tree, set) ↔ ¬ Token.hasEmptyParenthesis tokens ∧
      ∃ ts r, terminals tokens = .ok ts ∧ ts.foldlM Reading.take Reading.start = .ok r ∧
        Reading.finish r.operators r.operands = .ok [tree] ∧ r.candidate.set? = set := by
  unfold ofTokens
  by_cases he : Token.hasEmptyParenthesis tokens
  · rw [if_pos he]
    simp [he, throw, throwThe, MonadExceptOf.throw, bind, Except.bind]
  · rw [if_neg he]
    simp only [bind_eq_ok, Reading.foldlM_step_eq_ok]
    constructor
    · rintro ⟨r, ⟨ts, hts, hr⟩, operands, hf, h⟩
      refine ⟨he, ts, r, hts, hr, ?_⟩
      match operands, h with
      | [e], h =>
        obtain ⟨rfl, rfl⟩ : e = tree ∧ r.candidate.set? = set := by simpa [pure_eq_ok] using h
        exact ⟨hf, rfl⟩
    · rintro ⟨-, ts, r, hts, hr, hf, rfl⟩
      exact ⟨r, ⟨ts, hts, hr⟩, _, hf, rfl⟩

end Proctor.Filter
