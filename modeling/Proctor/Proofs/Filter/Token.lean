import Proctor.Proofs.Filter.Grammar
import Proctor.Proofs.Filter.Reading

/-! # Tokens of a written filter

Terminals are written out by writing each of them down, with blanks at will before each and at the
end. The tokens of such a text are read as these terminals again, as long as no two conditions
touch. -/

namespace Proctor.Filter
open Proctor.Text

/-- Whether a separator stands in the text that no backslash has taken. -/
def hasSeparator : List Char → Bool
  | [] => false
  | '\\' :: _ :: rest => hasSeparator rest
  | c :: rest => (Token.ofSeparator? c).isSome || hasSeparator rest

theorem hasSeparator_cons {c : Char} (hc : c ≠ '\\') (s : List Char) :
    hasSeparator (c :: s) = ((Token.ofSeparator? c).isSome || hasSeparator s) := by
  rw [hasSeparator]
  exact fun _ _ h => absurd h hc

theorem ofSeparator?_of_not_isSpecial {c : Char} (hc : ¬ isSpecial c) :
    Token.ofSeparator? c = none := by
  unfold Token.ofSeparator?
  split <;> first | rfl | exact absurd (by decide) hc

theorem ofSeparator?_of_isBlank {c : Char} (hc : isBlank c) : Token.ofSeparator? c = none :=
  ofSeparator?_of_not_isSpecial fun hspecial => not_isBlank_of_isSpecial hspecial hc

theorem not_hasSeparator_of_blank {s : List Char} (hs : allBlank s) : ¬ hasSeparator s := by
  induction s with
  | nil => simp [hasSeparator]
  | cons c s ih =>
    obtain ⟨hc, hs⟩ := allBlank_cons.1 hs
    simpa [hasSeparator_cons (ne_of_isBlank hc (by decide)), ofSeparator?_of_isBlank hc] using ih hs

theorem hasSeparator_append {s : List Char} (hs : WellEscaped s) (t : List Char) :
    hasSeparator (s ++ t) = (hasSeparator s || hasSeparator t) := by
  induction hs with
  | nil => rfl
  | plain hc _ ih =>
    rw [List.cons_append, hasSeparator_cons hc, hasSeparator_cons hc, ih, Bool.or_assoc]
  | pair _ _ ih => simpa [hasSeparator] using ih

namespace Token

theorem Cut.ofText_cons {c : Char} (hc : c ≠ '\\') (s : List Char) :
    Cut.ofText (c :: s) = match ofSeparator? c with
      | some separator => ⟨[], (separator, (Cut.ofText s).head) :: (Cut.ofText s).tail⟩
      | none => (Cut.ofText s).prepend [c] :=
  Cut.ofText.eq_3 c s fun _ _ h => absurd h hc

theorem Cut.ofText_append {s : List Char} (hs : WellEscaped s) (hp : ¬ hasSeparator s)
    (t : List Char) : Cut.ofText (s ++ t) = (Cut.ofText t).prepend s := by
  induction hs with
  | nil => rfl
  | @plain c s hc _ ih =>
    rw [hasSeparator_cons hc, Bool.or_eq_true, not_or] at hp
    have hn : ofSeparator? c = none := by simpa using hp.1
    rw [List.cons_append, Cut.ofText_cons hc, hn, ih hp.2]
    rfl
  | pair _ _ ih =>
    have hp' := ih hp
    simp only [List.cons_append, Cut.ofText, hp']
    rfl

theorem ne_backslash_of_separator {c : Char} {separator : Token}
    (hc : ofSeparator? c = some separator) : c ≠ '\\' := by
  rintro rfl
  simp [ofSeparator?] at hc

theorem operand?_of_blank {s : List Char} (hs : allBlank s) : operand? s = [] := by
  simp [operand?, trim_eq_nil.2 hs]

/-- A text without separators is at most one operand. -/
theorem ofText_plain {s : List Char} (hs : WellEscaped s) (hp : ¬ hasSeparator s) :
    ofText s = operand? s := by
  have h := Cut.ofText_append hs hp []
  simp only [List.append_nil] at h
  simp [ofText, h, Cut.ofText, Cut.prepend]

theorem ofText_of_blank {s : List Char} (hs : allBlank s) : ofText s = [] := by
  rw [ofText_plain (.of_blank hs) (not_hasSeparator_of_blank hs), operand?_of_blank hs]

theorem ofSeparator?_symbol (op : Connective) :
    ofSeparator? op.symbol = some (.connective op) := by
  cases op <;> rfl

theorem Cut.ofText_append_separator {s t : List Char} {c : Char} {separator : Token}
    (hs : Sealed s) (hc : ofSeparator? c = some separator) :
    Cut.ofText (s ++ c :: t) = ⟨(Cut.ofText s).head,
      (Cut.ofText s).tail ++ (separator, (Cut.ofText t).head) :: (Cut.ofText t).tail⟩ := by
  induction hs with
  | nil =>
    rw [List.nil_append, Cut.ofText_cons (ne_backslash_of_separator hc), hc]
    rfl
  | plain hd _ ih =>
    rw [List.cons_append, Cut.ofText_cons hd, Cut.ofText_cons hd, ih]
    split <;> rfl
  | pair _ ih =>
    simp only [List.cons_append, Cut.ofText, ih]
    rfl

/-- A separator takes no part in the tokens before it or behind it. -/
theorem ofText_sealed_append {s t : List Char} {c : Char} {separator : Token}
    (hs : Sealed s) (hc : ofSeparator? c = some separator) :
    ofText (s ++ c :: t) = ofText s ++ separator :: ofText t := by
  simp [ofText, Cut.ofText_append_separator hs hc]

theorem ofText_append_separator {s t : List Char} {c : Char} {separator : Token}
    (hs : WellEscaped s) (hc : ofSeparator? c = some separator) :
    ofText (s ++ c :: t) = ofText s ++ separator :: ofText t :=
  ofText_sealed_append hs.isSealed hc

/-- After blanks, the text is at its end or at a separator. -/
def Stops (text : List Char) : Prop :=
  ∃ q rest, allBlank q ∧ text = q ++ rest ∧
    ∀ c ∈ rest.head?, ∃ separator, ofSeparator? c = some separator

theorem ofText_append_of_stops {s text : List Char} (hs : WellEscaped s)
    (hp : ¬ hasSeparator s) (ht : Stops text) : ofText (s ++ text) = operand? s ++ ofText text := by
  obtain ⟨q, rest, hq, rfl, hrest⟩ := ht
  have hsq : operand? (s ++ q) = operand? s := by simp only [operand?, trim_append_blank hq]
  have hnq : ¬ hasSeparator q := not_hasSeparator_of_blank hq
  have hw : WellEscaped (s ++ q) := hs.append (.of_blank hq)
  have hn : ¬ hasSeparator (s ++ q) := by simpa [hasSeparator_append hs, hp] using hnq
  rw [← List.append_assoc]
  cases rest with
  | nil => simp [ofText_plain hw hn, ofText_of_blank hq, hsq]
  | cons c rest =>
    obtain ⟨separator, hc⟩ := hrest c rfl
    rw [ofText_append_separator hw hc, ofText_append_separator (.of_blank hq) hc,
      ofText_plain hw hn, ofText_of_blank hq, hsq, List.nil_append]

end Token

/-! ### Writing terminals out -/

namespace Terminal

/-- A terminal as it is written: a condition by any text without separators that is read as it. -/
def Spelled : Terminal → List Char → Prop
  | connective op, s => s = [op.symbol]
  | opening, s => s = ['(']
  | closing, s => s = [')']
  | condition c, s => ¬ hasSeparator s ∧ Condition.parse s = .ok c

/-- The token that a separator is. -/
def token? : Terminal → Option Token
  | connective op => some (.connective op)
  | opening => some .opening
  | closing => some .closing
  | condition _ => none

variable {t : Terminal} {token : Token} {c : Condition} {s : List Char}

theorem eq_condition_of_token? (ht : t.token? = none) : ∃ c, t = condition c := by
  cases t with
  | condition c => exact ⟨c, rfl⟩
  | connective _ | opening | closing => simp [token?] at ht

theorem Spelled.separator (hs : t.Spelled s) (ht : t.token? = some token) :
    ∃ c, s = [c] ∧ Token.ofSeparator? c = some token := by
  cases t with
  | connective op =>
    obtain rfl : Token.connective op = token := by simpa [token?] using ht
    exact ⟨op.symbol, hs, Token.ofSeparator?_symbol op⟩
  | opening =>
    obtain rfl : Token.opening = token := by simpa [token?] using ht
    exact ⟨'(', hs, rfl⟩
  | closing =>
    obtain rfl : Token.closing = token := by simpa [token?] using ht
    exact ⟨')', hs, rfl⟩
  | condition c => simp [token?] at ht

theorem ofToken_of_token? (ht : t.token? = some token) : ofToken token = .ok [t] := by
  cases t with
  | connective op | opening | closing =>
    obtain rfl := Option.some.inj ht
    rfl
  | condition c => simp [token?] at ht

theorem ofToken_trim (h : Condition.parse s = .ok c) :
    ofToken (.operand (trim s)) = .ok [.condition c] := by
  simp [ofToken, Condition.splitJuxtaposed_trim h, Condition.parse_trim h, ok_bind, pure,
    Except.pure]

end Terminal

/-- The terminals in order, with blanks before each and at the end. -/
inductive Written : List Terminal → List Char → Prop
  | blank {s : List Char} (hs : allBlank s) : Written [] s
  | cons {t : Terminal} {ts : List Terminal} {p s text : List Char} (hp : allBlank p)
      (hs : t.Spelled s) (rest : Written ts text) : Written (t :: ts) (p ++ s ++ text)

namespace Written
variable {ts : List Terminal} {text : List Char}

theorem stops (h : Written ts text) (ht : ∀ t ∈ ts.head?, t.token?.isSome) :
    Token.Stops text := by
  cases h with
  | blank hs => exact ⟨text, [], hs, by simp, by simp⟩
  | @cons t ts p s text hp hs rest =>
    obtain ⟨token, htoken⟩ := Option.isSome_iff_exists.1 (ht t rfl)
    obtain ⟨c, rfl, hc⟩ := hs.separator htoken
    refine ⟨p, c :: text, hp, by simp, fun d hd => ?_⟩
    obtain rfl : c = d := by simpa using hd
    exact ⟨token, hc⟩

/-- The tokens of the text are read as the terminals that were written. -/
theorem terminals_ofText (h : Written ts text) (hsep : Separated ts) :
    terminals (Token.ofText text) = .ok ts := by
  induction h with
  | blank hs =>
    rw [Token.ofText_of_blank hs]
    rfl
  | @cons t ts p s text hp hs rest ih =>
    have htail : Separated ts :=
      fun front a b back he => hsep (t :: front) a b back (by simp [he])
    cases ht : t.token? with
    | some token =>
      obtain ⟨c, rfl, hc⟩ := hs.separator ht
      rw [List.append_assoc, List.singleton_append,
        Token.ofText_append_separator (.of_blank hp) hc, Token.ofText_of_blank hp,
        List.nil_append]
      exact terminals_cons_eq_ok.2 ⟨_, _, Terminal.ofToken_of_token? ht, ih htail, rfl⟩
    | none =>
      obtain ⟨c, rfl⟩ := Terminal.eq_condition_of_token? ht
      obtain ⟨hn, hparse⟩ := hs
      have hstop : Token.Stops text := by
        refine rest.stops fun u hu => ?_
        -- what follows a condition is no operand
        match ts, hu with
        | u :: ts, rfl =>
          have hu := hsep [] (.condition c) u ts rfl rfl
          cases u <;> first | rfl | exact absurd rfl hu
      have hw : WellEscaped (p ++ s) :=
        (WellEscaped.of_blank hp).append (Condition.wellEscaped_of_parse hparse)
      have hps : ¬ hasSeparator (p ++ s) := by
        simpa [hasSeparator_append (.of_blank hp), not_hasSeparator_of_blank hp] using hn
      have htoken : Token.operand? (p ++ s) = [.operand (trim s)] := by
        simp [Token.operand?, trim_blank_append hp, Condition.trim_ne_nil_of_parse hparse]
      rw [Token.ofText_append_of_stops hw hps hstop, htoken]
      exact terminals_cons_eq_ok.2 ⟨_, _, Terminal.ofToken_trim hparse, ih htail, rfl⟩

end Written
end Proctor.Filter
