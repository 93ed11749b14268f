import Mathlib.Data.List.DropRight
import Proctor.Proofs.Filter.Display
import Proctor.Proofs.Filter.Separator

/-! # The canonical spelling of a text

Of all the spellings of a text in letters, `escape` writes the one in which every special character
has its backslash, so that neither a separator nor an operator is seen in it. Whether a character
is escaped is a matter of the backslashes right before it: they pair off, and it takes an odd one
for the character. -/

namespace Proctor.Filter

namespace Letter

theorem isSome_unescape_iff {t : List Char} :
    (unescape t).isSome ↔ ∃ letters : List Letter, spell letters = t := by
  constructor
  · intro h
    exact exists_of_wellEscaped (unescape_isSome_iff.1 h)
  · rintro ⟨letters, rfl⟩
    simp [unescape_spell]

/-- Special only if it is escaped. -/
def IsCanonical : Letter → Prop
  | bare c _ => ¬ isSpecial c
  | escaped _ _ => True

/-- Escaping spells each character in the one canonical way. -/
theorem escape_map_char_iff (letters : List Letter) :
    escape (letters.map char) = spell letters ↔ ∀ letter ∈ letters, letter.IsCanonical := by
  induction letters with
  | nil => simp [spell]
  | cons letter letters ih =>
    rw [List.forall_mem_cons, ← ih, List.map_cons, escape_cons]
    cases letter with
    | bare c hc =>
      rw [spell_bare]
      by_cases hspecial : isSpecial c
      · -- the two texts begin with a backslash and with the bare character
        simp [char, IsCanonical, hspecial, hc.symm]
      · simp [char, IsCanonical, hspecial]
    | escaped c hc => simp [char, IsCanonical, hc]

end Letter

/-! ### What is escaped -/

/-- The text escapes the character behind it: an odd number of backslashes stands at its end. -/
def Escapes (front : List Char) : Prop := (front.rtakeWhile (· == '\\')).length % 2 = 1

instance : DecidablePred Escapes := fun _ => inferInstanceAs (Decidable (_ = _))

/-- Every special character is an escaping backslash or is escaped. -/
def FullyEscaped (t : List Char) : Prop :=
  ∀ front c back, t = front ++ c :: back → isSpecial c →
    (c = '\\' ∧ ¬ Escapes front) ∨ Escapes front

section
variable {c : Char} {s t : List Char}

@[simp] theorem not_escapes_nil : ¬ Escapes [] := by decide

@[simp] theorem escapes_backslash : Escapes ['\\'] := by decide

/-- A backslash escapes what is behind it, if it is not escaped itself. -/
theorem escapes_concat : Escapes (s ++ [c]) ↔ c = '\\' ∧ ¬ Escapes s := by
  by_cases hc : c = '\\'
  · simp only [Escapes, List.rtakeWhile_concat, hc, beq_self_eq_true, if_true, List.length_append,
      List.length_singleton, true_and]
    omega
  · simp [Escapes, hc]

theorem escapes_cons (hc : c ≠ '\\') : Escapes (c :: s) ↔ Escapes s := by
  induction s using List.reverseRecOn with
  | nil =>
    have hlone : Escapes [c] ↔ _ := escapes_concat (s := [])
    simp [hlone, hc]
  | append_singleton s d ih => rw [← List.cons_append, escapes_concat, escapes_concat, ih]

theorem escapes_pair : Escapes ('\\' :: c :: s) ↔ Escapes s := by
  induction s using List.reverseRecOn with
  | nil =>
    have hpair : Escapes ['\\', c] ↔ _ := escapes_concat (s := ['\\'])
    simp [hpair]
  | append_singleton s d ih =>
    rw [← List.cons_append, ← List.cons_append, escapes_concat, escapes_concat, ih]

/-- The backslashes at the end tell whether one is left to take what comes behind the text. -/
theorem sealed_iff : Sealed s ↔ ¬ Escapes s := by
  constructor
  · intro h
    induction h with
    | nil => exact not_escapes_nil
    | plain hc _ ih => rwa [escapes_cons hc]
    | pair _ ih => rwa [escapes_pair]
  · intro h
    -- by the recursion of a scan in which a backslash takes whatever comes next
    fun_induction hasSeparator s with
    | case1 => exact .nil
    | case2 c s ih => exact .pair (ih (mt escapes_pair.2 h))
    | case3 c s hpair ih =>
      have hc : c ≠ '\\' := by
        rintro rfl
        rw [eq_nil_of_not_pair hpair rfl] at h
        exact h escapes_backslash
      exact .plain hc (ih (mt (escapes_cons hc).2 h))

theorem fullyEscaped_cons (hc : c ≠ '\\') :
    FullyEscaped (c :: t) ↔ ¬ isSpecial c ∧ FullyEscaped t := by
  constructor
  · intro h
    refine ⟨fun hspecial => ?_, fun front d back ht hd => ?_⟩
    · simpa [hc] using h [] c t rfl hspecial
    · have hd := h (c :: front) d back (congrArg (c :: ·) ht) hd
      rwa [escapes_cons hc] at hd
  · rintro ⟨hplain, h⟩ front d back ht hd
    cases front with
    | nil =>
      obtain ⟨rfl, -⟩ := List.cons.inj ht
      exact absurd hd hplain
    | cons e front =>
      simp only [List.cons_append, List.cons.injEq] at ht
      obtain ⟨rfl, ht⟩ := ht
      rw [escapes_cons hc]
      exact h front d back ht hd

theorem fullyEscaped_pair : FullyEscaped ('\\' :: c :: t) ↔ FullyEscaped t := by
  constructor
  · intro h front d back ht hd
    have hd := h ('\\' :: c :: front) d back (congrArg ('\\' :: c :: ·) ht) hd
    rwa [escapes_pair] at hd
  · intro h front d back ht hd
    -- the place is the backslash, the character it takes, or one behind the pair
    rcases front with _ | ⟨e, _ | ⟨f, front⟩⟩
    · obtain ⟨rfl, -⟩ := List.cons.inj ht
      exact .inl ⟨rfl, not_escapes_nil⟩
    · obtain ⟨rfl, -⟩ := List.cons.inj ht
      exact .inr escapes_backslash
    · simp only [List.cons_append, List.cons.injEq] at ht
      obtain ⟨rfl, rfl, ht⟩ := ht
      rw [escapes_pair]
      exact h front d back ht hd

theorem fullyEscaped_spell_iff (letters : List Letter) :
    FullyEscaped (Letter.spell letters) ↔ ∀ letter ∈ letters, letter.IsCanonical := by
  induction letters with
  | nil => simp [Letter.spell, FullyEscaped]
  | cons letter letters ih =>
    rw [List.forall_mem_cons, ← ih]
    cases letter with
    | bare c hc => exact fullyEscaped_cons hc
    | escaped c hc =>
      rw [Letter.spell_escaped, fullyEscaped_pair]
      simp [Letter.IsCanonical]

/-- What is escaped leaves no separator among the tokens. -/
theorem not_isSeparator_of_mem_escape {token : Token} (h : token ∈ Token.ofText (escape s)) :
    ¬ token.isSeparator := by
  rw [Token.ofText_plain (wellEscaped_escape s) (not_hasSeparator_escape s)] at h
  exact List.filter_eq_nil_iff.1 (Token.filter_operand? (escape s)) token h

variable {u : List Char}

theorem eq_escape_iff : ((∃ s, escape s = t) ∧ unescape t = some u) ↔ t = escape u := by
  constructor
  · rintro ⟨⟨s, rfl⟩, h⟩
    rw [unescape_escape] at h
    obtain rfl := Option.some.inj h
    rfl
  · rintro rfl
    exact ⟨⟨u, rfl⟩, unescape_escape u⟩

/-- Escaping writes the fully escaped spelling, whichever one was read. -/
theorem escape_eq_iff (h : unescape t = some u) : escape u = t ↔ FullyEscaped t := by
  obtain ⟨letters, rfl, rfl⟩ := exists_letters h
  rw [Letter.escape_map_char_iff, fullyEscaped_spell_iff]

end

/-- Any text can be escaped and is read back. Its escaped form shows neither a separator nor an
operator, and does not escape what comes behind it. A text can be unescaped if and only if it is
spelled in letters. Then what it is read as has one escaped form, and the text is this form if and
only if it is fully escaped. -/
theorem escaping_is_faithful_and_inert :
    (∀ s, unescape (escape s) = some s ∧
      (∀ token ∈ Token.ofText (escape s), ¬ token.isSeparator) ∧
      (Cut.ofText (escape s)).tail = [] ∧ ¬ Escapes (escape s)) ∧
    ∀ t, ((unescape t).isSome ↔ ∃ letters : List Letter, Letter.spell letters = t) ∧
      ∀ u, unescape t = some u →
        (∀ x, ((∃ s, escape s = x) ∧ unescape x = unescape t) ↔ x = escape u) ∧
        (escape u = t ↔ FullyEscaped t) := by
  refine ⟨fun s => ?_, fun t => ⟨Letter.isSome_unescape_iff, fun u h => ⟨fun x => ?_, ?_⟩⟩⟩
  · have htail : (Cut.ofText (escape s)).tail = [] := by rw [Cut.ofText_escape]
    have hsealed : Sealed (escape s) := (wellEscaped_escape s).isSealed
    exact ⟨unescape_escape s, fun token => not_isSeparator_of_mem_escape, htail,
      sealed_iff.1 hsealed⟩
  · rw [h]
    exact eq_escape_iff
  · exact escape_eq_iff h

/-- The third backslash of a row escapes what is behind it, so only the `=` lacks one here. -/
theorem bare_operator_is_not_canonical :
    let t := "\\\\\\(=".toList
    let u := "\\(=".toList
    let x := "\\\\\\(\\=".toList
    unescape t = some u ∧ escape u = x ∧ ¬ FullyEscaped t ∧ FullyEscaped x ∧
      ∀ y, ((∃ s, escape s = y) ∧ unescape y = unescape t) ↔ y = x := by
  intro t u x
  have ht : unescape t = some u := rfl
  have hx : unescape x = some u := rfl
  have hescape : escape u = x := rfl
  obtain ⟨hunique, hfull⟩ := (escaping_is_faithful_and_inert.2 t).2 u ht
  have hne : escape u ≠ t := by decide
  exact ⟨ht, hescape, mt hfull.2 hne,
    ((escaping_is_faithful_and_inert.2 x).2 u hx).2.1 hescape, hunique⟩

end Proctor.Filter
