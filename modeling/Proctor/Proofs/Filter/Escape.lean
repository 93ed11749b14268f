import Proctor.Filter.Escape
import Proctor.Proofs.Text.Trim

/-! # Well escaped texts

A text is well escaped if each backslash takes a special character with it. These are the texts that
`unescape` accepts, `escape` only writes such, and blanks at their ends make no difference. Such a
text is spelled in letters, each a character that stands for itself or a special one behind a
backslash. -/

namespace Proctor.Filter
open Proctor.Text

inductive WellEscaped : List Char → Prop
  | nil : WellEscaped []
  | plain {c : Char} {s : List Char} (hc : c ≠ '\\') (hs : WellEscaped s) : WellEscaped (c :: s)
  | pair {c : Char} {s : List Char} (hc : isSpecial c) (hs : WellEscaped s) :
      WellEscaped ('\\' :: c :: s)

/-- Each backslash takes a character with it, whichever it is, so that none is left to take what
comes behind the text. -/
inductive Sealed : List Char → Prop
  | nil : Sealed []
  | plain {c : Char} {s : List Char} (hc : c ≠ '\\') (hs : Sealed s) : Sealed (c :: s)
  | pair {c : Char} {s : List Char} (hs : Sealed s) : Sealed ('\\' :: c :: s)

theorem WellEscaped.isSealed {s : List Char} (h : WellEscaped s) : Sealed s := by
  induction h with
  | nil => exact .nil
  | plain hc _ ih => exact .plain hc ih
  | pair _ _ ih => exact .pair ih

theorem isSpecial_iff {c : Char} : isSpecial c ↔ c ∈ specialCharacters := by simp [isSpecial]

theorem not_isBlank_of_isSpecial {c : Char} (h : isSpecial c) : ¬ isBlank c := by
  have hall : specialCharacters.all (fun d => !isBlank d) := rfl
  simpa using List.all_eq_true.1 hall c (isSpecial_iff.1 h)

theorem ne_of_isBlank {c d : Char} (hc : isBlank c) (hd : isSpecial d) : c ≠ d := by
  rintro rfl
  exact not_isBlank_of_isSpecial hd hc

namespace WellEscaped
variable {s t : List Char}

theorem of_cons {c : Char} (h : WellEscaped (c :: s)) (hc : c ≠ '\\') : WellEscaped s := by
  cases h with
  | plain _ hs => exact hs
  | pair _ _ => exact absurd rfl hc

theorem of_pair {c : Char} (h : WellEscaped ('\\' :: c :: s)) : isSpecial c ∧ WellEscaped s := by
  cases h with
  | plain hc _ => exact absurd rfl hc
  | pair hc hs => exact ⟨hc, hs⟩

theorem not_lone : ¬ WellEscaped ['\\'] := by
  intro h
  cases h with
  | plain hc _ => exact hc rfl

theorem ne_backslash {c : Char} (h : WellEscaped (c :: s)) (hlone : c = '\\' → s = []) :
    c ≠ '\\' := by
  intro hc
  rw [hc, hlone hc] at h
  exact not_lone h

theorem append (hs : WellEscaped s) (ht : WellEscaped t) : WellEscaped (s ++ t) := by
  induction hs with
  | nil => exact ht
  | plain hc _ ih => exact .plain hc ih
  | pair hc _ ih => exact .pair hc ih

theorem of_blank (h : allBlank s) : WellEscaped s := by
  induction s with
  | nil => exact .nil
  | cons c s ih =>
    obtain ⟨hc, hs⟩ := allBlank_cons.1 h
    exact .plain (ne_of_isBlank hc (by decide)) (ih hs)

theorem of_blank_append {p : List Char} (hp : allBlank p) (h : WellEscaped (p ++ s)) :
    WellEscaped s := by
  induction p with
  | nil => exact h
  | cons c p ih =>
    obtain ⟨hc, hp⟩ := allBlank_cons.1 hp
    exact ih hp (h.of_cons (ne_of_isBlank hc (by decide)))

/-- What stands before a character that is not special is well escaped by itself. -/
theorem of_append (ht : ∀ c ∈ t.head?, ¬ isSpecial c) (h : WellEscaped (s ++ t)) :
    WellEscaped s := by
  generalize hu : s ++ t = u at h
  induction h generalizing s with
  | nil =>
    obtain ⟨rfl, -⟩ := List.append_eq_nil_iff.1 hu
    exact .nil
  | plain hc _ ih =>
    cases s with
    | nil => exact .nil
    | cons d s =>
      simp only [List.cons_append, List.cons.injEq] at hu
      obtain ⟨rfl, hu⟩ := hu
      exact .plain hc (ih hu)
  | pair hc _ ih =>
    rcases s with _ | ⟨d, _ | ⟨e, s⟩⟩
    · exact .nil
    · -- the backslash would take the character with it
      obtain ⟨rfl, rfl⟩ : d = '\\' ∧ t = _ := by simpa using hu
      exact absurd hc (ht _ rfl)
    · simp only [List.cons_append, List.cons.injEq] at hu
      obtain ⟨rfl, rfl, hu⟩ := hu
      exact .pair hc (ih hu)

theorem of_append_blank {q : List Char} (hq : allBlank q) (h : WellEscaped (s ++ q)) :
    WellEscaped s := by
  refine h.of_append fun c hc hspecial => not_isBlank_of_isSpecial hspecial ?_
  exact List.all_eq_true.1 hq c (List.mem_of_mem_head? hc)

theorem trim_iff : WellEscaped (trim s) ↔ WellEscaped s := by
  obtain ⟨p, q, hp, hq, hs⟩ := exists_trim s
  constructor
  · intro h
    rw [hs]
    exact ((of_blank hp).append h).append (of_blank hq)
  · intro h
    rw [hs] at h
    exact of_blank_append hp (of_append_blank hq h)

end WellEscaped

theorem unescape_cons {c : Char} (hc : c ≠ '\\') (s : List Char) :
    unescape (c :: s) = (unescape s).map (c :: ·) := by
  rw [unescape]
  · exact fun h => absurd h hc
  · exact fun _ _ h => absurd h hc

/-! ### Letters -/

/-- One character of a text as it is spelled in an escaped text. -/
inductive Letter
  | bare (c : Char) (hc : c ≠ '\\')
  | escaped (c : Char) (hc : isSpecial c)

namespace Letter

def char : Letter → Char
  | bare c _ | escaped c _ => c

def spelling : Letter → List Char
  | bare c _ => [c]
  | escaped c _ => ['\\', c]

/-- Letters as they are written. -/
def spell (letters : List Letter) : List Char := letters.flatMap spelling

@[simp] theorem spell_bare {c : Char} (hc : c ≠ '\\') (letters : List Letter) :
    spell (bare c hc :: letters) = c :: spell letters := rfl

@[simp] theorem spell_escaped {c : Char} (hc : isSpecial c) (letters : List Letter) :
    spell (escaped c hc :: letters) = '\\' :: c :: spell letters := rfl

/-- Unescaping reads off the characters of the letters. -/
theorem unescape_spell (letters : List Letter) :
    unescape (spell letters) = some (letters.map char) := by
  induction letters with
  | nil => rfl
  | cons letter letters ih =>
    cases letter with
    | bare c hc =>
      rw [spell_bare, unescape_cons hc, ih]
      rfl
    | escaped c hc =>
      rw [spell_escaped, unescape, if_pos hc, ih]
      rfl

theorem exists_of_wellEscaped {t : List Char} (h : WellEscaped t) :
    ∃ letters : List Letter, spell letters = t := by
  induction h with
  | nil => exact ⟨[], rfl⟩
  | plain hc _ ih =>
    obtain ⟨letters, rfl⟩ := ih
    exact ⟨bare _ hc :: letters, rfl⟩
  | pair hc _ ih =>
    obtain ⟨letters, rfl⟩ := ih
    exact ⟨escaped _ hc :: letters, rfl⟩

end Letter

/-! ### Escaping a text and taking the escapes away -/

theorem ne_backslash_of_not_isSpecial {c : Char} (hc : ¬ isSpecial c) : c ≠ '\\' := by
  rintro rfl
  exact hc (by decide)

theorem unescape_escape (s : List Char) : unescape (escape s) = some s := by
  induction s with
  | nil => rfl
  | cons c s ih =>
    rw [escape_cons]
    split
    · next hc => simp [unescape, hc, ih]
    · next hc => simp [unescape_cons (ne_backslash_of_not_isSpecial hc), ih]

theorem not_isBlank_backslash : ¬ isBlank '\\' := by decide

/-- The last case of a scan in which a backslash takes the next character. -/
theorem eq_nil_of_not_pair {c : Char} {s : List Char}
    (hpair : ∀ d rest, c = '\\' → s = d :: rest → False) (hc : c = '\\') : s = [] := by
  cases s with
  | nil => rfl
  | cons d s => exact (hpair d s hc rfl).elim

/-- The last case of `unescape`. -/
theorem ne_backslash_of_plain {c : Char} {s : List Char} (hlone : c = '\\' → s = [] → False)
    (hpair : ∀ d rest, c = '\\' → s = d :: rest → False) : c ≠ '\\' :=
  fun hc => hlone hc (eq_nil_of_not_pair hpair hc)

/-- A text can be unescaped if and only if it is well escaped. -/
theorem unescape_isSome_iff {s : List Char} : (unescape s).isSome ↔ WellEscaped s := by
  constructor
  · intro h
    fun_induction unescape s with
    | case1 => exact .nil
    | case2 => simp at h
    | case3 c s hc ih => exact .pair hc (ih (by simpa using h))
    | case4 => simp at h
    | case5 c s hlone hpair ih =>
      exact .plain (ne_backslash_of_plain hlone hpair) (ih (by simpa using h))
  · intro h
    obtain ⟨letters, rfl⟩ := Letter.exists_of_wellEscaped h
    simp [Letter.unescape_spell]

variable {t u : List Char}

/-- What can be unescaped is spelled in letters. -/
theorem exists_letters (h : unescape t = some u) :
    ∃ letters : List Letter, Letter.spell letters = t ∧ letters.map Letter.char = u := by
  obtain ⟨letters, rfl⟩ :=
    Letter.exists_of_wellEscaped (unescape_isSome_iff.1 (Option.isSome_of_mem h))
  rw [Letter.unescape_spell] at h
  exact ⟨letters, rfl, Option.some.inj h⟩

theorem allBlank_of_unescape (h : unescape t = some u) : allBlank t ↔ allBlank u := by
  obtain ⟨letters, rfl, rfl⟩ := exists_letters h
  clear h
  induction letters with
  | nil => rfl
  | cons letter letters ih =>
    cases letter with
    | bare c hc => simp [Letter.char, ih]
    | escaped c hc =>
      simp [Letter.char, not_isBlank_of_isSpecial hc, not_isBlank_backslash]

theorem unescape_trimStart (h : unescape t = some u) :
    unescape (trimStart t) = some (trimStart u) := by
  obtain ⟨letters, rfl, rfl⟩ := exists_letters h
  clear h
  induction letters with
  | nil => rfl
  | cons letter letters ih =>
    have hwhole := Letter.unescape_spell (letter :: letters)
    cases letter with
    | bare c hc =>
      rw [Letter.spell_bare, List.map_cons] at hwhole ⊢
      simp only [trimStart_cons, Letter.char] at hwhole ⊢
      split
      · exact ih
      · exact hwhole
    | escaped c hc =>
      simpa [trimStart_cons, Letter.char, not_isBlank_of_isSpecial hc, not_isBlank_backslash]
        using hwhole

theorem unescape_trimEnd (h : unescape t = some u) :
    unescape (trimEnd t) = some (trimEnd u) := by
  obtain ⟨letters, rfl, rfl⟩ := exists_letters h
  clear h
  induction letters with
  | nil => rfl
  | cons letter letters ih =>
    have hblank := allBlank_of_unescape (Letter.unescape_spell (letter :: letters))
    cases letter with
    | bare c hc =>
      simp only [Letter.spell_bare, List.map_cons, Letter.char] at hblank ⊢
      simp only [trimEnd_cons, hblank]
      split
      · rfl
      · rw [unescape_cons hc, ih]
        rfl
    | escaped c hc =>
      simp [trimEnd_cons, Letter.char, not_isBlank_of_isSpecial hc, not_isBlank_backslash, unescape,
        hc, ih]

/-- Taking escapes away and trimming go together: no blank is ever escaped. -/
theorem unescape_trim (h : unescape t = some u) : unescape (trim t) = some (trim u) :=
  unescape_trimEnd (unescape_trimStart h)

theorem wellEscaped_of_unescape_trim {s : List Char} (h : unescape (trim s) = some u) :
    WellEscaped s := WellEscaped.trim_iff.1 (unescape_isSome_iff.1 (by simp [h]))

theorem wellEscaped_escape (s : List Char) : WellEscaped (escape s) :=
  unescape_isSome_iff.1 (by simp [unescape_escape])

/-! ### Blanks in escaped texts -/

theorem escape_cons_blank {c : Char} (hc : isBlank c) (s : List Char) :
    escape (c :: s) = c :: escape s := by
  have hplain : ¬ isSpecial c := fun hspecial => not_isBlank_of_isSpecial hspecial hc
  simp [escape_cons, hplain]

theorem escape_of_blank {s : List Char} (h : allBlank s) : escape s = s := by
  induction s with
  | nil => rfl
  | cons c s ih =>
    obtain ⟨hc, hs⟩ := allBlank_cons.1 h
    rw [escape_cons_blank hc, ih hs]

theorem allBlank_escape {s : List Char} : allBlank (escape s) ↔ allBlank s :=
  allBlank_of_unescape (unescape_escape s)

theorem not_isBlank_escape {s : List Char} (h : ∀ c ∈ s, ¬ isBlank c) :
    ∀ d ∈ escape s, ¬ isBlank d := by
  intro d hd
  obtain ⟨c, hc, hd⟩ := List.mem_flatMap.1 hd
  split at hd
  · rcases List.mem_cons.1 hd with rfl | hd
    · exact not_isBlank_backslash
    · exact List.mem_singleton.1 hd ▸ h c hc
  · exact List.mem_singleton.1 hd ▸ h c hc

theorem getLast?_escape (s : List Char) : (escape s).getLast? = s.getLast? := by
  rcases List.eq_nil_or_concat s with rfl | ⟨s, c, rfl⟩
  · rfl
  · rw [List.concat_eq_append, escape_append, escape_cons]
    split <;> simp

/-- An escaped text begins with a blank if and only if the text does. -/
theorem not_isBlank_head?_escape {s : List Char} (h : ∀ c ∈ s.head?, ¬ isBlank c) :
    ∀ d ∈ (escape s).head?, ¬ isBlank d := by
  cases s with
  | nil => simp
  | cons c s =>
    have hc : ¬ isBlank c := h c rfl
    rw [escape_cons]
    split
    · simp [not_isBlank_backslash]
    · simpa using hc

end Proctor.Filter
