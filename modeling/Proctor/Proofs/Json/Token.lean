import Mathlib.Data.List.Basic
import Mathlib.Data.List.TakeDrop
import Proctor.Json.Reader
import Proctor.Json.Writer

/-! # JSON strings and numbers are read back

Whatever a string holds, its written form is read as this string again, and so is a natural number
in front of anything that does not go on with a number. -/

namespace Proctor.Json

/-! ### Strings -/

theorem hexDigit?_hexDigit : ∀ n < 16, hexDigit? (hexDigit n) = some n := by decide

theorem fourHex_low {n : Nat} (hn : n < 0x20) (rest : List Char) :
    fourHex ('0' :: '0' :: hexDigit (n / 16) :: hexDigit (n % 16) :: rest) = .ok n := by
  have hzero : hexDigit? '0' = some 0 := by decide
  have hhigh := hexDigit?_hexDigit (n / 16) (by omega)
  have hlow := hexDigit?_hexDigit (n % 16) (by omega)
  simp only [fourHex, hzero, hhigh, hlow, Except.ok.injEq]
  omega

theorem escaped_low {c : Char} (hc : c.toNat < 0x20) (rest : List Char) :
    escaped false
      ('u' :: '0' :: '0' :: hexDigit (c.toNat / 16) :: hexDigit (c.toNat % 16) :: rest) =
        .ok (c, 5) := by
  have hlow : ¬ 0xdc00 ≤ c.toNat := by omega
  have hhigh : ¬ 0xd800 ≤ c.toNat := by omega
  simp [escaped, fourHex_low hc, hlow, hhigh, bind, Except.bind, pure, Except.pure]

/-- A character is read back from the way it is written in a string. -/
theorem readBody_escapeChar (c : Char) (rest : List Char) :
    readBody false 0 (escapeChar c ++ rest) =
      (readBody false 0 rest).map fun p => (c :: p.1, p.2) := by
  unfold escapeChar
  split
  case h_8 c hquote hslash _ _ _ _ _ =>
    split
    · next hlow =>
      simp only [List.cons_append, List.nil_append, readBody, escaped_low hlow]
      rfl
    · next hlow =>
      simp only [List.cons_append, List.nil_append, readBody]
      rw [if_neg hquote, if_neg hslash, if_neg hlow]
      rfl
  all_goals rfl

theorem readBody_escape (s rest : List Char) :
    readBody false 0 (s.flatMap escapeChar ++ '"' :: rest) = .ok (s, rest) := by
  induction s with
  | nil => rfl
  | cons c s ih => rw [List.flatMap_cons, List.append_assoc, readBody_escapeChar, ih]; rfl

/-! ### Numbers -/

theorem le_ofDigitChars (ds : List Char) (start : Nat) : start ≤ Nat.ofDigitChars 10 ds start := by
  induction ds generalizing start with
  | nil => exact Nat.le_refl start
  | cons d ds ih =>
    rw [Nat.ofDigitChars_cons]
    exact Nat.le_trans (by omega) (ih _)

/-- Digits whose value fits are all taken. -/
theorem fitting_of_lt {ds : List Char} {start : Nat}
    (h : Nat.ofDigitChars 10 ds start < Nat.pow 2 64) :
    fitting start ds = (Nat.ofDigitChars 10 ds start, ds.length) := by
  induction ds generalizing start with
  | nil => rfl
  | cons d ds ih =>
    rw [Nat.ofDigitChars_cons] at h ⊢
    have hfits := Nat.lt_of_le_of_lt (le_ofDigitChars ds _) h
    simp only [fitting, if_pos hfits, ih h, List.length_cons]

/-- No number but zero begins with a zero. -/
theorem head?_toDigits_ne {n : Nat} (hn : 0 < n) : (Nat.toDigits 10 n).head? ≠ some '0' := by
  induction n using Nat.strongRecOn with
  | _ n ih =>
    by_cases hlt : n < 10
    · rw [Nat.toDigits_of_lt_base hlt]
      have hdigit : ∀ k < 10, 0 < k → Nat.digitChar k ≠ '0' := by decide
      simpa using hdigit n hlt hn
    · have hne : Nat.toDigits 10 (n / 10) ≠ [] := Nat.toDigits_ne_nil
      rw [Nat.toDigits_of_base_le (by omega) (by omega), List.head?_append_of_ne_nil _ hne]
      exact ih (n / 10) (by omega) (by omega)

/-- The text does not go on with a number. -/
def EndsNumber (rest : List Char) : Prop :=
  ∀ c ∈ rest.head?, c.isDigit = false ∧ c ≠ '.' ∧ c ≠ 'e' ∧ c ≠ 'E'

theorem digits_append {ds rest : List Char} (hds : ∀ d ∈ ds, d.isDigit) (hrest : EndsNumber rest) :
    digits (ds ++ rest) = (ds, rest) := by
  have htake : rest.takeWhile Char.isDigit = [] ∧ rest.dropWhile Char.isDigit = rest := by
    cases rest with
    | nil => simp
    | cons c rest => simp [(hrest c rfl).1]
  rw [digits, List.span_eq_takeWhile_dropWhile, List.takeWhile_append_of_pos hds,
    List.dropWhile_append_of_pos hds, htake.1, htake.2, List.append_nil]

/-- A natural number that fits is read back. -/
theorem readNumber_natural {n : Nat} (hn : n < Nat.pow 2 64) {rest : List Char}
    (hrest : EndsNumber rest) : readNumber true (natural n ++ rest) = .ok (some n, rest) := by
  have hdigits : digits (natural n ++ rest) = (natural n, rest) :=
    digits_append (fun d hd => Nat.isDigit_of_mem_toDigits (by omega) (by omega) hd) hrest
  have hvalue : Nat.ofDigitChars 10 (natural n) 0 = n :=
    Nat.ofDigitChars_toDigits (by omega) (by omega)
  have hfitting : fitting 0 (natural n) = (n, (natural n).length) := by
    rw [fitting_of_lt (by rw [hvalue]; exact hn), hvalue]
  have hexponent : ((natural n).length : Int) - (natural n).length = 0 := by omega
  unfold readNumber
  rw [hdigits]
  split
  · next h => exact absurd (Prod.mk.inj h).1 Nat.toDigits_ne_nil
  · next h => exact absurd (Prod.mk.inj h).1 Nat.toDigits_ne_nil
  · next ds _ h =>
    -- a zero in front of other digits is none of the number's own
    have hhead : (natural n).head? = some '0' := by rw [(Prod.mk.inj h).1]; rfl
    by_cases hzero : n = 0
    · subst hzero
      exact absurd (Prod.mk.inj h).1 (by simp [natural, Nat.toDigits_zero])
    · exact absurd hhead (head?_toDigits_ne (Nat.pos_of_ne_zero hzero))
  · next ds rest' _ _ _ h =>
    obtain ⟨rfl, rfl⟩ := Prod.mk.inj h
    simp only [hfitting, hexponent]
    split
    · next => exact absurd rfl (hrest '.' rfl).2.1
    · next => exact absurd rfl (hrest 'e' rfl).2.2.1
    · next => exact absurd rfl (hrest 'E' rfl).2.2.2
    · rfl

end Proctor.Json
