import Mathlib.Data.List.DropRight
import Proctor.Markup.Reader

/-! # Where a piece of markup ends

The reader finds the end of a piece of markup by a scan: for a mark, for a `>` outside quotes, or
for a `>` that balances the brackets. An end that was found is found again, whatever stands behind
it. -/

namespace Proctor.Text
variable {mark front s rest : List Char}

theorem dropPrefix?_append (front rest : List Char) :
    dropPrefix? front (front ++ rest) = some rest := dropPrefix?_eq_some.2 rfl

theorem dropPrefix?_eq_none : dropPrefix? front s = none ↔ ¬ front <+: s := by
  rw [Option.eq_none_iff_forall_ne_some]
  constructor
  · rintro h ⟨rest, rfl⟩
    exact h rest (dropPrefix?_append front rest)
  · intro h rest hrest
    exact h ⟨rest, (dropPrefix?_eq_some.1 hrest).symm⟩

theorem splitAt?_mark_append (mark rest : List Char) :
    splitAt? mark (mark ++ rest) = some ([], rest) := by
  cases hs : mark ++ rest with
  | nil =>
    obtain ⟨rfl, rfl⟩ := List.append_eq_nil_iff.1 hs
    rfl
  | cons c s => simp only [splitAt?, ← hs, dropPrefix?_append]

theorem splitAt?_cons {c : Char} (h : ¬ mark <+: c :: s) :
    splitAt? mark (c :: s) = (splitAt? mark s).map fun (front, back) => (c :: front, back) := by
  simp only [splitAt?, dropPrefix?_eq_none.2 h]

end Proctor.Text

namespace Proctor.Markup
open Proctor.Text

/-- However the text goes on, the scan finds `content` in front of the first `mark`. -/
def Delimited (scan : List Char → Option (List Char × List Char)) (mark content : List Char) :
    Prop :=
  ∀ rest, scan (content ++ mark ++ rest) = some (content, rest)

theorem delimited_of_splitAt? {mark s content rest : List Char}
    (h : splitAt? mark s = some (content, rest)) : Delimited (splitAt? mark) mark content := by
  intro rest'
  induction content generalizing s with
  | nil => exact splitAt?_mark_append mark rest'
  | cons c content ih =>
    cases s with
    | nil =>
      simp only [splitAt?] at h
      split at h <;> simp at h
    | cons d s =>
      have hs := eq_append_of_splitAt? h
      obtain ⟨rfl, hs⟩ : d = c ∧ s = content ++ mark ++ rest := by simpa using hs
      have hnot : ¬ mark <+: d :: s := by
        rw [← dropPrefix?_eq_none]
        simp only [splitAt?] at h
        split at h
        · simp at h
        · next hnone => exact hnone
      rw [splitAt?_cons hnot] at h
      obtain ⟨⟨front, back⟩, hf, he⟩ := Option.map_eq_some_iff.1 h
      obtain ⟨rfl, rfl⟩ : front = content ∧ back = rest := by simpa using he
      -- a mark that stands further to the front would stand there in `s` as well
      have hnot' : ¬ mark <+: d :: (front ++ mark ++ rest') := by
        intro hp
        have hpre : mark <+: d :: (front ++ mark) :=
          List.prefix_of_prefix_length_le hp ⟨rest', by simp⟩ (by simp; omega)
        exact hnot (hpre.trans ⟨back, by simp [hs]⟩)
      rw [List.cons_append, List.cons_append, splitAt?_cons hnot', ih hf]
      rfl

/-- The quote that is open behind a character. -/
def quoteAfter (quote : Option Char) (c : Char) : Option Char :=
  match quote with
  | none => if c = '"' || c = '\'' then some c else none
  | some q => if c = q then none else some q

theorem tagEnd_cons {quote : Option Char} {c : Char} (h : quote = none → c ≠ '>') (s : List Char) :
    tagEnd quote (c :: s) =
      (tagEnd (quoteAfter quote c) s).map fun (content, rest) => (c :: content, rest) := by
  cases quote with
  | some q => simp only [tagEnd, quoteAfter]
  | none =>
    rw [tagEnd]
    · rfl
    · exact h rfl

/-- The quotes that open are the double and the single one. -/
def IsQuote (q : Char) : Prop := q = '"' ∨ q = '\''

theorem isQuote_of_quoteAfter {quote : Option Char} {c : Char} (hq : ∀ q ∈ quote, IsQuote q) :
    ∀ q ∈ quoteAfter quote c, IsQuote q := by
  intro q hmem
  cases quote with
  | none =>
    simp only [quoteAfter] at hmem
    split at hmem
    · next hc =>
      obtain rfl := Option.some.inj hmem
      simpa [IsQuote] using hc
    · cases hmem
  | some p =>
    simp only [quoteAfter] at hmem
    split at hmem
    · cases hmem
    · exact hq q hmem

/-- Between quotes no `>` ends a tag, as long as the quotes stay open. -/
theorem not_tagEnd_quoted {q : Char} {s rest : List Char} (hq : q ∉ s) :
    tagEnd (some q) (s ++ '>' :: rest) ≠ some (s, rest) := by
  induction s with
  | nil => simp [tagEnd]
  | cons c s ih =>
    obtain ⟨hc, hs⟩ : q ≠ c ∧ q ∉ s := by simpa using hq
    simpa [tagEnd, Ne.symm hc] using ih hs

/-- A tag that ends behind a text without quotes could end in front of that text too. -/
theorem delimited_of_tagEnd_append {quote : Option Char} (hq : ∀ q ∈ quote, IsQuote q)
    {content s rest : List Char} (hs : ∀ c ∈ s, ¬ IsQuote c)
    (h : tagEnd quote (content ++ s ++ '>' :: rest) = some (content ++ s, rest)) :
    Delimited (tagEnd quote) ['>'] content := by
  intro rest'
  induction content generalizing quote with
  | nil =>
    cases quote with
    | none => simp [tagEnd]
    | some q => exact absurd h (not_tagEnd_quoted fun hmem => hs q hmem (hq q rfl))
  | cons c content ih =>
    have hc : quote = none → c ≠ '>' := by
      rintro rfl rfl
      simp [tagEnd] at h
    simp only [List.cons_append] at h ⊢
    rw [tagEnd_cons hc] at h ⊢
    obtain ⟨⟨front, back⟩, hf, he⟩ := Option.map_eq_some_iff.1 h
    obtain ⟨rfl, rfl⟩ : front = content ++ s ∧ back = rest := by simpa using he
    rw [ih (isQuote_of_quoteAfter hq) hf]
    rfl

theorem delimited_of_tagEnd {s content rest : List Char}
    (h : tagEnd none s = some (content, rest)) : Delimited (tagEnd none) ['>'] content := by
  rw [eq_append_of_tagEnd h] at h
  exact delimited_of_tagEnd_append (s := []) (by simp) (by simp) (by simpa using h)

theorem delimited_of_balancedEnd {depth : Nat} {s content rest : List Char}
    (h : balancedEnd depth s = some (content, rest)) :
    Delimited (balancedEnd depth) ['>'] content := by
  intro rest'
  rw [eq_append_of_balancedEnd h] at h
  induction content generalizing depth with
  | nil =>
    cases depth with
    | zero => simp [balancedEnd]
    | succ depth => simp [balancedEnd] at h
  | cons c content ih =>
    have hc : ¬ (c = '>' && depth = 0) := by
      intro hc
      simp [balancedEnd, hc] at h
    simp only [List.cons_append, balancedEnd, hc] at h ⊢
    obtain ⟨⟨front, back⟩, hf, he⟩ := Option.map_eq_some_iff.1 h
    obtain ⟨rfl, rfl⟩ : front = content ∧ back = rest := by simpa using he
    simpa using ih hf

theorem balancedEnd_append {p : List Char} (hp : ∀ c ∈ p, c ≠ '<' ∧ c ≠ '>') (depth : Nat)
    (s : List Char) :
    balancedEnd depth (p ++ s) =
      (balancedEnd depth s).map fun (content, rest) => (p ++ content, rest) := by
  induction p with
  | nil => simp
  | cons c p ih =>
    obtain ⟨hlt, hgt⟩ := hp c (by simp)
    have ih := ih fun d hd => hp d (by simp [hd])
    simp [balancedEnd, hlt, hgt, ih, Function.comp_def]

theorem delimited_of_balancedEnd_append {p content : List Char} {depth : Nat}
    (hp : ∀ c ∈ p, c ≠ '<' ∧ c ≠ '>') (h : Delimited (balancedEnd depth) ['>'] (p ++ content)) :
    Delimited (balancedEnd depth) ['>'] content := by
  intro rest
  have h := h rest
  rw [List.append_assoc, List.append_assoc, balancedEnd_append hp] at h
  obtain ⟨⟨front, back⟩, hf, he⟩ := Option.map_eq_some_iff.1 h
  obtain ⟨rfl, rfl⟩ : front = content ∧ back = rest := by simpa using he
  simpa using hf

/-- The name of a document type is found again without the word and the blanks before it. -/
theorem delimited_of_doctype {s content rest : List Char}
    (h : balancedEnd 0 s = some (content, rest))
    (hword : (content.take 7).map Char.toLower = "doctype".toList) :
    Delimited (balancedEnd 0) ['>'] ((content.drop 7).dropWhile isBlank) := by
  have hcontent : content = content.take 7 ++ (content.drop 7).takeWhile isBlank ++
      (content.drop 7).dropWhile isBlank := by
    rw [List.append_assoc, List.takeWhile_append_dropWhile, List.take_append_drop]
  have hplain : ∀ c ∈ content.take 7 ++ (content.drop 7).takeWhile isBlank, c ≠ '<' ∧ c ≠ '>' := by
    intro c hc
    rcases List.mem_append.1 hc with hc | hc
    · have hlower : c.toLower ∈ "doctype".toList := hword ▸ List.mem_map_of_mem hc
      constructor <;> (rintro rfl; exact absurd hlower (by decide))
    · have hblank : isBlank c := by
        simpa using List.mem_takeWhile_imp hc
      constructor <;> (rintro rfl; exact absurd hblank (by decide))
  exact delimited_of_balancedEnd_append hplain (hcontent ▸ delimited_of_balancedEnd h)

theorem exists_endName (content : List Char) :
    ∃ q, (∀ c ∈ q, isBlank c) ∧ content = endName content ++ q := by
  cases hkept : content.reverse.dropWhile isBlank with
  | nil => exact ⟨[], by simp, by simp [endName, hkept]⟩
  | cons c kept =>
    have hsplit : content.reverse.takeWhile isBlank ++ c :: kept = content.reverse := by
      rw [← hkept, List.takeWhile_append_dropWhile]
    refine ⟨(content.reverse.takeWhile isBlank).reverse, fun d hd => ?_, ?_⟩
    · exact List.mem_takeWhile_imp (List.mem_reverse.1 hd)
    · simp only [endName, hkept]
      rw [← List.reverse_append, hsplit, List.reverse_reverse]

theorem endName_endName (content : List Char) : endName (endName content) = endName content := by
  cases hkept : content.reverse.dropWhile isBlank with
  | nil =>
    have hself : endName content = content := by simp only [endName, hkept]
    rw [hself, hself]
  | cons c kept =>
    have hname : endName content = (c :: kept).reverse := by simp only [endName, hkept]
    have hdrop : (c :: kept).dropWhile isBlank = c :: kept := by
      rw [← hkept, List.dropWhile_idempotent]
    rw [hname, endName, List.reverse_reverse, hdrop]

/-- The name in an end tag is found again without the blanks behind it. -/
theorem delimited_endName {s content rest : List Char}
    (h : tagEnd none s = some (content, rest)) :
    Delimited (tagEnd none) ['>'] (endName content) := by
  obtain ⟨q, hq, hcontent⟩ := exists_endName content
  have hplain : ∀ c ∈ q, ¬ IsQuote c := by
    intro c hc
    have hblank := hq c hc
    rintro (rfl | rfl) <;> exact absurd hblank (by decide)
  rw [eq_append_of_tagEnd h, hcontent] at h
  exact delimited_of_tagEnd_append (by simp) hplain h

end Proctor.Markup
