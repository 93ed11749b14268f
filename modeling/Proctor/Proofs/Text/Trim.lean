import Proctor.Text.Blank

/-! # Trimming

Blanks around a text have no part in what is left of it after trimming, and nothing else is lost. -/

namespace Proctor.Text

@[simp] theorem allBlank_nil : allBlank [] := rfl

@[simp] theorem allBlank_cons {c : Char} {s : List Char} :
    allBlank (c :: s) ↔ isBlank c ∧ allBlank s := by simp [allBlank]

@[simp] theorem allBlank_append {s t : List Char} :
    allBlank (s ++ t) ↔ allBlank s ∧ allBlank t := by simp [allBlank]

@[simp] theorem allBlank_reverse {s : List Char} : allBlank s.reverse ↔ allBlank s := by
  simp [allBlank]

@[simp] theorem trimStart_nil : trimStart [] = [] := rfl

theorem trimStart_append {p s : List Char} (hp : allBlank p) :
    trimStart (p ++ s) = trimStart s := by
  rw [trimStart, List.dropWhile_append_of_pos (by simpa [allBlank] using hp)]
  rfl

theorem trimStart_eq_nil {s : List Char} : trimStart s = [] ↔ allBlank s := by
  induction s with
  | nil => simp
  | cons c s ih => by_cases hc : isBlank c <;> simp_all [trimStart]

theorem trimStart_append_of_ne {s t : List Char} (hs : ¬ allBlank s) :
    trimStart (s ++ t) = trimStart s ++ t := by
  induction s with
  | nil => simp at hs
  | cons c s ih =>
    by_cases hc : isBlank c
    · have hs' : ¬ allBlank s := by simpa [hc] using hs
      simpa [trimStart, hc] using ih hs'
    · simp [trimStart, hc]

theorem trimEnd_append {s p : List Char} (hp : allBlank p) : trimEnd (s ++ p) = trimEnd s := by
  rw [trimEnd, List.reverse_append, trimStart_append (allBlank_reverse.2 hp)]
  rfl

theorem trimStart_cons (c : Char) (s : List Char) :
    trimStart (c :: s) = if isBlank c then trimStart s else c :: s := by
  simp only [trimStart, List.dropWhile_cons]

theorem trimEnd_cons (c : Char) (s : List Char) :
    trimEnd (c :: s) = if allBlank (c :: s) then [] else c :: trimEnd s := by
  rw [trimEnd, List.reverse_cons]
  split
  · next h =>
    obtain ⟨hc, hs⟩ := allBlank_cons.1 h
    rw [trimStart_append (allBlank_reverse.2 hs), trimStart_eq_nil.2 (by simpa using hc)]
    rfl
  · next h =>
    by_cases hs : allBlank s
    · have hc : ¬ isBlank c := fun hc => h (allBlank_cons.2 ⟨hc, hs⟩)
      rw [trimStart_append (allBlank_reverse.2 hs), trimEnd,
        trimStart_eq_nil.2 (allBlank_reverse.2 hs)]
      simp [trimStart, hc]
    · rw [trimStart_append_of_ne (by simpa using hs), List.reverse_append]
      rfl

theorem exists_trimStart (s : List Char) : ∃ p, allBlank p ∧ s = p ++ trimStart s :=
  ⟨s.takeWhile isBlank, List.all_takeWhile,
    (List.takeWhile_append_dropWhile).symm⟩

theorem exists_trimEnd (s : List Char) : ∃ p, allBlank p ∧ s = trimEnd s ++ p := by
  obtain ⟨p, hp, he⟩ := exists_trimStart s.reverse
  refine ⟨p.reverse, allBlank_reverse.2 hp, ?_⟩
  have h := congrArg List.reverse he
  simpa [trimEnd] using h

/-- Trimming takes only blanks away, and only from the ends. -/
theorem exists_trim (s : List Char) :
    ∃ p q, allBlank p ∧ allBlank q ∧ s = p ++ trim s ++ q := by
  obtain ⟨p, hp, hs⟩ := exists_trimStart s
  obtain ⟨q, hq, ht⟩ := exists_trimEnd (trimStart s)
  refine ⟨p, q, hp, hq, ?_⟩
  rw [trim, List.append_assoc, ← ht, ← hs]

theorem trim_isInfix (s : List Char) : trim s <:+: s := by
  obtain ⟨p, q, -, -, h⟩ := exists_trim s
  exact ⟨p, q, h.symm⟩

theorem trim_blank_append {p s : List Char} (hp : allBlank p) : trim (p ++ s) = trim s := by
  rw [trim, trimStart_append hp]
  rfl

theorem trim_append_blank {s q : List Char} (hq : allBlank q) : trim (s ++ q) = trim s := by
  by_cases hs : allBlank s
  · rw [trim, trimStart_append hs, trimStart_eq_nil.2 hq, trim, trimStart_eq_nil.2 hs]
  · rw [trim, trimStart_append_of_ne hs, trimEnd_append hq]
    rfl

theorem trim_eq_nil {s : List Char} : trim s = [] ↔ allBlank s := by
  constructor
  · intro h
    obtain ⟨p, q, hp, hq, hs⟩ := exists_trim s
    rw [hs, h]
    simp [hp, hq]
  · intro h
    rw [trim, trimStart_eq_nil.2 h]
    rfl

@[simp] theorem trim_trim (s : List Char) : trim (trim s) = trim s := by
  obtain ⟨p, q, hp, hq, hs⟩ := exists_trim s
  have h : trim s = trim (p ++ trim s ++ q) := congrArg trim hs
  rw [trim_append_blank hq, trim_blank_append hp] at h
  exact h.symm

theorem trimEnd_append_of_ne {s t : List Char} (ht : ¬ allBlank t) :
    trimEnd (s ++ t) = s ++ trimEnd t := by
  rw [trimEnd, List.reverse_append, trimStart_append_of_ne (by simpa using ht), List.reverse_append,
    List.reverse_reverse]
  rfl

/-- Only blanks can be put in front of a text without a change to what trimming leaves of it. -/
theorem trim_append_eq_iff {p s : List Char} : trim (p ++ s) = trim s ↔ allBlank p := by
  refine ⟨fun h => Decidable.by_contra fun hp => ?_, trim_blank_append⟩
  have hs : ¬ allBlank s := fun hs => by
    rw [trim_eq_nil.2 hs, trim_eq_nil, allBlank_append] at h
    exact hp h.1
  obtain ⟨q, hq, hsplit⟩ := exists_trimStart s
  have hne : ¬ allBlank (trimStart s) := fun hb => hs <| by
    rw [hsplit, allBlank_append]
    exact ⟨hq, hb⟩
  have hleft : trim (p ++ s) = trimStart p ++ (q ++ trim s) := by
    rw [trim, trimStart_append_of_ne hp, trimEnd_append_of_ne hs, trim, ← trimEnd_append_of_ne hne,
      ← hsplit]
  have hlength := congrArg List.length (hleft.symm.trans h)
  have hpos : trimStart p ≠ [] := fun hnil => hp (trimStart_eq_nil.1 hnil)
  have := List.length_pos_iff.2 hpos
  simp only [List.length_append] at hlength
  omega

/-! ### Texts that trimming leaves alone -/

theorem trimStart_eq_self {s : List Char} :
    trimStart s = s ↔ ∀ c ∈ s.head?, ¬ isBlank c := by
  cases s with
  | nil => simp
  | cons c s =>
    rw [trimStart_cons]
    by_cases hc : isBlank c
    · have hle : (trimStart s).length ≤ s.length := (List.dropWhile_suffix isBlank).length_le
      have hne : trimStart s ≠ c :: s := by
        intro he
        rw [he, List.length_cons] at hle
        omega
      simp [hc, hne]
    · simp [hc]

theorem trimEnd_eq_self {s : List Char} :
    trimEnd s = s ↔ ∀ c ∈ s.getLast?, ¬ isBlank c := by
  rw [trimEnd, List.reverse_eq_iff, trimStart_eq_self, List.head?_reverse]

theorem trim_eq_self {s : List Char} :
    trim s = s ↔ (∀ c ∈ s.head?, ¬ isBlank c) ∧ ∀ c ∈ s.getLast?, ¬ isBlank c := by
  rw [← trimStart_eq_self, ← trimEnd_eq_self]
  constructor
  · intro h
    have hstart : trimStart s <:+ s := List.dropWhile_suffix isBlank
    obtain ⟨q, -, hq⟩ := exists_trimEnd (trimStart s)
    have hlength := congrArg List.length hq
    rw [← trim, h, List.length_append] at hlength
    have heq : trimStart s = s := hstart.eq_of_length_le (by omega)
    rw [trim, heq] at h
    exact ⟨heq, h⟩
  · rintro ⟨hstart, hend⟩
    rw [trim, hstart, hend]

/-- A text that has a blank has a last one. -/
theorem exists_last_blank {s : List Char} (h : ∃ c ∈ s, isBlank c) :
    ∃ a c b, s = a ++ c :: b ∧ isBlank c ∧ ∀ d ∈ b, ¬ isBlank d := by
  induction s with
  | nil => simp at h
  | cons x s ih =>
    by_cases hs : ∃ c ∈ s, isBlank c
    · obtain ⟨a, c, b, rfl, hc, hb⟩ := ih hs
      exact ⟨x :: a, c, b, rfl, hc, hb⟩
    · have hx : isBlank x := by
        obtain ⟨c, hmem, hc⟩ := h
        rcases List.mem_cons.1 hmem with rfl | hmem
        · exact hc
        · exact absurd ⟨c, hmem, hc⟩ hs
      exact ⟨[], x, s, rfl, hx, fun d hd hblank => hs ⟨d, hd, hblank⟩⟩

theorem takeWhile_reverse_append_cons {a b : List Char} {c : Char} (hc : isBlank c)
    (hb : ∀ d ∈ b, ¬ isBlank d) :
    (a ++ c :: b).reverse.takeWhile (fun d => !isBlank d) = b.reverse := by
  rw [List.reverse_append, List.reverse_cons, List.append_assoc,
    List.takeWhile_append_of_pos (by simpa using hb)]
  simp [hc]

end Proctor.Text
