/-! # Searching and cutting text -/

namespace Proctor.Text

/-- Whether `part` stands somewhere in the text. -/
def occursIn (part : List Char) : List Char → Bool
  | [] => part.isEmpty
  | c :: rest => part.isPrefixOf (c :: rest) || occursIn part rest

theorem occursIn_iff {part s : List Char} : occursIn part s ↔ part <:+: s := by
  induction s with
  | nil => simp [occursIn]
  | cons c rest ih => simp [occursIn, ih, List.infix_cons_iff]

/-- The text before the first `mark`, and the text after it if there is one. -/
def cutAt (mark : Char) : List Char → List Char × Option (List Char)
  | [] => ([], none)
  | c :: rest =>
    if c = mark then ([], some rest)
    else
      let (front, back) := cutAt mark rest
      (c :: front, back)

/-- What follows `front`, if the text begins with it. -/
def dropPrefix? : List Char → List Char → Option (List Char)
  | [], s => some s
  | _ :: _, [] => none
  | a :: front, c :: s => if a = c then dropPrefix? front s else none

theorem dropPrefix?_eq_some {front s rest : List Char} :
    dropPrefix? front s = some rest ↔ s = front ++ rest := by
  induction front generalizing s with
  | nil => simp [dropPrefix?]
  | cons a front ih =>
    cases s with
    | nil => simp [dropPrefix?]
    | cons c s =>
      by_cases h : a = c
      · simp [dropPrefix?, h, ih]
      · simp [dropPrefix?, h, Ne.symm h]

/-- The text before the first place where `mark` stands, and the text behind it. -/
def splitAt? (mark : List Char) : List Char → Option (List Char × List Char)
  | [] => if mark.isEmpty then some ([], []) else none
  | c :: rest =>
    match dropPrefix? mark (c :: rest) with
    | some back => some ([], back)
    | none => (splitAt? mark rest).map fun (front, back) => (c :: front, back)

theorem eq_append_of_splitAt? {mark s front back : List Char}
    (h : splitAt? mark s = some (front, back)) : s = front ++ mark ++ back := by
  induction s generalizing front with
  | nil =>
    simp only [splitAt?] at h
    split at h <;> simp_all
  | cons c rest ih =>
    simp only [splitAt?] at h
    split at h
    · next back' hb =>
      simp only [Option.some.injEq, Prod.mk.injEq] at h
      obtain ⟨rfl, rfl⟩ := h
      simpa using dropPrefix?_eq_some.1 hb
    · obtain ⟨⟨f, b⟩, hf, he⟩ := Option.map_eq_some_iff.1 h
      simp only [Prod.mk.injEq] at he
      obtain ⟨rfl, rfl⟩ := he
      simp [ih hf]

end Proctor.Text
