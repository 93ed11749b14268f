/-! # Computations that can fail

When a chain of computations ends well, each of its parts has ended well. -/

namespace Proctor
variable {ε α β : Type}

theorem bind_eq_ok {x : Except ε α} {f : α → Except ε β} {b : β} :
    x >>= f = .ok b ↔ ∃ a, x = .ok a ∧ f a = .ok b := by
  cases x with
  | error e => simp [bind, Except.bind]
  | ok a => simp [bind, Except.bind]

theorem bind_eq_error {x : Except ε α} {f : α → Except ε β} {e : ε} :
    x >>= f = .error e ↔ x = .error e ∨ ∃ a, x = .ok a ∧ f a = .error e := by
  cases x with
  | error e => simp [bind, Except.bind]
  | ok a => simp [bind, Except.bind]

theorem pure_eq_ok {a b : α} : (pure a : Except ε α) = .ok b ↔ a = b := by
  simp [pure, Except.pure]

theorem ok_bind (a : α) (f : α → Except ε β) : (Except.ok a >>= f) = f a := rfl

theorem map_bind {α' β' : Type} {x : Except ε α} {g : α → α'} {f : α → Except ε β}
    {f' : α' → Except ε β'} {k : β → β'} (h : ∀ a, f' (g a) = (f a).map k) :
    x.map g >>= f' = (x >>= f).map k := by
  cases x with
  | error e => rfl
  | ok a => exact h a

theorem mapM_cons_eq_ok {f : α → Except ε β} {a : α} {as : List α} {bs : List β} :
    (a :: as).mapM f = .ok bs ↔ ∃ b bs', f a = .ok b ∧ as.mapM f = .ok bs' ∧ b :: bs' = bs := by
  simp only [List.mapM_cons, bind_eq_ok, pure_eq_ok]
  constructor
  · rintro ⟨b, hb, bs', hbs', rfl⟩
    exact ⟨b, bs', hb, hbs', rfl⟩
  · rintro ⟨b, bs', hb, hbs', rfl⟩
    exact ⟨b, hb, bs', hbs', rfl⟩

theorem exists_of_mem_mapM {f : α → Except ε β} {as : List α} {bs : List β} {b : β}
    (h : as.mapM f = .ok bs) (hb : b ∈ bs) : ∃ a ∈ as, f a = .ok b := by
  induction as generalizing bs with
  | nil =>
    obtain rfl := pure_eq_ok.1 h
    cases hb
  | cons a as ih =>
    obtain ⟨b', bs', hb', hbs', rfl⟩ := mapM_cons_eq_ok.1 h
    rcases List.mem_cons.1 hb with rfl | hb
    · exact ⟨a, by simp, hb'⟩
    · obtain ⟨d, hd, hfd⟩ := ih hbs' hb
      exact ⟨d, by simp [hd], hfd⟩

theorem exists_of_mapM {f : α → Except ε β} {as : List α} {bs : List β} {a : α}
    (h : as.mapM f = .ok bs) (ha : a ∈ as) : ∃ b, f a = .ok b := by
  induction as generalizing bs with
  | nil => cases ha
  | cons a' as ih =>
    obtain ⟨b, bs, hb, hbs, -⟩ := mapM_cons_eq_ok.1 h
    rcases List.mem_cons.1 ha with rfl | ha
    · exact ⟨b, hb⟩
    · exact ih hbs ha

/-- Where images under `f'` come of images under `f`, so do lists of them. -/
theorem mapM_map_eq_ok {f : α → Except ε β} {α' β' : Type} {f' : α' → Except ε β'} {g : α → α'}
    {k : β → β'} (h : ∀ a b', f' (g a) = .ok b' ↔ ∃ b, f a = .ok b ∧ k b = b') {as : List α}
    {bs' : List β'} :
    (as.map g).mapM f' = .ok bs' ↔ ∃ bs, as.mapM f = .ok bs ∧ bs.map k = bs' := by
  induction as generalizing bs' with
  | nil => simp [pure_eq_ok]
  | cons a as ih =>
    simp only [List.map_cons, List.mapM_cons, bind_eq_ok, pure_eq_ok, h, ih]
    constructor
    · rintro ⟨_, ⟨b, hb, rfl⟩, _, ⟨bs, hbs, rfl⟩, rfl⟩
      exact ⟨b :: bs, ⟨b, hb, bs, hbs, rfl⟩, rfl⟩
    · rintro ⟨_, ⟨b, hb, bs, hbs, rfl⟩, rfl⟩
      exact ⟨k b, ⟨b, hb, rfl⟩, bs.map k, ⟨bs, hbs, rfl⟩, rfl⟩

theorem foldlM_cons_eq_ok {step : β → α → Except ε β} {a : α} {as : List α} {b b' : β} :
    (a :: as).foldlM step b = .ok b' ↔ ∃ c, step b a = .ok c ∧ as.foldlM step c = .ok b' := by
  rw [List.foldlM_cons, bind_eq_ok]

theorem foldlM_append_eq_ok {step : β → α → Except ε β} {as bs : List α} {b b' : β} :
    (as ++ bs).foldlM step b = .ok b' ↔
      ∃ c, as.foldlM step b = .ok c ∧ bs.foldlM step c = .ok b' := by
  rw [List.foldlM_append, bind_eq_ok]

/-- What each step keeps is kept by a whole run; `seen` is what has been taken so far. -/
theorem foldlM_induction {step : β → α → Except ε β} {P : List α → β → Prop}
    (hstep : ∀ {seen b a b'}, P seen b → step b a = .ok b' → P (seen ++ [a]) b')
    {as seen : List α} {b b' : β} (hb : P seen b) (h : as.foldlM step b = .ok b') :
    P (seen ++ as) b' := by
  induction as generalizing seen b with
  | nil =>
    obtain rfl := pure_eq_ok.1 h
    simpa using hb
  | cons a as ih =>
    obtain ⟨c, hc, h⟩ := foldlM_cons_eq_ok.1 h
    simpa using ih (hstep hb hc) h

end Proctor
