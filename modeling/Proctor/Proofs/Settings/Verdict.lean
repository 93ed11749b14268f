import Proctor.Proofs.Settings.Values

/-! # The verdict on the settings that were found

Each setting that was found must have a valid text. The first that has none, in the order in which
they are checked, is the error. -/

namespace Proctor.Settings
open Proctor.Markup Proctor.Text

/-! ### Valid texts -/

/-- A batch size: a run of decimal digits for a number from 1 up to 2³² - 1, perhaps behind a `+`. -/
def IsBatchSize (text : String) (n : Nat) : Prop :=
  ∃ sign digits, text.toList = sign ++ digits ∧ (sign = [] ∨ sign = ['+']) ∧ digits ≠ [] ∧
    (∀ c ∈ digits, c.isDigit) ∧ Nat.ofDigitChars 10 digits 0 = n ∧ 1 ≤ n ∧ n < Nat.pow 2 32

/-- The texts that a setting may have. A flag may be empty, and its case does not count. -/
def Setting.Admits : Setting → String → Prop
  | batchSize, text => ∃ n, IsBatchSize text n
  | designMode, text | collectSource, text =>
    text = "" ∨ lower text = "true".toList ∨ lower text = "false".toList

section
variable {text : String} {n : Nat}

/-- The digits stand behind the sign, if there is one. -/
theorem exists_digits (text : String) :
    ∃ sign digits, text.toList = sign ++ digits ∧
      (sign = [] ∧ digits.head? ≠ some '+' ∨ sign = ['+']) ∧
      parseBatchSize text =
        let n := Nat.ofDigitChars 10 digits 0
        if !digits.isEmpty && digits.all Char.isDigit && 0 < n && n < Nat.pow 2 32 then .ok n
        else .error (.invalidValue batchSizeName text) := by
  unfold parseBatchSize
  split
  · next digits h => exact ⟨['+'], digits, h, .inr rfl, rfl⟩
  · next digits hsign =>
    refine ⟨[], text.toList, rfl, .inl ⟨rfl, fun hhead => ?_⟩, rfl⟩
    obtain ⟨rest, hrest⟩ := List.head?_eq_some_iff.1 hhead
    exact hsign rest hrest

theorem parseBatchSize_eq_ok : parseBatchSize text = .ok n ↔ IsBatchSize text n := by
  obtain ⟨sign, digits, htext, hsign, hparse⟩ := exists_digits text
  have hchecks (m : Nat) :
      (!digits.isEmpty && digits.all Char.isDigit && 0 < m && m < Nat.pow 2 32) = true ↔
        digits ≠ [] ∧ (∀ c ∈ digits, c.isDigit) ∧ 0 < m ∧ m < Nat.pow 2 32 := by simp [and_assoc]
  rw [hparse]
  constructor
  · intro h
    dsimp only at h
    split at h
    · next hvalid =>
      obtain rfl := Except.ok.inj h
      obtain ⟨hne, hdigits, hpos, hlt⟩ := (hchecks _).1 hvalid
      exact ⟨sign, digits, htext, hsign.imp And.left id, hne, hdigits, rfl, hpos, hlt⟩
    · cases h
  · rintro ⟨sign', digits', htext', hsign', hne, hdigits, rfl, hpos, hlt⟩
    -- a sign is no digit, so there is one on both sides or on neither
    obtain rfl : digits = digits' := by
      have he := htext.symm.trans htext'
      rcases hsign with ⟨rfl, hhead⟩ | rfl <;> rcases hsign' with rfl | rfl
      · simpa using he
      · rw [List.nil_append] at he
        simp [he] at hhead
      · obtain rfl : '+' :: digits = digits' := by simpa using he
        exact absurd (hdigits '+' (by simp)) (by decide)
      · simpa using he
    exact if_pos ((hchecks _).2 ⟨hne, hdigits, hpos, hlt⟩)

theorem parseBatchSize_eq_error {e : SettingsError} :
    parseBatchSize text = .error e ↔
      ¬ (∃ n, IsBatchSize text n) ∧ e = .invalidValue batchSizeName text := by
  simp only [← parseBatchSize_eq_ok]
  obtain ⟨sign, digits, -, -, hparse⟩ := exists_digits text
  rw [hparse]
  dsimp only
  split
  · simp
  · simp [eq_comm]

theorem isFlagText_iff :
    isFlagText text ↔ lower text = "true".toList ∨ lower text = "false".toList := by
  have htrue : lower "true" = "true".toList := by decide
  have hfalse : lower "false" = "false".toList := by decide
  rw [isFlagText, Bool.or_eq_true, sameName_iff, sameName_iff, htrue, hfalse]

end

/-! ### One setting -/

namespace Setting
variable {v : Setting} {found : Option String} {info : Info} {e : SettingsError}

/-- The check of a setting that was found, or was not. -/
def check : Setting → Option String → Except SettingsError Unit
  | batchSize, none => .ok ()
  | batchSize, some text => (parseBatchSize text).map fun _ => ()
  | designMode, found => checkFlag designModeName found
  | collectSource, found => checkFlag collectSourceName found

theorem check_none : v.check none = .ok () := by cases v <;> rfl

theorem check_flag {element text : String} :
    checkFlag element (some text) =
      if text = "" ∨ lower text = "true".toList ∨ lower text = "false".toList then .ok ()
      else .error (.invalidValue element text) := by
  simp only [checkFlag, Bool.or_eq_true, decide_eq_true_eq, isFlagText_iff]

theorem check_of_admits {text : String} (h : v.Admits text) : v.check (some text) = .ok () := by
  cases v with
  | batchSize =>
    obtain ⟨n, hn⟩ := h
    simp [check, parseBatchSize_eq_ok.2 hn, Except.map]
  | designMode | collectSource => exact check_flag.trans (if_pos h)

theorem check_of_not_admits {text : String} (h : ¬ v.Admits text) :
    v.check (some text) = .error (.invalidValue v.name text) := by
  cases v with
  | batchSize => simp [check, parseBatchSize_eq_error.2 ⟨h, rfl⟩, Except.map, name]
  | designMode | collectSource => exact check_flag.trans (if_neg h)

theorem check_eq_ok : v.check found = .ok () ↔ ∀ text, found = some text → v.Admits text := by
  cases found with
  | none => simp [check_none]
  | some text =>
    by_cases h : v.Admits text
    · simp [check_of_admits h, h]
    · simp [check_of_not_admits h, h]

/-- What a setting amounts to in the information on a document. -/
def Shown (info : Info) : Setting → Option String → Prop
  | batchSize, found => ∀ n, info.batchSize = some n ↔ ∃ text, found = some text ∧ IsBatchSize text n
  | designMode, found => info.designMode = found
  | collectSource, found => info.collectSource = found

theorem shown_batchSize :
    found.mapM parseBatchSize = .ok info.batchSize ↔
      batchSize.check found = .ok () ∧ batchSize.Shown info found := by
  cases found with
  | none => simp [check_none, Shown, pure, Except.pure, Option.eq_none_iff_forall_ne_some, eq_comm]
  | some text =>
    simp only [check, Shown, Option.mapM_some, Option.some.injEq, exists_eq_left',
      ← parseBatchSize_eq_ok]
    cases parseBatchSize text with
    | error e => simp [Except.map, Functor.map]
    | ok n =>
      have hn : some n = info.batchSize ↔ ∀ m, info.batchSize = some m ↔ n = m := by
        constructor
        · intro h m
          rw [← h, Option.some.injEq]
        · intro h
          exact ((h n).2 rfl).symm
      simpa [Except.map, Functor.map] using hn

/-! ### All settings -/

/-- The settings in the order in which they are checked. -/
def all : List Setting := [batchSize, designMode, collectSource]

/-- The settings that were found, with their texts. -/
def texts (vs : List Setting) (found : Setting → Option String) : List (Setting × String) :=
  vs.filterMap fun v => (found v).map fun text => (v, text)

/-- The error that the first of some texts that is not valid makes. -/
def FirstInvalid (ps : List (Setting × String)) (e : SettingsError) : Prop :=
  ∃ before v text after, ps = before ++ (v, text) :: after ∧
    (∀ p ∈ before, p.1.Admits p.2) ∧ ¬ v.Admits text ∧ e = .invalidValue v.name text

theorem not_firstInvalid_nil : ¬ FirstInvalid [] e := by
  rintro ⟨before, v, text, after, h, -⟩
  simp at h

section
variable {ps : List (Setting × String)} {text : String}

theorem firstInvalid_of_not_admits (h : ¬ v.Admits text) :
    FirstInvalid ((v, text) :: ps) e ↔ e = .invalidValue v.name text := by
  constructor
  · rintro ⟨before, w, other, after, heq, hbefore, -, rfl⟩
    cases before with
    | nil =>
      obtain ⟨⟨rfl, rfl⟩, -⟩ : (v = w ∧ text = other) ∧ _ := by simpa using heq
      rfl
    | cons p before =>
      obtain ⟨rfl, -⟩ := List.cons.inj heq
      exact absurd (hbefore (v, text) (by simp)) h
  · rintro rfl
    exact ⟨[], v, text, ps, rfl, by simp, h, rfl⟩

theorem firstInvalid_of_admits (h : v.Admits text) :
    FirstInvalid ((v, text) :: ps) e ↔ FirstInvalid ps e := by
  constructor
  · rintro ⟨before, w, other, after, heq, hbefore, hw⟩
    cases before with
    | nil =>
      obtain ⟨⟨rfl, rfl⟩, -⟩ : (v = w ∧ text = other) ∧ _ := by simpa using heq
      exact absurd h hw.1
    | cons p before =>
      exact ⟨before, w, other, after, (List.cons.inj heq).2, (List.forall_mem_cons.1 hbefore).2, hw⟩
  · rintro ⟨before, w, other, after, rfl, hbefore, hw⟩
    exact ⟨(v, text) :: before, w, other, after, rfl, List.forall_mem_cons.2 ⟨h, hbefore⟩, hw⟩

end

/-- The checks of several settings, one after the other. -/
def checkAll (found : Setting → Option String) : List Setting → Except SettingsError Unit
  | [] => .ok ()
  | v :: vs => do
    v.check (found v)
    checkAll found vs

/-- The first text that is not valid is the error. -/
theorem checkAll_eq_error {vs : List Setting} {found : Setting → Option String} :
    checkAll found vs = .error e ↔ FirstInvalid (texts vs found) e := by
  induction vs with
  | nil => exact iff_of_false (by simp [checkAll]) not_firstInvalid_nil
  | cons v vs ih =>
    rw [checkAll]
    cases hfound : found v with
    | none =>
      have htexts : texts (v :: vs) found = texts vs found := by simp [texts, hfound]
      rw [check_none, ok_bind, ih, htexts]
    | some text =>
      have htexts : texts (v :: vs) found = (v, text) :: texts vs found := by simp [texts, hfound]
      rw [htexts]
      by_cases h : v.Admits text
      · rw [check_of_admits h, ok_bind, ih, firstInvalid_of_admits h]
      · rw [check_of_not_admits h, firstInvalid_of_not_admits h]
        constructor
        · intro he
          exact (Except.error.inj he).symm
        · rintro rfl
          rfl

end Setting

namespace Inspection
variable {i : Inspection} {info : Info} {e : SettingsError}

/-- An inspection concludes with what each of the settings amounts to. -/
theorem conclude_eq_ok_iff :
    i.conclude = .ok info ↔ i.path = [] ∧ i.hasRoot ∧
      i.hasRunConfiguration = info.hasRunConfiguration ∧
      ∀ v : Setting, v.check (v.found i) = .ok () ∧ v.Shown info (v.found i) := by
  rw [conclude_eq_ok, Setting.shown_batchSize]
  constructor
  · rintro ⟨hpath, hroot, hbatch, hdesign, hcollect, hconf, hd, hc⟩
    refine ⟨hpath, hroot, hconf, fun v => ?_⟩
    cases v with
    | batchSize => exact hbatch
    | designMode => exact ⟨hdesign, hd.symm⟩
    | collectSource => exact ⟨hcollect, hc.symm⟩
  · rintro ⟨hpath, hroot, hconf, h⟩
    obtain ⟨hdesign, hd⟩ := h .designMode
    obtain ⟨hcollect, hc⟩ := h .collectSource
    exact ⟨hpath, hroot, h .batchSize, hdesign, hcollect, hconf, hd.symm, hc.symm⟩

/-- Once all elements are closed, only the text of a setting can be wrong. -/
theorem conclude_eq_error_iff (hpath : i.path = []) (hroot : i.hasRoot) :
    i.conclude = .error e ↔ Setting.FirstInvalid (Setting.texts Setting.all (·.found i)) e := by
  rw [← Setting.checkAll_eq_error]
  simp only [Setting.all, Setting.checkAll, Setting.check, Setting.found, conclude, hpath, hroot]
  cases checkFlag designModeName i.designMode <;>
    cases checkFlag collectSourceName i.collectSource <;>
    cases i.batchText with
    | none => simp [bind, Except.bind, pure, Except.pure]
    | some text =>
      cases hparse : parseBatchSize text <;>
        simp [hparse, Except.map, Functor.map, bind, Except.bind, pure, Except.pure]

end Inspection

/-- An inspection that comes to its end gives the verdict on what was found. -/
theorem inspectReading_of_foldlM {events : List Event} {i : Inspection}
    (h : events.foldlM Inspection.step {} = .ok i) :
    inspectReading ⟨events, none⟩ = i.conclude := by
  rw [inspectReading, h]
  rfl

end Proctor.Settings
