import EquationFigure.Equation.Substitution
import EquationFigure.Proofs.Decimal.NumberText
import EquationFigure.Proofs.Equation.Tokens

/-!
# The names of a text

Which names a text has, and what becomes of them when a value takes the place of the leftmost one.
The text of a finite number has no letters, so the other names stay and none comes in.  That of an
infinity is itself a name, and the leftmost one then.

* `firstName?_eq_some_iff` — the leftmost name stands behind a text that has none and goes on as
  long as it can.
* `names t` — all names of a text, from left to right.
* `names_splice`, `firstName?_splice` — the names after a replacement.
-/

set_option autoImplicit false

namespace EquationFigure

open Text

/-! ## The leftmost name -/

/-- The text is a name. -/
def IsName (t : Text) : Prop :=
  ∃ c rest, t = c :: rest ∧ isNameStart c = true ∧ ∀ d ∈ rest, isNamePart d = true

/-- No name starts in the text. -/
def Nameless (t : Text) : Prop := ∀ c ∈ t, isNameStart c = false

theorem nameless_nil : Nameless [] := nofun

theorem nameless_append {s t : Text} : Nameless (s ++ t) ↔ Nameless s ∧ Nameless t := by
  simp only [Nameless, List.mem_append, or_imp, forall_and]

theorem IsName.exists_start {t : Text} (h : IsName t) :
    ∃ c rest, t = c :: rest ∧ isNameStart c = true := by
  obtain ⟨c, rest, rfl, hc, -⟩ := h
  exact ⟨c, rest, rfl, hc⟩

theorem scanName_eq_none_iff {c : Char} {t : Text} :
    scanName (c :: t) = none ↔ isNameStart c = false := by
  rw [scanName]
  cases isNameStart c <;> simp

theorem scanName_eq_some_iff {t name after : Text} :
    scanName t = some (name, after) ↔
      t = name ++ after ∧ IsName name ∧ HeadNot isNamePart after := by
  constructor
  · intro h
    refine ⟨scanName_eq_some h, ?_⟩
    cases t with
    | nil => cases h
    | cons c t =>
      rw [scanName] at h
      split at h
      · rename_i hstart
        cases h
        exact ⟨⟨c, _, rfl, hstart, fun _ hd => of_mem_takeWhile hd⟩, headNot_dropWhile _ _⟩
      · cases h
  · rintro ⟨rfl, ⟨c, rest, rfl, hstart, hrest⟩, hafter⟩
    rw [List.cons_append, scanName, if_pos hstart, takeWhile_append_of_headNot hrest hafter,
      dropWhile_append_of_headNot hrest hafter]

theorem firstName?_eq_none_iff {t : Text} : firstName? t = none ↔ Nameless t := by
  induction t with
  | nil => exact iff_of_true rfl nameless_nil
  | cons c t ih =>
    rw [firstName?, Nameless, List.forall_mem_cons]
    cases hscan : scanName (c :: t) with
    | none =>
      rw [scanName_eq_none_iff] at hscan
      simp only [Option.map_eq_none_iff, ih, hscan, true_and]
      rfl
    | some p =>
      refine iff_of_false (Option.some_ne_none _) fun h => ?_
      rw [scanName_eq_none_iff.2 h.1] at hscan
      cases hscan

/-- What has no names stands before the leftmost one. -/
theorem firstName?_append {s : Text} (hs : Nameless s) (t : Text) :
    firstName? (s ++ t) =
      (firstName? t).map fun (before, name, after) => (s ++ before, name, after) := by
  induction s with
  | nil => simp
  | cons c s ih =>
    obtain ⟨hc, hs⟩ := List.forall_mem_cons.1 hs
    have hscan : scanName (c :: (s ++ t)) = none := scanName_eq_none_iff.2 hc
    rw [List.cons_append, firstName?, hscan, ih hs, Option.map_map]
    rfl

theorem firstName?_name_append {name after : Text} (hname : IsName name)
    (hafter : HeadNot isNamePart after) : firstName? (name ++ after) = some ([], name, after) := by
  have hscan := scanName_eq_some_iff.2 ⟨rfl, hname, hafter⟩
  obtain ⟨c, rest, rfl, -⟩ := hname
  rw [List.cons_append] at hscan ⊢
  rw [firstName?, hscan]

theorem isName_of_firstName? {t before name after : Text}
    (h : firstName? t = some (before, name, after)) :
    Nameless before ∧ IsName name ∧ HeadNot isNamePart after := by
  induction t generalizing before with
  | nil => cases h
  | cons c t ih =>
    rw [firstName?] at h
    cases hscan : scanName (c :: t) with
    | some p =>
      rw [hscan] at h
      cases h
      exact ⟨nameless_nil, (scanName_eq_some_iff.1 hscan).2⟩
    | none =>
      rw [hscan, Option.map_eq_some_iff] at h
      obtain ⟨⟨b, n, a⟩, hfirst, heq⟩ := h
      cases heq
      obtain ⟨hb, hrest⟩ := ih hfirst
      exact ⟨List.forall_mem_cons.2 ⟨scanName_eq_none_iff.1 hscan, hb⟩, hrest⟩

/-- **The leftmost name stands behind a text without one and goes on as long as it can.** -/
theorem firstName?_eq_some_iff {t before name after : Text} :
    firstName? t = some (before, name, after) ↔
      t = before ++ name ++ after ∧ Nameless before ∧ IsName name ∧ HeadNot isNamePart after := by
  constructor
  · exact fun h => ⟨by rw [firstName?_eq_some h, List.append_assoc], isName_of_firstName? h⟩
  · rintro ⟨rfl, hbefore, hname, hafter⟩
    rw [List.append_assoc, firstName?_append hbefore, firstName?_name_append hname hafter]
    simp

theorem firstName?_append_of_nameless {s t before name after : Text} (hs : Nameless s)
    (h : firstName? t = some (before, name, after)) :
    firstName? (s ++ t) = some (s ++ before, name, after) := by
  rw [firstName?_append hs, h]
  rfl

theorem length_lt_of_firstName? {t before name after : Text}
    (h : firstName? t = some (before, name, after)) : after.length < t.length := by
  obtain ⟨rfl, -, ⟨c, rest, rfl, -⟩, -⟩ := firstName?_eq_some_iff.1 h
  simp only [List.length_append, List.length_cons]
  omega

/-! ## All names -/

/-- The names of a text, from left to right, each as long as it can be. -/
def names (t : Text) : List Text :=
  match _h : firstName? t with
  | none => []
  | some (_, name, after) => name :: names after
termination_by t.length
decreasing_by exact length_lt_of_firstName? _h

theorem names_of_none {t : Text} (h : firstName? t = none) : names t = [] := by
  rw [names]
  split
  · rfl
  · rename_i hsome
    rw [h] at hsome
    cases hsome

theorem names_of_some {t before name after : Text}
    (h : firstName? t = some (before, name, after)) : names t = name :: names after := by
  rw [names]
  split
  · rename_i hnone
    rw [h] at hnone
    cases hnone
  · rename_i hsome
    rw [h] at hsome
    cases hsome
    rfl

/-- A text with one name. -/
theorem names_singleton {t before name after : Text} (h : firstName? t = some (before, name, after))
    (hafter : firstName? after = none) : names t = [name] := by
  rw [names_of_some h, names_of_none hafter]

/-- What has no names in front of a text changes nothing about its names. -/
theorem names_append_of_nameless {s : Text} (hs : Nameless s) (t : Text) :
    names (s ++ t) = names t := by
  cases h : firstName? t with
  | none =>
    have hst := firstName?_append hs t
    rw [h] at hst
    rw [names_of_none h, names_of_none hst]
  | some p =>
    obtain ⟨before, name, after⟩ := p
    rw [names_of_some h, names_of_some (firstName?_append_of_nameless hs h)]

/-- A text has no more names than characters. -/
theorem length_names_le (t : Text) : (names t).length ≤ t.length := by
  induction hlen : t.length using Nat.strong_induction_on generalizing t with
  | h n ih =>
    cases h : firstName? t with
    | none =>
      rw [names_of_none h]
      exact Nat.zero_le _
    | some p =>
      obtain ⟨before, name, after⟩ := p
      have hlt := length_lt_of_firstName? h
      have hafter := ih _ (hlen ▸ hlt) after rfl
      rw [names_of_some h, List.length_cons]
      omega

/-! ## Texts without names -/

theorem isNameStart_of_isDigit {c : Char} (h : c.isDigit = true) : isNameStart c = false := by
  have hne : c ≠ '_' := by
    rintro rfl
    revert h
    decide
  simp [isNameStart, Char.isAlpha, Char.isUpper, Char.isLower, Char.isDigit, hne,
    UInt32.le_iff_toNat_le] at *
  omega

/-- No name starts with a character of a numeral. -/
theorem isNameStart_of_isNumberPart {c : Char} (h : isNumberPart c = true) :
    isNameStart c = false := by
  rw [isNumberPart, Bool.or_eq_true, Bool.or_eq_true, beq_iff_eq, beq_iff_eq] at h
  rcases h with (h | rfl) | rfl
  · exact isNameStart_of_isDigit h
  · decide
  · decide

/-- The text of a number has no names. -/
theorem nameless_numberText {x : Float} (hx : x.isFinite = true) : Nameless (numberText x) :=
  fun c hc => isNameStart_of_isNumberPart (isNumberPart_numberText hx c hc)

theorem nameless_minus : Nameless ['-'] := by
  exact List.forall_mem_singleton.2 rfl

/-! ## Around names -/

theorem nameless_of_isSpace {s : Text} (hs : IsSpace s) : Nameless s := by
  intro c hc
  have hspace := hs c hc
  simp only [Char.isWhitespace, Bool.or_eq_true, decide_eq_true_eq] at hspace
  rcases hspace with ((rfl | rfl) | rfl) | rfl
  all_goals decide

theorem isNamePart_of_isNameStart {c : Char} (h : isNameStart c = true) : isNamePart c = true := by
  rw [isNameStart, Bool.or_eq_true] at h
  rw [isNamePart, Bool.or_eq_true, Char.isAlphanum, Bool.or_eq_true]
  exact h.imp_left .inl

theorem isNamePart_of_isDigit {c : Char} (h : c.isDigit = true) : isNamePart c = true := by
  rw [isNamePart, Char.isAlphanum, h, Bool.or_true, Bool.true_or]

theorem isNamePart_of_isWhitespace {c : Char} (h : c.isWhitespace = true) :
    isNamePart c = false := by
  simp only [Char.isWhitespace, Bool.or_eq_true, decide_eq_true_eq] at h
  rcases h with ((rfl | rfl) | rfl) | rfl
  all_goals decide

theorem headNot_isNamePart_of_isSpace {s t : Text} (hs : IsSpace s) (ht : HeadNot isNamePart t) :
    HeadNot isNamePart (s ++ t) :=
  headNot_of_isSpace (fun _ => isNamePart_of_isWhitespace) hs ht

theorem nameless_separator {s s' : Text} (op : Operator) (hs : IsSpace s) (hs' : IsSpace s') :
    Nameless (s ++ op.symbol ++ s') := by
  have hsymbol : Nameless op.symbol := fun _ hc => op.eq_false_of_mem_symbol rfl hc
  exact nameless_append.2 ⟨nameless_append.2 ⟨nameless_of_isSpace hs, hsymbol⟩,
    nameless_of_isSpace hs'⟩

theorem Numeral.WellFormed.nameless {n : Numeral} (hn : n.WellFormed) : Nameless n.text :=
  fun c hc => isNameStart_of_isNumberPart (hn.isNumberPart c hc)

theorem isBlank_of_isNameStart {c : Char} (h : isNameStart c = true) : isBlank c = false := by
  rw [← Bool.not_eq_true]
  intro hblank
  have hrange : (65 ≤ c.toNat ∧ c.toNat ≤ 90) ∨ (97 ≤ c.toNat ∧ c.toNat ≤ 122) ∨
      c.toNat = 95 := by
    rw [isNameStart, Char.isAlpha, Char.isUpper, Char.isLower] at h
    simp [UInt32.le_iff_toNat_le] at h
    rcases h with h | rfl
    · omega
    · decide
  simp [isBlank, blankRanges] at hblank
  omega

/-! ## Values in the place of names -/

theorem isName_infName : IsName infName := ⟨'i', ['n', 'f'], rfl, rfl, List.all_eq_true.1 rfl⟩

/-- What is no finite number is written with a name and at most a minus sign. -/
theorem exists_word_of_not_isFinite {x : Float} (hx : x.isFinite = false) :
    ∃ sign word, numberText x = sign ++ word ∧ Nameless sign ∧ IsName word := by
  have hword := numberText_of_not_isFinite hx
  simp only [List.mem_cons, List.not_mem_nil, or_false] at hword
  rcases hword with hword | hword | hword
  · exact ⟨[], _, hword, nameless_nil, 'N', ['a', 'N'], rfl, rfl, List.all_eq_true.1 rfl⟩
  · exact ⟨[], _, hword, nameless_nil, isName_infName⟩
  · exact ⟨['-'], _, hword, nameless_minus, isName_infName⟩

/-- What has no names is not what stood there before. -/
theorem splice_ne {before s name after : Text} (hs : Nameless s) (hname : IsName name) :
    before ++ s ++ after ≠ before ++ name ++ after := by
  intro heq
  obtain ⟨c, rest, rfl, hc, -⟩ := hname
  have heq := List.append_cancel_left (List.append_cancel_right heq)
  rw [hs c (heq ▸ List.mem_cons_self)] at hc
  cases hc

section Splice

variable {t before name after : Text} (h : firstName? t = some (before, name, after))
include h

/-- A number in the place of the leftmost name makes another text of it. -/
theorem splice_numberText_ne {x : Float} (hx : x.isFinite = true) :
    before ++ numberText x ++ after ≠ t := by
  obtain ⟨rfl, -, hname, -⟩ := firstName?_eq_some_iff.1 h
  exact splice_ne (nameless_numberText hx) hname

/-- **A number in the place of the leftmost name leaves the other names.** -/
theorem names_splice {x : Float} (hx : x.isFinite = true) :
    names (before ++ numberText x ++ after) = names after := by
  obtain ⟨-, hb, -, -⟩ := firstName?_eq_some_iff.1 h
  exact names_append_of_nameless (nameless_append.2 ⟨hb, nameless_numberText hx⟩) after

/-- **What is no finite number is written with a name**, which is the leftmost one then. -/
theorem firstName?_splice {x : Float} {sign word : Text} (htext : numberText x = sign ++ word)
    (hsign : Nameless sign) (hword : IsName word) :
    firstName? (before ++ numberText x ++ after) = some (before ++ sign, word, after) := by
  obtain ⟨-, hb, -, ha⟩ := firstName?_eq_some_iff.1 h
  exact firstName?_eq_some_iff.2 ⟨by simp [htext], nameless_append.2 ⟨hb, hsign⟩, hword, ha⟩

theorem firstName?_splice_plusInfinity :
    firstName? (before ++ numberText plusInfinity ++ after) = some (before ++ [], infName, after) :=
  firstName?_splice h numberText_plusInfinity nameless_nil isName_infName

theorem firstName?_splice_minusInfinity :
    firstName? (before ++ numberText minusInfinity ++ after) =
      some (before ++ ['-'], infName, after) :=
  firstName?_splice h numberText_minusInfinity nameless_minus isName_infName

end Splice

end EquationFigure
