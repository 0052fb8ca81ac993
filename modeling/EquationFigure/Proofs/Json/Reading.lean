import EquationFigure.Json.Reader
import EquationFigure.Proofs.Attempt
import EquationFigure.Proofs.Json.Compact
import EquationFigure.Proofs.Json.Numbers

/-!
# Reading back what is written

A reader reads a tree as a value if it does so however the tree is written and whatever stands
before and behind it.  What a document's readers are made of has one lemma each: the reader for a
kind of value, for a list and for an object, which is read field by field.

* `Reads r v a` — from any white space on, `r` reads the tree `v` as `a` and leaves what follows;
  `ReadsHere` is the same without white space, `TakesField` behind a key.
* `reads_byKind_array`, `reads_byKind_object`, `reads_byKind_simple` — a reader chosen by kind.
* `readsHere_list` — a list is read item by item; `TakesUp`, `readsHere_object` — an object is read
  field by field.
* `reads_value` — a value of any kind is read whole; the induction is on how deep it may be nested.
* `complete_of_reads` — a text that holds a tree and nothing else.
-/

set_option autoImplicit false

namespace EquationFigure.Json

open Text Reader

/-! ## Numbers that can be read -/

/-- The number denotes a double and has an exponent that is read. -/
def Number.Readable (n : Number) : Prop := n.ExponentFits ∧ ∃ x, n.Denotes x

mutual

/-- The numbers in the tree. -/
def Tree.numbers : Tree → List Number
  | .number n => [n]
  | .array items => numbersOfItems items
  | .object fields => numbersOfFields fields
  | _ => []

/-- The numbers in the items. -/
def numbersOfItems : List Tree → List Number
  | [] => []
  | v :: items => v.numbers ++ numbersOfItems items

/-- The numbers in the fields. -/
def numbersOfFields : List (Text × Tree) → List Number
  | [] => []
  | (_, v) :: fields => v.numbers ++ numbersOfFields fields

end

/-- All numbers in the tree can be read. -/
def Tree.Readable (v : Tree) : Prop := ∀ n ∈ v.numbers, n.Readable

section Readable

variable {items : List Tree} {fields : List (Text × Tree)}

theorem readable_array_iff : (Tree.array items).Readable ↔ ∀ v ∈ items, v.Readable := by
  rw [Tree.Readable, Tree.numbers]
  induction items with
  | nil => simp [numbersOfItems]
  | cons v items ih =>
    rw [numbersOfItems, List.forall_mem_append, List.forall_mem_cons, ih]
    rfl

theorem readable_object_iff :
    (Tree.object fields).Readable ↔ ∀ field ∈ fields, field.2.Readable := by
  rw [Tree.Readable, Tree.numbers]
  induction fields with
  | nil => simp [numbersOfFields]
  | cons field fields ih =>
    rw [numbersOfFields, List.forall_mem_append, List.forall_mem_cons, ih]
    rfl

end Readable

/-! ## White space and what follows -/

section Gap

variable {gap t rest : Text} {c : Char}

theorem IsGap.isWhitespace (h : IsGap gap) : ∀ c ∈ gap, c.isWhitespace = true := by
  intro c hc
  rcases h c hc with rfl | rfl | rfl | rfl <;> decide

theorem IsGap.append {gap' : Text} (h : IsGap gap) (h' : IsGap gap') : IsGap (gap ++ gap') :=
  List.forall_mem_append.2 ⟨h, h'⟩

theorem run_next?_eq (t : Text) :
    next?.run t = (.ok (t.dropWhile Char.isWhitespace).head?, t.dropWhile Char.isWhitespace) := rfl

theorem run_next? (hgap : IsGap gap) (hc : c.isWhitespace = false) :
    next?.run (gap ++ c :: t) = (.ok (some c), c :: t) := by
  have hdrop : (gap ++ c :: t).dropWhile Char.isWhitespace = c :: t :=
    dropWhile_append_of_headNot hgap.isWhitespace (headNot_cons.2 hc)
  rw [run_next?_eq, hdrop]
  rfl

theorem run_next?_end (hgap : IsGap gap) : next?.run gap = (.ok none, []) := by
  have hdrop : (gap ++ []).dropWhile Char.isWhitespace = [] :=
    dropWhile_append_of_headNot hgap.isWhitespace headNot_nil
  rw [List.append_nil] at hdrop
  rw [run_next?_eq, hdrop]
  rfl

theorem stops_cons (hc : goesOn c = false) : Stops (c :: t) := headNot_cons.2 hc

theorem IsGap.stops (hgap : IsGap gap) (hrest : Stops rest) : Stops (gap ++ rest) := by
  refine headNot_append (headNot_of_forall fun c hc => ?_) hrest
  rcases hgap c hc with rfl | rfl | rfl | rfl <;> decide

/-- What follows an item does not go on with it. -/
theorem WritesItems.stops {items : List Tree} (h : WritesItems false items t) :
    Stops (t ++ ']' :: rest) := by
  cases h with
  | nil hgap => exact hgap.stops (stops_cons (by decide))
  | cons hgap =>
    rw [List.append_assoc]
    exact hgap.stops (stops_cons (by decide))

theorem WritesFields.stops {fields : List (Text × Tree)} (h : WritesFields false fields t) :
    Stops (t ++ '}' :: rest) := by
  cases h with
  | nil hgap => exact hgap.stops (stops_cons (by decide))
  | cons hgap =>
    rw [List.append_assoc]
    exact hgap.stops (stops_cons (by decide))

/-- Whether a value may begin with the character. -/
def opensValue (c : Char) : Bool :=
  c == 'n' || c == 't' || c == 'f' || c == '"' || c == '[' || c == '{' || c == '-' || c.isDigit

theorem Number.Spells.exists_cons {n : Number} (h : n.Spells t) :
    ∃ c t', t = c :: t' ∧ (c = '-' ∨ c.isDigit = true) := by
  cases h with
  | mk hwhole =>
    split
    · exact ⟨'-', _, rfl, .inl rfl⟩
    · generalize n.whole = whole at hwhole
      cases hwhole with
      | zero => exact ⟨'0', _, rfl, .inr (by decide)⟩
      | positive _ hdigits => exact ⟨_, _, rfl, .inr (hdigits _ List.mem_cons_self)⟩

/-- A value begins with a character of its own. -/
theorem Tree.Writes.exists_cons {v : Tree} (h : v.Writes t) :
    ∃ c t', t = c :: t' ∧ opensValue c = true := by
  cases h with
  | number hspells =>
    obtain ⟨c, t', rfl, rfl | hc⟩ := hspells.exists_cons
    · exact ⟨'-', t', rfl, by decide⟩
    · exact ⟨c, t', rfl, by rw [opensValue, hc, Bool.or_true]⟩
  | null | yes | no | string | array | object => exact ⟨_, _, rfl, by decide⟩

theorem opensValue_ne (hc : opensValue c = true) :
    c.isWhitespace = false ∧ c ≠ ']' ∧ c ≠ '}' ∧ c ≠ ',' := by
  have hall : ∀ d : Char, opensValue d = false → c ≠ d := by
    rintro d hd rfl
    rw [hc] at hd
    cases hd
  refine ⟨?_, hall ']' (by decide), hall '}' (by decide), hall ',' (by decide)⟩
  rw [← Bool.not_eq_true, Char.isWhitespace]
  simp only [Bool.or_eq_true, decide_eq_true_eq]
  rintro (((h | h) | h) | h)
  · exact hall ' ' (by decide) h
  · exact hall '\t' (by decide) h
  · exact hall '\r' (by decide) h
  · exact hall '\n' (by decide) h

end Gap

/-! ## Readers that read a tree -/

section Reads

variable {α β : Type} {r : Reader α} {v : Tree} {a : α}

/-- From any white space on, the reader reads the tree as the value and leaves what follows. -/
def Reads (r : Reader α) (v : Tree) (a : α) : Prop :=
  ∀ gap t rest, IsGap gap → v.Writes t → Stops rest → r.run (gap ++ (t ++ rest)) = (.ok a, rest)

/-- The reader reads the tree as the value where it begins. -/
def ReadsHere (r : Reader α) (v : Tree) (a : α) : Prop :=
  ∀ t rest, v.Writes t → Stops rest → r.run (t ++ rest) = (.ok a, rest)

/-- The reader reads the tree behind a key and a colon. -/
def TakesField (r : Reader α) (v : Tree) (a : α) : Prop :=
  ∀ gap gap' t rest, IsGap gap → IsGap gap' → v.Writes t → Stops rest →
    r.run (gap ++ (':' :: (gap' ++ (t ++ rest)))) = (.ok a, rest)

theorem Reads.here (h : Reads r v a) : ReadsHere r v a := fun t rest ht hrest =>
  h [] t rest isGap_nil ht hrest

theorem Reads.takesField (h : Reads r v a) : TakesField (afterColon r) v a := by
  intro gap gap' t rest hgap hgap' ht hrest
  rw [afterColon, Attempt.run_bind_of_ok (run_next? hgap (by decide))]
  exact h gap' t rest hgap' ht hrest

theorem ReadsHere.bind {f : α → Reader β} {b : β} (h : ReadsHere r v a) (hf : f a = pure b) :
    ReadsHere (r >>= f) v b := by
  intro t rest ht hrest
  rw [Attempt.run_bind_of_ok (h t rest ht hrest), hf]
  rfl

theorem TakesField.bind {f : α → Reader β} {b : β} (h : TakesField r v a) (hf : f a = pure b) :
    TakesField (r >>= f) v b := by
  intro gap gap' t rest hgap hgap' ht hrest
  rw [Attempt.run_bind_of_ok (h gap gap' t rest hgap hgap' ht hrest), hf]
  rfl

end Reads

/-! ## Values by their kind -/

section ByKind

variable {α : Type} {list object : Reader α} {simple : Value → Reader α} {a : α}

theorem reads_byKind_array {items : List Tree} (h : ReadsHere list (.array items) a) :
    Reads (byKind list object simple) (.array items) a := by
  intro gap t rest hgap ht hrest
  have hrun := h t rest ht hrest
  cases ht with
  | array =>
    rw [byKind, List.cons_append, Attempt.run_bind_of_ok (run_next? hgap (by decide))]
    exact hrun

theorem reads_byKind_object {fields : List (Text × Tree)}
    (h : ReadsHere object (.object fields) a) :
    Reads (byKind list object simple) (.object fields) a := by
  intro gap t rest hgap ht hrest
  have hrun := h t rest ht hrest
  cases ht with
  | object =>
    rw [byKind, List.cons_append, Attempt.run_bind_of_ok (run_next? hgap (by decide))]
    exact hrun

/-- The tree is neither a list nor an object. -/
def Tree.IsSimple : Tree → Prop
  | .array _ | .object _ => False
  | _ => True

theorem run_scanned {scan : Text → Except Stop (α × Text)} {t rest : Text}
    (h : scan t = .ok (a, rest)) : (scanned scan).run t = (.ok a, rest) := by
  simp only [scanned, h]

theorem run_word {word rest : Text} (v : Value) :
    (Reader.word word v).run (word ++ rest) = (.ok v, rest) := by
  rw [Reader.word, Attempt.run_bind_of_ok (run_scanned (scanWord_eq_ok_iff.2 rfl))]
  rfl

theorem run_quoted {s t rest : Text} (h : Quotes s t) :
    Reader.quoted.run ('"' :: (t ++ '"' :: rest)) = (.ok s, rest) := by
  rw [Reader.quoted, Attempt.run_bind]
  exact run_scanned (scanQuotedAfter_of_quotes h rest)

theorem simple?_of_number {c : Char} (hc : c = '-' ∨ c.isDigit = true) :
    simple? c = some (scanned scanNumber) := by
  have hne : ∀ d : Char, d ≠ '-' → d.isDigit = false → c ≠ d := by
    rintro d hd hdigit rfl
    rcases hc with hminus | hc
    · exact hd hminus
    · rw [hdigit] at hc
      cases hc
  rw [simple?]
  · exact if_pos hc
  · exact hne 'n' (by decide) (by decide)
  · exact hne 't' (by decide) (by decide)
  · exact hne 'f' (by decide) (by decide)
  · exact hne '"' (by decide) (by decide)

/-- What a value begins with that is neither a list nor an object says how it is read. -/
theorem Tree.Writes.run_simple? {v : Tree} {t rest : Text} (ht : v.Writes t) (hv : v.IsSimple)
    (hreadable : v.Readable) (hrest : Stops rest) :
    ∃ c t' r, t = c :: t' ∧ simple? c = some r ∧ c ≠ '[' ∧ c ≠ '{' ∧
      r.run (t ++ rest) = (.ok v.value, rest) := by
  cases ht with
  | null => exact ⟨_, _, _, rfl, rfl, by decide, by decide, run_word _⟩
  | yes => exact ⟨_, _, _, rfl, rfl, by decide, by decide, run_word _⟩
  | no => exact ⟨_, _, _, rfl, rfl, by decide, by decide, run_word _⟩
  | @number n t hspells =>
    obtain ⟨hfits, x, hx⟩ := hreadable n List.mem_cons_self
    obtain ⟨c, t', rfl, hc⟩ := hspells.exists_cons
    refine ⟨c, t', _, rfl, simple?_of_number hc, ?_, ?_,
      run_scanned (scanNumber_of_denotes hspells hx hfits hrest)⟩
    · rintro rfl
      revert hc
      decide
    · rintro rfl
      revert hc
      decide
  | @string s t hquotes =>
    refine ⟨_, _, _, rfl, rfl, by decide, by decide, ?_⟩
    rw [Attempt.run_map, List.cons_append, List.append_assoc, List.singleton_append,
      run_quoted hquotes]
    rfl
  | array => exact hv.elim
  | object => exact hv.elim

theorem reads_byKind_simple {v : Tree} (hv : v.IsSimple) (hreadable : v.Readable)
    (h : simple v.value = pure a) : Reads (byKind list object simple) v a := by
  intro gap t rest hgap ht hrest
  obtain ⟨c, t', hc⟩ := ht.exists_cons
  obtain ⟨d, t'', r, rfl, hr, hlist, hobject, hrun⟩ := ht.run_simple? hv hreadable hrest
  obtain ⟨hcons, hopens⟩ := hc
  cases hcons
  rw [List.cons_append, byKind,
    Attempt.run_bind_of_ok (run_next? hgap (opensValue_ne hopens).1)]
  split
  · rename_i heq
    cases heq
  · rename_i heq
    cases heq
    exact absurd rfl hlist
  · rename_i heq
    cases heq
    exact absurd rfl hobject
  · rename_i heq
    cases heq
    rw [hr, Option.getD_some]
    refine (Attempt.run_bind_of_ok hrun simple).trans ?_
    rw [h]
    rfl

end ByKind

/-! ## Lists -/

section List

variable {α : Type} {item : Reader α} {items : List Tree} {l : List α} {gap gap' t rest : Text}

theorem run_steps (t : Text) : steps.run t = (.ok (t.length + 1), t) := rfl

theorem run_advance (c : Char) (t : Text) : advance.run (c :: t) = (.ok (), t) := rfl

theorem run_hasItem_end (first : Bool) (hgap : IsGap gap) :
    (hasItem first).run (gap ++ ']' :: rest) = (.ok false, ']' :: rest) := by
  rw [hasItem.eq_def, Attempt.run_bind_of_ok (run_next? hgap (by decide))]
  cases first <;> rfl

/-- Another item follows: the white space and the comma before it are taken. -/
theorem run_hasItem {c : Char} (first : Bool) (hgap : IsGap gap) (hgap' : IsGap gap')
    (hc : opensValue c = true) :
    (hasItem first).run (gap ++ (separator first ++ (gap' ++ c :: t))) = (.ok true, c :: t) := by
  obtain ⟨hspace, hclose, -, -⟩ := opensValue_ne hc
  cases first with
  | true =>
    -- No comma stands before the first item, so the white space runs on.
    have hrun := run_next? (t := t) (hgap.append hgap') hspace
    rw [List.append_assoc] at hrun
    rw [hasItem.eq_def, separator, if_pos rfl, List.nil_append, Attempt.run_bind_of_ok hrun]
    split <;> simp_all
  | false =>
    rw [hasItem.eq_def, separator, if_neg (by decide), List.singleton_append,
      Attempt.run_bind_of_ok (run_next? hgap (by decide))]
    change ((advance >>= fun _ => next? >>= _) : Reader Bool).run _ = _
    rw [Attempt.run_bind_of_ok (run_advance _ _), Attempt.run_bind_of_ok (run_next? hgap' hspace)]
    split <;> simp_all

/-- An item takes a character at least. -/
theorem WritesItems.length_le {first : Bool} (h : WritesItems first items t) :
    items.length ≤ t.length := by
  induction items generalizing first t with
  | nil => exact Nat.zero_le _
  | cons v items ih =>
    cases h with
    | cons _ _ ht hrest =>
      obtain ⟨c, t', rfl, -⟩ := ht.exists_cons
      have := ih hrest
      simp only [List.length_cons, List.length_append]
      omega

/-- **The items of a list are read one after the other.** -/
theorem run_itemsWithin (h : List.Forall₂ (Reads item) items l) {first : Bool}
    (ht : WritesItems first items t) {steps : Nat} (hsteps : items.length < steps) :
    (itemsWithin item first steps).run (t ++ ']' :: rest) = (.ok l, ']' :: rest) := by
  induction h generalizing first t steps with
  | nil =>
    obtain ⟨steps, rfl⟩ := Nat.exists_eq_succ_of_ne_zero (Nat.ne_of_gt hsteps)
    cases ht with
    | nil hgap =>
      rw [itemsWithin, Attempt.run_bind_of_ok (run_hasItem_end first hgap)]
      rfl
  | @cons v a items l hitem _ ih =>
    obtain ⟨steps, rfl⟩ := Nat.exists_eq_succ_of_ne_zero (Nat.ne_of_gt (Nat.zero_lt_of_lt hsteps))
    rw [List.length_cons] at hsteps
    cases ht with
    | @cons _ _ _ gap gap' t r hgap hgap' ht hrest =>
      obtain ⟨c, t', rfl, hc⟩ := ht.exists_cons
      have hnext := run_hasItem (t := t' ++ (r ++ ']' :: rest)) first hgap hgap' hc
      have hread := hitem.here _ (r ++ ']' :: rest) ht hrest.stops
      simp only [List.append_assoc, List.cons_append] at hnext hread ⊢
      rw [itemsWithin, Attempt.run_bind_of_ok hnext]
      change ((item >>= fun a => itemsWithin item false steps >>= fun l => pure (a :: l)) :
        Reader (List _)).run _ = _
      rw [Attempt.run_bind_of_ok hread, Attempt.run_bind_of_ok (ih hrest (by omega))]
      rfl

theorem readsHere_list (h : List.Forall₂ (Reads item) items l) :
    ReadsHere (list item) (.array items) l := by
  intro t rest ht _
  cases ht with
  | @array _ t ht =>
    -- There is a step for each character, and an item has one at least.
    have hsteps : items.length < (t ++ ']' :: rest).length + 1 := by
      have := ht.length_le
      rw [List.length_append]
      omega
    rw [List.cons_append, List.append_assoc, List.singleton_append, list,
      Attempt.run_bind_of_ok (run_advance _ _), Attempt.run_bind_of_ok (run_steps _),
      Attempt.run_bind_of_ok (run_itemsWithin h ht hsteps)]
    rfl

end List

/-! ## Objects -/

section Object

variable {σ : Type} {field : σ → Text → Reader σ} {fields : List (Text × Tree)} {s s' : σ}
  {gap gap' t rest : Text}

/-- The fields are taken up one after the other, which leads from the one state to the other. -/
inductive TakesUp (field : σ → Text → Reader σ) : σ → List (Text × Tree) → σ → Prop
  | nil (s : σ) : TakesUp field s [] s
  | cons {s s₁ s₂ : σ} {key : Text} {v : Tree} {fields : List (Text × Tree)} :
    TakesField (field s key) v s₁ → TakesUp field s₁ fields s₂ →
    TakesUp field s ((key, v) :: fields) s₂

theorem TakesUp.append {s₁ s₂ : σ} {fields' : List (Text × Tree)} (h : TakesUp field s fields s₁)
    (h' : TakesUp field s₁ fields' s₂) : TakesUp field s (fields ++ fields') s₂ := by
  induction h with
  | nil => exact h'
  | cons hfield _ ih => exact .cons hfield (ih h')

/-- Fields are taken up by a reader if each is as it is by a step on its value. -/
theorem takesUp_of_foldlM {ε : Type} {step : σ → Text × Value → Except ε σ}
    (h : ∀ entry ∈ fields, ∀ s s', step s (valueOfField entry) = .ok s' →
      TakesField (field s entry.1) entry.2 s')
    (hfold : (fields.map valueOfField).foldlM step s = .ok s') : TakesUp field s fields s' := by
  induction fields generalizing s with
  | nil =>
    cases hfold
    exact .nil _
  | cons entry fields ih =>
    obtain ⟨hfirst, hrest⟩ := List.forall_mem_cons.1 h
    rw [List.map_cons, List.foldlM_cons] at hfold
    cases hstep : step s (valueOfField entry) with
    | error e =>
      rw [hstep] at hfold
      cases hfold
    | ok s₁ =>
      rw [hstep] at hfold
      exact .cons (hfirst _ s₁ hstep) (ih hrest hfold)

theorem run_hasField_end (first : Bool) (hgap : IsGap gap) :
    (hasField first).run (gap ++ '}' :: rest) = (.ok false, '}' :: rest) := by
  rw [hasField.eq_def, Attempt.run_bind_of_ok (run_next? hgap (by decide))]
  cases first <;> rfl

/-- Another field follows: the white space and the comma before it are taken. -/
theorem run_hasField (first : Bool) (hgap : IsGap gap) (hgap' : IsGap gap') :
    (hasField first).run (gap ++ (separator first ++ (gap' ++ '"' :: t))) =
      (.ok true, '"' :: t) := by
  cases first with
  | true =>
    have hrun := run_next? (t := t) (hgap.append hgap') (c := '"') (by decide)
    rw [List.append_assoc] at hrun
    rw [hasField.eq_def, separator, if_pos rfl, List.nil_append, Attempt.run_bind_of_ok hrun]
    rfl
  | false =>
    rw [hasField.eq_def, separator, if_neg (by decide), List.singleton_append,
      Attempt.run_bind_of_ok (run_next? hgap (by decide))]
    change ((advance >>= fun _ => next? >>= _) : Reader Bool).run _ = _
    rw [Attempt.run_bind_of_ok (run_advance _ _),
      Attempt.run_bind_of_ok (run_next? hgap' (by decide))]
    rfl

/-- A field takes a character at least. -/
theorem WritesFields.length_le {first : Bool} (h : WritesFields first fields t) :
    fields.length ≤ t.length := by
  induction fields generalizing first t with
  | nil => exact Nat.zero_le _
  | cons field fields ih =>
    cases h with
    | cons _ _ _ _ _ _ hrest =>
      have := ih hrest
      simp only [List.length_cons, List.length_append]
      omega

/-- **The fields of an object are taken up one after the other.** -/
theorem run_fieldsWithin (h : TakesUp field s fields s') {first : Bool}
    (ht : WritesFields first fields t) {steps : Nat} (hsteps : fields.length < steps) :
    (fieldsWithin field first steps s).run (t ++ '}' :: rest) = (.ok s', '}' :: rest) := by
  induction h generalizing first t steps with
  | nil =>
    obtain ⟨steps, rfl⟩ := Nat.exists_eq_succ_of_ne_zero (Nat.ne_of_gt hsteps)
    cases ht with
    | nil hgap =>
      rw [fieldsWithin, Attempt.run_bind_of_ok (run_hasField_end first hgap)]
      rfl
  | @cons s s₁ s₂ key v fields hfield _ ih =>
    obtain ⟨steps, rfl⟩ := Nat.exists_eq_succ_of_ne_zero (Nat.ne_of_gt (Nat.zero_lt_of_lt hsteps))
    rw [List.length_cons] at hsteps
    cases ht with
    | @cons _ _ _ _ gap gap' quoted gap₁ gap₂ t r hgap hgap' hkey hgap₁ hgap₂ ht hrest =>
      have hread := hfield gap₁ gap₂ t (r ++ '}' :: rest) hgap₁ hgap₂ ht hrest.stops
      simp only [List.append_assoc, List.cons_append]
      rw [fieldsWithin, Attempt.run_bind_of_ok (run_hasField first hgap hgap')]
      change ((Reader.quoted >>= fun key => field s key >>= fun s =>
        fieldsWithin field false steps s) : Reader σ).run _ = _
      rw [Attempt.run_bind_of_ok (run_quoted hkey), Attempt.run_bind_of_ok hread,
        ih hrest (by omega)]

theorem readsHere_object (h : TakesUp field s fields s') :
    ReadsHere (object field s) (.object fields) s' := by
  intro t rest ht _
  cases ht with
  | @object _ t ht =>
    have hsteps : fields.length < (t ++ '}' :: rest).length + 1 := by
      have := ht.length_le
      rw [List.length_append]
      omega
    rw [List.cons_append, List.append_assoc, List.singleton_append, object,
      Attempt.run_bind_of_ok (run_advance _ _), Attempt.run_bind_of_ok (run_steps _),
      Attempt.run_bind_of_ok (run_fieldsWithin h ht hsteps)]
    rfl

end Object

/-! ## Whole values -/

section Values

variable {α : Type} {levels : Nat} {v : Tree}

theorem ReadsHere.map {β : Type} {r : Reader α} {a : α} (f : α → β) (h : ReadsHere r v a) :
    ReadsHere (f <$> r) v (f a) := by
  intro t rest ht hrest
  rw [Attempt.run_map, h t rest ht hrest]
  rfl

/-- Fields that can be read are all kept. -/
theorem takesUp_keep {r : Reader Value} {fields : List (Text × Tree)}
    (h : ∀ field ∈ fields, Reads r field.2 field.2.value) (kept : List (Text × Value)) :
    TakesUp (keep r) kept fields (kept ++ fields.map valueOfField) := by
  induction fields generalizing kept with
  | nil =>
    rw [List.map_nil, List.append_nil]
    exact .nil kept
  | cons field fields ih =>
    have hrest := ih (fun field hfield => h field (List.mem_cons_of_mem _ hfield))
      (kept ++ [valueOfField field])
    rw [List.append_assoc, List.singleton_append] at hrest
    exact .cons ((h field List.mem_cons_self).takesField.bind rfl) hrest

theorem reads_value_simple (hv : v.IsSimple) (hreadable : v.Readable) :
    Reads (Reader.value levels) v v.value := by
  cases levels with
  | zero => exact reads_byKind_simple hv hreadable rfl
  | succ levels => exact reads_byKind_simple hv hreadable rfl

/-- **A value of any kind is read whole**, if it is not nested too deep. -/
theorem reads_value (hdepth : v.depth ≤ levels) (hreadable : v.Readable) :
    Reads (Reader.value levels) v v.value := by
  induction levels generalizing v with
  | zero =>
    cases v with
    | array items => cases hdepth
    | object fields => cases hdepth
    | null | bool | number | string => exact reads_value_simple trivial hreadable
  | succ levels ih =>
    cases v with
    | array items =>
      have hread : ∀ v ∈ items, Reads (Reader.value levels) v v.value := fun v hv =>
        ih (Nat.le_trans (depth_le_of_mem_items hv) (Nat.le_of_succ_le_succ hdepth))
          (readable_array_iff.1 hreadable v hv)
      have hitems : List.Forall₂ (Reads (Reader.value levels)) items (valuesOfItems items) := by
        rw [valuesOfItems_eq_map, List.forall₂_map_right_iff]
        exact List.forall₂_same.2 hread
      exact reads_byKind_array ((readsHere_list hitems).map Value.array)
    | object fields =>
      have hread : ∀ field ∈ fields, Reads (Reader.value levels) field.2 field.2.value :=
        fun field hfield =>
          ih (Nat.le_trans (depth_le_of_mem_fields hfield) (Nat.le_of_succ_le_succ hdepth))
            (readable_object_iff.1 hreadable field hfield)
      have hfields := takesUp_keep hread []
      rw [List.nil_append, ← valuesOfFields_eq_map] at hfields
      exact reads_byKind_object ((readsHere_object hfields).map Value.object)
    | null | bool | number | string => exact reads_value_simple trivial hreadable

end Values

/-! ## Whole texts -/

/-- **A text that holds one tree and nothing else is read as that tree is.** -/
theorem complete_of_reads {α : Type} {r : Reader α} {v : Tree} {a : α} (h : Reads r v a)
    {gap gap' t : Text} (hgap : IsGap gap) (hgap' : IsGap gap') (ht : v.Writes t) :
    complete r (gap ++ (t ++ gap')) = .ok a := by
  have hstops : Stops gap' := by
    have : Stops (gap' ++ []) := hgap'.stops headNot_nil
    rwa [List.append_nil] at this
  have hrun := h gap t gap' hgap ht hstops
  rw [complete, Attempt.run_bind_of_ok hrun, Attempt.run_bind_of_ok (run_next?_end hgap')]
  rfl

end EquationFigure.Json
