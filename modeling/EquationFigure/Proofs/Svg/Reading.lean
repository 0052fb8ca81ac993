import EquationFigure.Proofs.Text.Runs
import EquationFigure.Svg.Printer

/-!
# Reading markup back

A reader of markup that knows tags, attributes in double quotes, the five entities and text.  Text
in an element without elements in it is its content; between elements there may be layout, which
says nothing.  Whatever is in the values and the texts of a tree, the reader finds in the printed
markup the tree that was printed: nothing in a value can end it, and nothing in a text can be taken
for a tag or for layout.

* `Token`, `nextToken?` — the pieces of markup, and the one at the start of a text.
* `Open`, `step` — the elements begun and not ended, and what a piece does to them.
* `Node.read?` — the tree that a text is the markup of.
* `Node.WellFormed` — tags and attributes have names, and text is not mixed with elements.
* `readFrom_printAt` — what is printed for an element is read as that element and nothing else.
* `read?_print` — **printing is undone by reading**, indented or not.
-/

set_option autoImplicit false

namespace EquationFigure.Svg

open Text

/-! ## Names -/

/-- The code points that a name may start with, as closed ranges in ascending order. -/
def nameStartRanges : List (Nat × Nat) :=
  [(0x3A, 0x3A), (0x41, 0x5A), (0x5F, 0x5F), (0x61, 0x7A), (0xC0, 0xD6), (0xD8, 0xF6),
   (0xF8, 0x2FF), (0x370, 0x37D), (0x37F, 0x1FFF), (0x200C, 0x200D), (0x2070, 0x218F),
   (0x2C00, 0x2FEF), (0x3001, 0xD7FF), (0xF900, 0xFDCF), (0xFDF0, 0xFFFD), (0x10000, 0xEFFFF)]

/-- The other code points that a name may go on with, as closed ranges in ascending order. -/
def nameOnlyRanges : List (Nat × Nat) :=
  [(0x2D, 0x2E), (0x30, 0x39), (0xB7, 0xB7), (0x300, 0x36F), (0x203F, 0x2040)]

/-- Whether the code point of the character is in one of the ranges. -/
def isWithin (ranges : List (Nat × Nat)) (c : Char) : Bool :=
  ranges.any fun r => r.1 ≤ c.toNat && c.toNat ≤ r.2

/-- Whether the name of a tag or an attribute may start with the character. -/
def isNameStartChar (c : Char) : Bool := isWithin nameStartRanges c

/-- Whether the name of a tag or an attribute may go on with the character. -/
def isNameChar (c : Char) : Bool := isNameStartChar c || isWithin nameOnlyRanges c

/-- Whether a tag or an attribute may have the name. -/
def isMarkupName (name : String) : Bool :=
  match name.toList with
  | [] => false
  | c :: t => isNameStartChar c && t.all isNameChar

/-! ## The pieces of markup -/

/-- The text without the layout at its start. -/
def skipLayout (t : Text) : Text := t.dropWhile Char.isWhitespace

/-- The name at the start of the text and what follows it. -/
def takeName? : Text → Option (String × Text)
  | [] => none
  | c :: t =>
    if isNameStartChar c then
      some (String.ofList (c :: t.takeWhile isNameChar), t.dropWhile isNameChar)
    else none

/-- The value in double quotes at the start of the text and what follows it. -/
def takeValue? : Text → Option (Text × Text)
  | '"' :: t =>
    match t.dropWhile (· != '"') with
    | [] => none
    | _ :: rest => (unescape? (t.takeWhile (· != '"'))).map fun value => (value, rest)
  | _ => none

/-- The attribute at the start of the text, behind layout, and what follows it. -/
def takeAttribute? : Text → Option (Attribute × Text)
  | [] => none
  | c :: t =>
    if c.isWhitespace then do
      let (name, t) ← takeName? (skipLayout t)
      let t ← Text.dropStart? ['='] (skipLayout t)
      let (value, t) ← takeValue? (skipLayout t)
      return ((name, value), t)
    else none

theorem length_skipLayout_le (t : Text) : (skipLayout t).length ≤ t.length :=
  (List.dropWhile_suffix _).length_le

theorem length_lt_of_takeName? {t rest : Text} {name : String}
    (h : takeName? t = some (name, rest)) : rest.length < t.length := by
  cases t with
  | nil => cases h
  | cons c t =>
    rw [takeName?] at h
    split at h
    · cases h
      exact Nat.lt_succ_of_le ((List.dropWhile_suffix _).length_le)
    · cases h

theorem length_lt_of_takeValue? {t rest value : Text} (h : takeValue? t = some (value, rest)) :
    rest.length < t.length := by
  rw [takeValue?.eq_def] at h
  split at h
  · rename_i t
    have hle := (List.dropWhile_suffix (· != '"') (l := t)).length_le
    split at h
    · cases h
    · rename_i heq
      rw [heq, List.length_cons] at hle
      obtain ⟨_, -, heq⟩ := Option.map_eq_some_iff.1 h
      cases heq
      rw [List.length_cons]
      omega
  · cases h

theorem length_lt_of_takeAttribute? {t rest : Text} {a : Attribute}
    (h : takeAttribute? t = some (a, rest)) : rest.length < t.length := by
  cases t with
  | nil => cases h
  | cons c t =>
    rw [takeAttribute?] at h
    split at h
    · obtain ⟨⟨name, t₁⟩, hname, h⟩ := Option.bind_eq_some_iff.1 h
      obtain ⟨t₂, hequals, h⟩ := Option.bind_eq_some_iff.1 h
      obtain ⟨⟨value, t₃⟩, hvalue, h⟩ := Option.bind_eq_some_iff.1 h
      cases h
      have h₁ := length_lt_of_takeName? hname
      have h₂ := congrArg List.length (dropStart?_eq_some_iff.1 hequals)
      have h₃ := length_lt_of_takeValue? hvalue
      have := length_skipLayout_le t
      have := length_skipLayout_le t₁
      have := length_skipLayout_le t₂
      rw [List.length_append] at h₂
      rw [List.length_cons]
      omega
    · cases h

/-- The attributes at the start of the text, each behind layout, and what follows them. -/
def takeAttributes (t : Text) : List Attribute × Text :=
  match _h : takeAttribute? t with
  | none => ([], t)
  | some (a, rest) => ((a :: (takeAttributes rest).1), (takeAttributes rest).2)
termination_by t.length
decreasing_by all_goals exact length_lt_of_takeAttribute? _h

/-- A piece of markup. -/
inductive Token where
  /-- The tag at the start of an element. -/
  | start (tag : String) (attributes : List Attribute)
  /-- A tag that is a whole element. -/
  | whole (tag : String) (attributes : List Attribute)
  /-- The tag at the end of an element. -/
  | stop (tag : String)
  /-- What is between two tags. -/
  | text (t : Text)

/-- The tag that has been read up to its end, which the text starts with, and what follows it. -/
def endTag? (tag : String) (attributes : List Attribute) : Text → Option (Token × Text)
  | '>' :: rest => some (.start tag attributes, rest)
  | '/' :: '>' :: rest => some (.whole tag attributes, rest)
  | _ => none

/-- The tag whose left bracket stands before the text, and what follows it. -/
def takeTag? : Text → Option (Token × Text)
  | '/' :: t => do
    let (tag, t) ← takeName? t
    let rest ← Text.dropStart? ['>'] (skipLayout t)
    return (.stop tag, rest)
  | t => do
    let (tag, t) ← takeName? t
    endTag? tag (takeAttributes t).1 (skipLayout (takeAttributes t).2)

/-- The piece of markup at the start of the text and what follows it. -/
def nextToken? : Text → Option (Token × Text)
  | [] => none
  | '<' :: t => takeTag? t
  | t => (unescape? (t.takeWhile (· != '<'))).map fun u => (.text u, t.dropWhile (· != '<'))

theorem length_takeAttributes_le (t : Text) : (takeAttributes t).2.length ≤ t.length := by
  fun_induction takeAttributes t with
  | case1 t h => exact Nat.le_refl _
  | case2 t a rest h ih =>
    exact Nat.le_of_lt (Nat.lt_of_le_of_lt ih (length_lt_of_takeAttribute? h))

theorem length_lt_of_endTag? {t rest : Text} {token : Token} {tag : String}
    {attributes : List Attribute} (h : endTag? tag attributes t = some (token, rest)) :
    rest.length < t.length := by
  rw [endTag?.eq_def] at h
  split at h
  · cases h
    exact Nat.lt_succ_self _
  · cases h
    exact Nat.lt_succ_of_lt (Nat.lt_succ_self _)
  · cases h

theorem length_lt_of_takeTag? {t rest : Text} {token : Token}
    (h : takeTag? t = some (token, rest)) : rest.length < t.length := by
  rw [takeTag?.eq_def] at h
  split at h
  · obtain ⟨⟨tag, t₁⟩, hname, h⟩ := Option.bind_eq_some_iff.1 h
    obtain ⟨t₂, hend, h⟩ := Option.bind_eq_some_iff.1 h
    cases h
    have h₁ := length_lt_of_takeName? hname
    have h₂ := congrArg List.length (dropStart?_eq_some_iff.1 hend)
    have := length_skipLayout_le t₁
    rw [List.length_append] at h₂
    rw [List.length_cons]
    omega
  · obtain ⟨⟨tag, t₁⟩, hname, h⟩ := Option.bind_eq_some_iff.1 h
    have h₁ := length_lt_of_takeName? hname
    have h₂ := length_takeAttributes_le t₁
    have h₃ := length_skipLayout_le (takeAttributes t₁).2
    have h₄ := length_lt_of_endTag? h
    omega

theorem length_lt_of_nextToken? {t rest : Text} {token : Token}
    (h : nextToken? t = some (token, rest)) : rest.length < t.length := by
  rw [nextToken?.eq_def] at h
  split at h
  · cases h
  · exact Nat.lt_succ_of_lt (length_lt_of_takeTag? h)
  · rename_i hnil hopen
    obtain ⟨u, -, heq⟩ := Option.map_eq_some_iff.1 h
    cases heq
    cases t with
    | nil => exact absurd rfl hnil
    | cons c t =>
      have hc : (c != '<') = true := bne_iff_ne.2 fun hc => hopen t (hc ▸ rfl)
      rw [List.dropWhile_cons_of_pos (p := (· != '<')) hc]
      exact Nat.lt_succ_of_le (List.dropWhile_suffix _).length_le

/-! ## Trees -/

/-- An element that has begun and not ended. -/
structure Open where
  /-- Its tag. -/
  tag : String
  /-- Its attributes. -/
  attributes : List Attribute
  /-- The elements in it so far. -/
  children : List Node := []
  /-- The text since the last of them. -/
  text : Text := []

namespace Open

/-- The element with one more in it.  Before an element there can be layout only. -/
def addChild? (o : Open) (node : Node) : Option Open :=
  if o.text.all Char.isWhitespace then
    some { o with children := o.children ++ [node], text := [] }
  else none

/-- The element at its end.  Without elements in it the text is its content. -/
def close? (o : Open) : Option Node :=
  match o.children with
  | [] => some (.element o.tag o.attributes (some o.text) [])
  | children =>
    if o.text.all Char.isWhitespace then some (.element o.tag o.attributes none children) else none

end Open

/-- What a piece of markup does to the elements that have begun and not ended, the innermost
first. -/
def step : Token → List Open → Option (List Open)
  | .start tag attributes, stack => some ({ tag, attributes } :: stack)
  | .whole tag attributes, o :: stack => do
    return (← o.addChild? (.element tag attributes none [])) :: stack
  | .stop tag, inner :: o :: stack =>
    if tag = inner.tag then do return (← o.addChild? (← inner.close?)) :: stack else none
  | .text t, o :: stack => some ({ o with text := o.text ++ t } :: stack)
  | _, _ => none

/-- The elements that have begun and not ended when the whole text has been read. -/
def readFrom (stack : List Open) (t : Text) : Option (List Open) :=
  if t = [] then some stack
  else
    match _h : nextToken? t with
    | none => none
    | some (token, rest) => (step token stack).bind fun stack => readFrom stack rest
termination_by t.length
decreasing_by exact length_lt_of_nextToken? _h

/-- The place outside of all elements. -/
def outside : Open := { tag := "", attributes := [] }

/-- The tree that the text is the markup of. -/
def Node.read? (t : Text) : Option Node := do
  match ← readFrom [outside] t with
  | [o] =>
    match o.children with
    | [node] => if o.text.all Char.isWhitespace then some node else none
    | _ => none
  | _ => none

/-! ## Reading names, values and tags -/

theorem dropStart?_singleton (c : Char) (t : Text) : dropStart? [c] (c :: t) = some t :=
  dropStart?_eq_some_iff.2 rfl

theorem isNameChar_eq_false {c : Char} (h : c ∈ [' ', '=', '/', '>', '"', '\n']) :
    isNameChar c = false := by
  simp only [List.mem_cons, List.not_mem_nil, or_false] at h
  rcases h with rfl | rfl | rfl | rfl | rfl | rfl <;> decide

theorem takeName?_append {name : String} (h : isMarkupName name = true) {rest : Text}
    (hrest : HeadNot isNameChar rest) : takeName? (name.toList ++ rest) = some (name, rest) := by
  rw [isMarkupName] at h
  cases hname : name.toList with
  | nil => rw [hname] at h; cases h
  | cons c t =>
    rw [hname, Bool.and_eq_true, List.all_eq_true] at h
    rw [List.cons_append, takeName?, if_pos h.1, takeWhile_append_of_headNot h.2 hrest,
      dropWhile_append_of_headNot h.2 hrest, ← hname, String.ofList_toList]

theorem takeValue?_escape (value rest : Text) :
    takeValue? ('"' :: (escape value ++ '"' :: rest)) = some (value, rest) := by
  have hvalue : ∀ c ∈ escape value, (c != '"') = true := fun c hc =>
    bne_iff_ne.2 fun heq => not_mem_escape value (.inr (.inr heq)) hc
  have hrest : HeadNot (· != '"') ('"' :: rest) := headNot_cons.2 rfl
  rw [takeValue?, dropWhile_append_of_headNot hvalue hrest,
    takeWhile_append_of_headNot hvalue hrest, unescape?_escape]
  rfl

theorem skipLayout_of_headNot {t : Text} (h : HeadNot Char.isWhitespace t) : skipLayout t = t :=
  dropWhile_of_headNot h

theorem headNot_name {p : Char → Bool} (hp : ∀ c, p c = true → isNameStartChar c = false)
    {name : String} (h : isMarkupName name = true) (rest : Text) :
    HeadNot p (name.toList ++ rest) := by
  rw [isMarkupName] at h
  cases hname : name.toList with
  | nil => rw [hname] at h; cases h
  | cons c t =>
    rw [hname, Bool.and_eq_true] at h
    refine headNot_cons.2 (Bool.eq_false_iff.2 fun hc => ?_)
    rw [hp c hc] at h
    exact absurd h.1 Bool.false_ne_true

/-- No name starts with layout. -/
theorem isNameStartChar_of_isWhitespace (c : Char) (h : c.isWhitespace = true) :
    isNameStartChar c = false := by
  simp only [Char.isWhitespace, Bool.or_eq_true, decide_eq_true_eq] at h
  rcases h with ((rfl | rfl) | rfl) | rfl <;> decide

theorem takeAttribute?_print {a : Attribute} (h : isMarkupName a.1 = true) (rest : Text) :
    takeAttribute? (printAttribute a ++ rest) = some (a, rest) := by
  obtain ⟨name, value⟩ := a
  have hprint : printAttribute (name, value) ++ rest =
      ' ' :: (name.toList ++ '=' :: '"' :: (escape value ++ '"' :: rest)) := by
    simp [printAttribute]
  have hequals : HeadNot isNameChar ('=' :: '"' :: (escape value ++ '"' :: rest)) :=
    headNot_cons.2 (isNameChar_eq_false (by decide))
  have hskip : ∀ c t, c.isWhitespace = false → skipLayout (c :: t) = c :: t :=
    fun c t hc => skipLayout_of_headNot (headNot_cons.2 hc)
  rw [hprint, takeAttribute?, if_pos (by decide),
    skipLayout_of_headNot (headNot_name isNameStartChar_of_isWhitespace h _),
    takeName?_append h hequals]
  simp only [Option.bind_eq_bind, Option.bind_some]
  rw [hskip '=' _ (by decide), dropStart?_singleton]
  simp only [Option.bind_some]
  rw [hskip '"' _ (by decide), takeValue?_escape]
  rfl

theorem takeAttribute?_of_headNot {t : Text} (h : HeadNot Char.isWhitespace t) :
    takeAttribute? t = none := by
  cases t with
  | nil => rfl
  | cons c t => rw [takeAttribute?, if_neg (Bool.eq_false_iff.1 (headNot_cons.1 h))]

/-- **The attributes of a tag are read back.** -/
theorem takeAttributes_print {attributes : List Attribute}
    (h : ∀ a ∈ attributes, isMarkupName a.1 = true) {rest : Text}
    (hrest : HeadNot Char.isWhitespace rest) :
    takeAttributes (attributes.flatMap printAttribute ++ rest) = (attributes, rest) := by
  induction attributes with
  | nil =>
    rw [List.flatMap_nil, List.nil_append, takeAttributes]
    split
    · rfl
    · rename_i hsome
      rw [takeAttribute?_of_headNot hrest] at hsome
      cases hsome
  | cons a attributes ih =>
    obtain ⟨ha, h⟩ := List.forall_mem_cons.1 h
    have hfirst := takeAttribute?_print ha (attributes.flatMap printAttribute ++ rest)
    rw [List.flatMap_cons, List.append_assoc, takeAttributes]
    split
    · rename_i hnone
      rw [hfirst] at hnone
      cases hnone
    · rename_i hsome
      rw [hfirst] at hsome
      cases hsome
      rw [ih h]

/-- What follows the attributes of a tag is no part of its name. -/
theorem headNot_isNameChar_attributes (attributes : List Attribute) {rest : Text}
    (h : HeadNot isNameChar rest) :
    HeadNot isNameChar (attributes.flatMap printAttribute ++ rest) := by
  cases attributes with
  | nil => exact h
  | cons a attributes => exact headNot_cons.2 (isNameChar_eq_false (by decide))

section Tags

variable {tag : String} (htag : isMarkupName tag = true)
include htag

theorem nextToken?_stop (rest : Text) :
    nextToken? ('<' :: '/' :: (tag.toList ++ '>' :: rest)) = some (.stop tag, rest) := by
  rw [nextToken?, takeTag?, takeName?_append htag
    (headNot_cons.2 (isNameChar_eq_false (by decide)))]
  simp only [Option.bind_eq_bind, Option.bind_some]
  rw [skipLayout_of_headNot (headNot_cons.2 (by decide)), dropStart?_singleton]
  rfl

variable {attributes : List Attribute} (hattributes : ∀ a ∈ attributes, isMarkupName a.1 = true)
include hattributes

/-- How a tag with attributes ends says what it is. -/
theorem nextToken?_tag {rest : Text} (hname : HeadNot isNameChar rest)
    (hspace : HeadNot Char.isWhitespace rest) :
    nextToken? ('<' :: (printTag tag attributes ++ rest)) =
      endTag? tag attributes rest := by
  rw [nextToken?, takeTag?.eq_def, printTag, List.append_assoc]
  split
  · rename_i t heq
    have hslash := headNot_name (p := (· == '/')) (fun c hc => by rw [beq_iff_eq.1 hc]; decide)
      htag (attributes.flatMap printAttribute ++ rest)
    rw [heq] at hslash
    exact absurd (headNot_cons.1 hslash) (by decide)
  · rw [takeName?_append htag (headNot_isNameChar_attributes attributes hname)]
    simp only [Option.bind_eq_bind, Option.bind_some]
    rw [takeAttributes_print hattributes hspace, skipLayout_of_headNot hspace]

theorem nextToken?_start (rest : Text) :
    nextToken? ('<' :: (printTag tag attributes ++ '>' :: rest)) =
      some (.start tag attributes, rest) :=
  nextToken?_tag htag hattributes (headNot_cons.2 (isNameChar_eq_false (by decide)))
    (headNot_cons.2 (by decide))

theorem nextToken?_whole (rest : Text) :
    nextToken? ('<' :: (printTag tag attributes ++ '/' :: '>' :: rest)) =
      some (.whole tag attributes, rest) :=
  nextToken?_tag htag hattributes (headNot_cons.2 (isNameChar_eq_false (by decide)))
    (headNot_cons.2 (by decide))

end Tags

/-- What is between two tags is read as what it stands for. -/
theorem nextToken?_text {t : Text} (ht : t ≠ []) (rest : Text) :
    nextToken? (escape t ++ '<' :: rest) = some (.text t, '<' :: rest) := by
  have hescape : ∀ c ∈ escape t, (c != '<') = true := fun c hc =>
    bne_iff_ne.2 fun heq => not_mem_escape t (.inl heq) hc
  have hrest : HeadNot (· != '<') ('<' :: rest) := headNot_cons.2 rfl
  rw [nextToken?.eq_def]
  split
  · rename_i heq
    exact absurd heq (by simp)
  · rename_i u heq
    cases hprint : escape t with
    | nil =>
      have hback := unescape?_escape t
      rw [hprint] at hback
      cases hback
      exact absurd rfl ht
    | cons c v =>
      rw [hprint, List.cons_append] at heq
      exact absurd (hescape c (hprint ▸ List.mem_cons_self)) (by simp [(List.cons.inj heq).1])
  · rw [takeWhile_append_of_headNot hescape hrest, dropWhile_append_of_headNot hescape hrest,
      unescape?_escape]
    rfl

/-! ## Reading elements -/

namespace Node

/-- Tags and attributes have names, and an element with a text has no elements in it. -/
inductive WellFormed : Node → Prop
  | mk {tag : String} {attributes : List Attribute} {text? : Option Text} {children : List Node} :
    isMarkupName tag = true → (∀ a ∈ attributes, isMarkupName a.1 = true) →
    (text? = none ∨ children = []) → (∀ node ∈ children, node.WellFormed) →
    WellFormed (.element tag attributes text? children)

end Node

theorem readFrom_nil (stack : List Open) : readFrom stack [] = some stack := by
  rw [readFrom, if_pos rfl]

theorem readFrom_token {stack stack' : List Open} {t rest : Text} {token : Token}
    (h : nextToken? t = some (token, rest)) (hstep : step token stack = some stack') :
    readFrom stack t = readFrom stack' rest := by
  have ht : t ≠ [] := by
    rintro rfl
    cases h
  rw [readFrom, if_neg ht]
  split
  · rename_i hnone
    rw [h] at hnone
    cases hnone
  · rename_i hsome
    rw [h] at hsome
    cases hsome
    rw [hstep]
    rfl

/-- Text in front of a tag is added to the innermost element. -/
theorem readFrom_text (o : Open) (stack : List Open) (t rest : Text) :
    readFrom (o :: stack) (escape t ++ '<' :: rest) =
      readFrom ({ o with text := o.text ++ t } :: stack) ('<' :: rest) := by
  by_cases ht : t = []
  · subst ht
    rw [List.append_nil]
    rfl
  · exact readFrom_token (nextToken?_text ht rest) rfl

/-- Layout is written as it is. -/
theorem escape_lineBreak (indent? : Option Nat) (depth : Nat) :
    escape (lineBreak indent? depth) = lineBreak indent? depth := by
  cases indent? with
  | none => rfl
  | some width =>
    have hspaces : ∀ n, escape (List.replicate n ' ') = List.replicate n ' ' := by
      intro n
      induction n with
      | zero => rfl
      | succ n ih => rw [List.replicate_succ, escape_cons, ih]; rfl
    rw [lineBreak, escape_cons, hspaces]
    rfl

theorem isWhitespace_lineBreak (indent? : Option Nat) (depth : Nat) :
    (lineBreak indent? depth).all Char.isWhitespace = true := by
  cases indent? with
  | none => rfl
  | some width => simp [lineBreak]

theorem readFrom_lineBreak (o : Open) (stack : List Open) (indent? : Option Nat) (depth : Nat)
    (rest : Text) :
    readFrom (o :: stack) (lineBreak indent? depth ++ '<' :: rest) =
      readFrom ({ o with text := o.text ++ lineBreak indent? depth } :: stack) ('<' :: rest) := by
  conv_lhs => rw [← escape_lineBreak]
  exact readFrom_text o stack _ rest

theorem exists_printAt (indent? : Option Nat) (depth : Nat) (node : Node) :
    ∃ t, node.printAt indent? depth = '<' :: t := by
  fun_cases Node.printAt indent? depth node <;> exact ⟨_, rfl⟩

section Elements

variable (indent? : Option Nat)

/-- An element with elements in it has no text. -/
theorem Open.close?_of_cons {o : Open} (hne : o.children ≠ [])
    (htext : o.text.all Char.isWhitespace = true) :
    o.close? = some (.element o.tag o.attributes none o.children) := by
  rw [close?]
  split
  · exact absurd ‹_› hne
  · exact if_pos htext

theorem Open.addChild?_eq {o : Open} (ho : o.text.all Char.isWhitespace = true) (node : Node) :
    o.addChild? node = some { o with children := o.children ++ [node], text := [] } :=
  if_pos ho

theorem step_stop {inner o : Open} {stack : List Open} {tag : String} {node : Node}
    (htag : tag = inner.tag) (hclose : inner.close? = some node)
    (ho : o.text.all Char.isWhitespace = true) :
    step (.stop tag) (inner :: o :: stack) =
      some ({ o with children := o.children ++ [node], text := [] } :: stack) := by
  rw [step, if_pos htag, hclose]
  simp only [Option.bind_eq_bind, Option.bind_some]
  rw [Open.addChild?_eq ho]
  rfl

mutual

/-- **What is printed for an element is read as that element**, which comes to those in the
innermost element that has begun. -/
theorem readFrom_printAt (depth : Nat) (node : Node) (h : node.WellFormed) (o : Open)
    (stack : List Open) (ho : o.text.all Char.isWhitespace = true) (rest : Text) :
    readFrom (o :: stack) (node.printAt indent? depth ++ rest) =
      readFrom ({ o with children := o.children ++ [node], text := [] } :: stack) rest := by
  match node, h with
  | .element tag attributes none [], .mk htag hattributes _ _ =>
    have hprint : Node.printAt indent? depth (.element tag attributes none []) ++ rest =
        '<' :: (printTag tag attributes ++ '/' :: '>' :: rest) := by
      simp [Node.printAt]
    rw [hprint]
    refine readFrom_token (nextToken?_whole htag hattributes rest) ?_
    rw [step, Open.addChild?_eq ho]
    rfl
  | .element tag attributes (some text) [], .mk htag hattributes _ _ =>
    have hprint : Node.printAt indent? depth (.element tag attributes (some text) []) ++ rest =
        '<' :: (printTag tag attributes ++ '>' :: (escape text ++
          '<' :: '/' :: (tag.toList ++ '>' :: rest))) := by
      simp [Node.printAt]
    rw [hprint, readFrom_token (nextToken?_start htag hattributes _) rfl, readFrom_text]
    exact readFrom_token (nextToken?_stop htag rest) (step_stop rfl rfl ho)
  | .element tag attributes text? (first :: more), .mk htag hattributes htext hchildren =>
    obtain rfl := htext.resolve_right (List.cons_ne_nil _ _)
    obtain ⟨hfirst, hmore⟩ := List.forall_mem_cons.1 hchildren
    obtain ⟨t, ht⟩ := exists_printAt indent? (depth + 1) first
    have hprint :
        Node.printAt indent? depth (.element tag attributes none (first :: more)) ++ rest =
        '<' :: (printTag tag attributes ++ '>' :: (lineBreak indent? (depth + 1) ++
          (first.printAt indent? (depth + 1) ++ (Node.printEach indent? (depth + 1) more ++
            (lineBreak indent? depth ++ '<' :: '/' :: (tag.toList ++ '>' :: rest)))))) := by
      simp [Node.printAt]
    rw [hprint, readFrom_token (nextToken?_start htag hattributes _) rfl]
    conv_lhs => rw [ht, List.cons_append, readFrom_lineBreak, ← List.cons_append, ← ht]
    rw [readFrom_printAt (depth + 1) first hfirst _ _ (isWhitespace_lineBreak _ _),
      readFrom_printEach (depth + 1) more hmore _ _ rfl, readFrom_lineBreak]
    exact readFrom_token (nextToken?_stop htag rest) (step_stop rfl
      (Open.close?_of_cons (List.cons_ne_nil _ _) (isWhitespace_lineBreak _ _)) ho)

/-- What is printed for elements in a row is read as those elements. -/
theorem readFrom_printEach (depth : Nat) (nodes : List Node) (h : ∀ node ∈ nodes, node.WellFormed)
    (o : Open) (stack : List Open) (ho : o.text = []) (rest : Text) :
    readFrom (o :: stack) (Node.printEach indent? depth nodes ++ rest) =
      readFrom ({ o with children := o.children ++ nodes } :: stack) rest := by
  match nodes with
  | [] => rw [List.append_nil, Node.printEach, List.nil_append]
  | node :: nodes =>
    obtain ⟨hnode, hnodes⟩ := List.forall_mem_cons.1 h
    obtain ⟨t, ht⟩ := exists_printAt indent? depth node
    rw [Node.printEach, List.append_assoc, List.append_assoc]
    conv_lhs => rw [ht, List.cons_append, readFrom_lineBreak, ← List.cons_append, ← ht]
    rw [readFrom_printAt depth node hnode _ _ (by rw [ho]; exact isWhitespace_lineBreak _ _),
      readFrom_printEach depth nodes hnodes _ _ rfl]
    simp [ho]

end

end Elements

/-- **Reading undoes printing**, whatever the values and texts of the tree are, indented or not. -/
theorem read?_print (node : Node) (h : node.WellFormed) (indent? : Option Nat) :
    Node.read? (node.print indent?) = some node := by
  have hread := readFrom_printAt indent? 0 node h outside [] rfl []
  rw [List.append_nil, readFrom_nil] at hread
  rw [Node.read?, Node.print, hread]
  rfl

end EquationFigure.Svg
