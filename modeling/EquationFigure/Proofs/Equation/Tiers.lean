import EquationFigure.Proofs.Equation.Chains

/-!
# The order of operators inside a tier

The operators of a tier are tried one after the other at each place of a text, and the order in
which they stand in the tier decides nothing.  Two operators are never read at the same place: white
space and numerals end where they must, and a `/` in front of another one has no operand behind it.
So what is found is the leftmost operation of the tier, whatever the order.

* `Operation.scan_of_scan` — where an operation is read, no other operator is.
* `Occurrence.Leftmost` — the leftmost operation, said without an order of the operators;
  `findOperation_eq_some_iff` says that it is what the search finds.
* `reduceWithin_congr` — tiers with the same operators reduce a text in the same steps.
* `order_in_tiers` — all this for the tiers of equations.
-/

set_option autoImplicit false

namespace EquationFigure

open Text

/-! ## One operator at a place -/

section Scan

variable {op : Operator} {t rest : Text} {o : Operation}

/-- Where an operation is read, a link stands behind its left operand. -/
theorem Operation.exists_link (h : Operation.scan op t = some (o, rest)) :
    ∃ l : Link, o.lhs.WellFormed ∧ l.WellFormed ∧ l.operand.StopsAt rest ∧ l.operation o.lhs = o ∧
      t = o.lhs.text ++ (l.separator ++ l.operand.text ++ rest) := by
  obtain ⟨-, ho, hrest, rfl⟩ := Operation.scan_eq_some_iff.1 h
  exact ⟨⟨o.spaceBefore, o.operator, o.spaceAfter, o.rhs⟩, ho.lhs,
    ⟨ho.spaceBefore, ho.spaceAfter, ho.rhs⟩, hrest, rfl, by simp [Operation.text, Link.separator]⟩

/-- An operation starts with a digit or a sign. -/
theorem Operation.WellFormed.exists_start (ho : o.WellFormed) :
    ∃ c run, o.text = c :: run ∧ (c.isDigit || c == '-') = true := by
  obtain ⟨c, run, hrun, hc⟩ := ho.lhs.exists_start
  exact ⟨c, _, by rw [Operation.text, hrun]; rfl, hc⟩

/-- **Where an operation is read, no other operator is.** -/
theorem Operation.scan_of_scan (h : Operation.scan op t = some (o, rest)) (op' : Operator) :
    Operation.scan op' t = if op = op' then some (o, rest) else none := by
  obtain ⟨rfl, -, -, -⟩ := Operation.scan_eq_some_iff.1 h
  obtain ⟨l, hlhs, hl, hrest, hlink, rfl⟩ := Operation.exists_link h
  rw [scan_link hlhs hl hrest, hlink, ← hlink]
  rfl

theorem Operation.scan_unique {op' : Operator} {o' : Operation} {rest' : Text}
    (h : Operation.scan op t = some (o, rest)) (h' : Operation.scan op' t = some (o', rest')) :
    op = op' ∧ o = o' ∧ rest = rest' := by
  rw [Operation.scan_of_scan h] at h'
  split at h'
  · rename_i hop
    cases h'
    exact ⟨hop, rfl, rfl⟩
  · cases h'

/-- Which of several operators is read does not depend on their order. -/
theorem scanAny_eq_some_iff {operators : List Operator} :
    scanAny operators t = some (o, rest) ↔
      o.operator ∈ operators ∧ Operation.scan o.operator t = some (o, rest) := by
  constructor
  · intro h
    obtain ⟨op, hop, hscan⟩ := List.exists_of_findSome?_eq_some h
    obtain ⟨rfl, -, -, -⟩ := Operation.scan_eq_some_iff.1 hscan
    exact ⟨hop, hscan⟩
  · rintro ⟨hop, hscan⟩
    obtain ⟨l, hlhs, hl, hrest, hlink, rfl⟩ := Operation.exists_link hscan
    rw [← hlink] at hop
    rw [scanAny_link hlhs hl hrest, hlink]
    exact if_pos hop

end Scan

/-! ## The leftmost operation -/

/-- An operation with one of the operators stands in the text, and its left operand may start where
it does. -/
structure Occurrence.Stands (operators : List Operator) (t : Text) (occ : Occurrence) : Prop
    extends occ.In t where
  /-- The operator is one of those looked for. -/
  operator : occ.operation.operator ∈ operators
  /-- No operand ends right before the operation. -/
  fresh : ∀ c ∈ occ.operation.text.head?, followsOperand occ.before.reverse c = false

/-- No operation with one of the operators stands further to the left. -/
structure Occurrence.Leftmost (operators : List Operator) (t : Text) (occ : Occurrence) : Prop
    extends occ.Stands operators t where
  /-- All others start at the same place or behind it. -/
  first : ∀ other : Occurrence, other.Stands operators t →
    occ.before.length ≤ other.before.length

section Leftmost

variable {operators operators' : List Operator} {left t : Text} {c : Char} {occ occ' : Occurrence}

theorem Occurrence.In.scan (h : occ.In t) :
    Operation.scan occ.operation.operator (occ.operation.text ++ occ.after) =
      some (occ.operation, occ.after) :=
  Operation.scan_eq_some_iff.2 ⟨rfl, h.wellFormed, h.stops, rfl⟩

/-- **At one place there is one operation**, whatever the operators looked for. -/
theorem Occurrence.In.unique (h : occ.In t) (h' : occ'.In t)
    (hplace : occ.before.length = occ'.before.length) : occ = occ' := by
  obtain ⟨before, o, after⟩ := occ
  obtain ⟨before', o', after'⟩ := occ'
  have htext := h.text.symm.trans h'.text
  rw [List.append_assoc, List.append_assoc] at htext
  obtain ⟨rfl, htext⟩ := List.append_inj htext hplace
  have hscan' := h'.scan
  dsimp only at htext hscan'
  rw [← htext] at hscan'
  obtain ⟨-, rfl, rfl⟩ := Operation.scan_unique h.scan hscan'
  rfl

theorem Occurrence.Leftmost.unique (h : occ.Leftmost operators t)
    (h' : occ'.Leftmost operators t) : occ = occ' :=
  h.toIn.unique h'.toIn
    (Nat.le_antisymm (h.first occ' h'.toStands) (h'.first occ h.toStands))

/-- An operation stands behind `left` if it may start there and is read there. -/
theorem stands_iff {o : Operation} {after : Text} :
    Occurrence.Stands operators (left.reverse ++ c :: t) ⟨left.reverse, o, after⟩ ↔
      (c.isDigit || c == '-') = true ∧ followsOperand left c = false ∧
        scanAny operators (c :: t) = some (o, after) := by
  rw [scanAny_eq_some_iff]
  constructor
  · rintro ⟨hin, hop, hfresh⟩
    have htext : c :: t = o.text ++ after :=
      List.append_cancel_left (hin.text.trans (List.append_assoc _ _ _))
    obtain ⟨d, run, hrun, hd⟩ := hin.wellFormed.exists_start
    dsimp only at hrun hfresh
    obtain rfl : c = d := by
      rw [hrun] at htext
      exact (List.cons.inj htext).1
    rw [hrun, List.head?_cons, List.reverse_reverse] at hfresh
    exact ⟨hd, hfresh c rfl, hop, htext ▸ hin.scan⟩
  · rintro ⟨hc, hfollows, hop, hscan⟩
    obtain ⟨-, ho, hrest, htext⟩ := Operation.scan_eq_some_iff.1 hscan
    refine ⟨⟨?_, ho, hrest, ?_⟩, hop, ?_⟩
    · rw [htext, List.append_assoc]
    · rw [List.reverse_reverse]
      exact headNot_of_followsOperand hfollows
    · intro d hd
      obtain ⟨e, run, hrun, -⟩ := ho.exists_start
      dsimp only at hd
      rw [hrun] at htext hd
      cases htext
      cases hd
      rwa [List.reverse_reverse]

theorem Occurrence.Stands.before_eq {other : Occurrence}
    (h : other.Stands operators (left.reverse ++ t)) (hlength : other.before.length = left.length) :
    other.before = left.reverse := by
  have htext := h.text
  rw [List.append_assoc] at htext
  exact (List.append_inj_left htext (by rw [List.length_reverse, hlength])).symm

/-- Where nothing starts with the next character, everything behind `left` starts behind it, too. -/
theorem Occurrence.Stands.le_iff {other : Occurrence}
    (hhere : ¬ ∃ o after, Occurrence.Stands operators (left.reverse ++ c :: t)
      ⟨left.reverse, o, after⟩) (h : other.Stands operators (left.reverse ++ c :: t)) :
    left.length ≤ other.before.length ↔ (c :: left).length ≤ other.before.length := by
  refine ⟨fun hle => Nat.lt_of_le_of_ne hle fun hlength => hhere ?_, Nat.le_of_succ_le⟩
  have hbefore := h.before_eq hlength.symm
  obtain ⟨before, o, after⟩ := other
  dsimp only at hbefore
  subst hbefore
  exact ⟨o, after, h⟩

/-- Behind `left`, the search finds the leftmost operation that stands there. -/
theorem findOperation_eq_some_iff_behind :
    findOperation operators left t = some occ ↔
      occ.Stands operators (left.reverse ++ t) ∧ left.length ≤ occ.before.length ∧
        ∀ other : Occurrence, other.Stands operators (left.reverse ++ t) →
          left.length ≤ other.before.length → occ.before.length ≤ other.before.length := by
  induction t generalizing left with
  | nil =>
    refine iff_of_false (Option.some_ne_none occ).symm ?_
    rintro ⟨hstands, hle, -⟩
    have hlength := congrArg List.length hstands.text
    obtain ⟨d, run, hrun, -⟩ := hstands.wellFormed.exists_start
    rw [hrun] at hlength
    simp only [List.append_nil, List.length_reverse, List.length_append, List.length_cons]
      at hlength
    omega
  | cons c t ih =>
    by_cases hhere : ∃ o after, Occurrence.Stands operators (left.reverse ++ c :: t)
        ⟨left.reverse, o, after⟩
    · obtain ⟨o, after, hstands⟩ := hhere
      obtain ⟨hc, hfollows, hscan⟩ := stands_iff.1 hstands
      rw [findOperation_cons_of_some hc hfollows hscan, Option.some.injEq]
      constructor
      · rintro rfl
        exact ⟨hstands, by simp, fun other _ hle => by simpa using hle⟩
      · rintro ⟨hocc, hle, hfirst⟩
        have hle' := hfirst _ hstands (by simp)
        exact hstands.toIn.unique hocc.toIn (Nat.le_antisymm (by simpa using hle) hle')
    · -- Nothing starts with this character.
      have hnone : (c.isDigit || c == '-') = true → followsOperand left c = false →
          scanAny operators (c :: t) = none := by
        intro hc hfollows
        rw [Option.eq_none_iff_forall_ne_some]
        intro r hscan
        exact hhere ⟨r.1, r.2, stands_iff.2 ⟨hc, hfollows, hscan⟩⟩
      have htext : (c :: left).reverse ++ t = left.reverse ++ c :: t := by simp
      rw [findOperation_cons_of_none hnone, ih, htext]
      refine and_congr_right fun hocc => and_congr (hocc.le_iff hhere).symm ?_
      exact forall₂_congr fun _ hother => imp_congr_left (hother.le_iff hhere).symm

/-- **The search finds the leftmost operation.** -/
theorem findOperation_eq_some_iff :
    findOperation operators [] t = some occ ↔ occ.Leftmost operators t := by
  rw [findOperation_eq_some_iff_behind, List.reverse_nil, List.nil_append]
  constructor
  · rintro ⟨hstands, -, hfirst⟩
    exact ⟨hstands, fun other hother => hfirst other hother (Nat.zero_le _)⟩
  · intro h
    exact ⟨h.toStands, Nat.zero_le _, fun other hother _ => h.first other hother⟩

theorem Occurrence.Stands.mono (h : occ.Stands operators t)
    (hsubset : operators ⊆ operators') : occ.Stands operators' t :=
  ⟨h.toIn, hsubset h.operator, h.fresh⟩

/-- The search depends on which operators there are, and not on their order. -/
theorem findOperation_congr (h : ∀ op, op ∈ operators ↔ op ∈ operators') (t : Text) :
    findOperation operators [] t = findOperation operators' [] t := by
  have hstands : ∀ occ : Occurrence, occ.Stands operators t ↔ occ.Stands operators' t := fun occ =>
    ⟨fun hocc => hocc.mono fun op => (h op).1, fun hocc => hocc.mono fun op => (h op).2⟩
  refine Option.ext fun occ => ?_
  rw [findOperation_eq_some_iff, findOperation_eq_some_iff]
  constructor
  · exact fun hocc => ⟨(hstands occ).1 hocc.toStands,
      fun other hother => hocc.first other ((hstands other).2 hother)⟩
  · exact fun hocc => ⟨(hstands occ).2 hocc.toStands,
      fun other hother => hocc.first other ((hstands other).1 hother)⟩

end Leftmost

/-! ## Tiers with the same operators -/

section Tiers

variable {tiers tiers' : List (List Operator)}

/-- The next operation is the same if each tier has the same operators. -/
theorem nextOperation_congr
    (h : List.Forall₂ (fun operators operators' => ∀ op, op ∈ operators ↔ op ∈ operators')
      tiers tiers') (t : Text) : nextOperation tiers t = nextOperation tiers' t := by
  induction h with
  | nil => rfl
  | cons hop _ ih =>
    rw [nextOperation, nextOperation, List.findSome?_cons, List.findSome?_cons,
      findOperation_congr hop]
    cases findOperation _ [] t with
    | none => exact ih
    | some occ => rfl

/-- Tiers with the same next operations reduce a text in the same steps. -/
theorem reduceWithin_congr (h : ∀ t, nextOperation tiers t = nextOperation tiers' t) (steps : Nat)
    (t : Text) : reduceWithin tiers steps t = reduceWithin tiers' steps t := by
  induction steps generalizing t with
  | zero => rw [reduceWithin.eq_def, reduceWithin.eq_def tiers', h]
  | succ steps ih =>
    rw [reduceWithin.eq_def, reduceWithin.eq_def tiers', h]
    simp only [ih]

end Tiers

/-- **The order of the operators inside a tier never matters.**  At a place of a text at most one
operator is read, and with it one operation, so that a tier has one leftmost operation at most,
which is the one found.  If the operators change places inside their tiers, a text is reduced as
before: with the same value or error, and by the same steps with the same texts in between. -/
theorem order_in_tiers (t : Text) :
    (∀ place op op' o o' rest rest', Operation.scan op (t.drop place) = some (o, rest) →
      Operation.scan op' (t.drop place) = some (o', rest') → op = op' ∧ o = o' ∧ rest = rest') ∧
    (∀ operators occ, findOperation operators [] t = some occ ↔ occ.Leftmost operators t) ∧
    (∀ operators (occ occ' : Occurrence), occ.Leftmost operators t → occ'.Leftmost operators t →
      occ = occ') ∧
    ∀ tiers, List.Forall₂ List.Perm tiers Operator.tiers →
      nextOperation tiers t = nextOperation Operator.tiers t ∧
      (∀ steps, reduceWithin tiers steps t = reduceWithin Operator.tiers steps t) ∧
      ∀ s : Session, (reduceWithin tiers (operandCount t) t).run s = (reduce t).run s := by
  refine ⟨fun _ _ _ _ _ _ _ h h' => Operation.scan_unique h h',
    fun _ _ => findOperation_eq_some_iff, fun _ _ _ h h' => h.unique h', fun tiers htiers => ?_⟩
  have hnext : ∀ t, nextOperation tiers t = nextOperation Operator.tiers t :=
    nextOperation_congr (htiers.imp fun _ _ hperm _ => hperm.mem_iff)
  exact ⟨hnext t, fun steps => reduceWithin_congr hnext steps t, fun s => by
    rw [reduceWithin_congr hnext, reduce]⟩

/-- Both divisions in one text, and the operators of each tier in the opposite order. -/
theorem order_in_tiers_divisions :
    let t : Text := ['7', '/', '/', '2', ' ', '/', '-', '1', '-', '3']
    let tiers : List (List Operator) :=
      [[.power], [.modulo, .divide, .floorDivide, .multiply], [.subtract, .add]]
    let occ : Occurrence := ⟨[], ⟨⟨false, ['7'], []⟩, [], .floorDivide, [], ⟨false, ['2'], []⟩⟩,
      [' ', '/', '-', '1', '-', '3']⟩
    List.Forall₂ List.Perm tiers Operator.tiers ∧
      Operation.scan .floorDivide (t.drop 0) = some (occ.operation, occ.after) ∧
      Operation.scan .divide (t.drop 0) = none ∧
      occ.Leftmost [.modulo, .divide, .floorDivide, .multiply] t ∧
      (reduceWithin tiers (operandCount t) t).run {} = (reduce t).run {} := by
  intro t tiers occ
  obtain ⟨hscan, hfind, -, htiers⟩ := order_in_tiers t
  have hperm : List.Forall₂ List.Perm tiers Operator.tiers :=
    .cons (.refl _) (.cons (by decide) (.cons (by decide) .nil))
  have hfloor : Operation.scan .floorDivide (t.drop 0) = some (occ.operation, occ.after) := by
    decide
  refine ⟨hperm, hfloor, ?_, (hfind _ occ).1 rfl, (htiers tiers hperm).2.2 {}⟩
  rw [Option.eq_none_iff_forall_ne_some]
  rintro ⟨o, rest⟩ hdivide
  cases (hscan 0 _ _ _ _ _ _ hfloor hdivide).1

end EquationFigure
