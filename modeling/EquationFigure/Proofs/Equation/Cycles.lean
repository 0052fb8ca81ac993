import EquationFigure.Proofs.Equation.Adequacy
import EquationFigure.Proofs.Equation.Recording
import Mathlib.Data.List.Dedup
import Mathlib.Logic.Relation

/-!
# Cycles of formulas

While the formula of a name is evaluated, the name is pending, and coming to it again is reported as
a cycle.  The pending names are a chain: the formula of each refers to the next one.  A formula
refers to the names written in it, and also to `inf` if one of them stands for an infinity, which is
written with that name.

* `Refers vars t name`, `Links vars t ns t'` — the names that an equation refers to, and the chains
  of names by which one equation leads to another.
* `LooksUp`, `Calls` — the names that a call comes to, and the calls that it makes for them.
* `Activation.Linked` — what holds of every nested call; `Calls.linked` is the step.
* `evaluateAt_eq_error` — where an evaluation fails.
* `evaluateAt_eq_cyclic` — a cycle is reported where a call comes to a name that is pending.
* `cyclic_dependency_spec` — pending names, reported cycles and values found, all in terms of
  chains.
-/

set_option autoImplicit false

namespace EquationFigure

open Text EvalM

/-! ## What equations refer to -/

/-- The equation refers to the name: the name is written in it, or it is `inf` and something written
in it stands for an infinity. -/
def Refers (vars : Variables) (t name : Text) : Prop :=
  name ∈ names t ∨
    name = infName ∧ ∃ other ∈ names t, ∃ x, ValueOf vars other x ∧ x.isFinite = false

/-- The first equation leads to the last one: it refers to the first of the names, the formula of
each name to the next one, and the last equation is the formula of the last name. -/
inductive Links (vars : Variables) : Text → List Text → Text → Prop
  | nil (t : Text) : Links vars t [] t
  | cons {t f t' name : Text} {ns : List Text} : Refers vars t name →
    vars.value name = .ok (.formula f) → Links vars f ns t' → Links vars t (name :: ns) t'

/-- The names of the variables that are switched on and have a formula. -/
def Variables.formulaNames (vars : Variables) : List Text :=
  vars.names.dedup.filter fun name =>
    match vars.value name with
    | .ok (.formula _) => true
    | _ => false

section Links

variable {vars : Variables} {t t' f name : Text} {ns : List Text}

/-- If nothing stands for an infinity, an equation refers to what is written in it. -/
theorem refers_iff (h : ∀ n x, ValueOf vars n x → x.isFinite = true) :
    Refers vars t name ↔ name ∈ names t := by
  refine or_iff_left ?_
  rintro ⟨-, other, -, x, hx, hfin⟩
  rw [h other x hx] at hfin
  cases hfin

/-- An equation with a name that stands for an infinity refers to `inf`. -/
theorem Refers.infName {x : Float} (h : Refers vars t name) (hx : ValueOf vars name x)
    (hfin : x.isFinite = false) : Refers vars t infName := by
  rcases h with hmem | ⟨rfl, hother⟩
  · exact .inr ⟨rfl, name, hmem, x, hx, hfin⟩
  · exact .inr ⟨rfl, hother⟩

theorem Links.append {t'' : Text} {ns' : List Text} (h : Links vars t ns t')
    (h' : Links vars t' ns' t'') : Links vars t (ns ++ ns') t'' := by
  induction h with
  | nil => exact h'
  | cons hrefers hf _ ih => exact .cons hrefers hf (ih h')

/-- A chain can be cut in front of any of its names. -/
theorem Links.split {front back : List Text} (h : Links vars t (front ++ name :: back) t') :
    ∃ t₁ f, Links vars t front t₁ ∧ Refers vars t₁ name ∧ vars.value name = .ok (.formula f) ∧
      Links vars f back t' := by
  induction front generalizing t with
  | nil =>
    cases h with
    | cons hrefers hf hback => exact ⟨t, _, .nil t, hrefers, hf, hback⟩
  | cons n front ih =>
    cases h with
    | cons hrefers hf hrest =>
      obtain ⟨t₁, g, hfront, hrest⟩ := ih hrest
      exact ⟨t₁, g, .cons hrefers hf hfront, hrest⟩

theorem Links.exists_formula (h : Links vars t ns t') (hmem : name ∈ ns) :
    ∃ f, vars.value name = .ok (.formula f) := by
  obtain ⟨front, back, rfl⟩ := List.append_of_mem hmem
  obtain ⟨-, f, -, -, hf, -⟩ := h.split
  exact ⟨f, hf⟩

theorem mem_formulaNames (h : vars.value name = .ok (.formula f)) : name ∈ vars.formulaNames := by
  refine List.mem_filter.2 ⟨List.mem_dedup.2 ?_, by rw [h]⟩
  rw [Variables.value] at h
  split at h
  · cases h
  · rename_i hget
    by_contra hname
    rw [Table.get?_eq_none_iff.2 hname] at hget
    cases hget

/-- A chain without repetition is no longer than there are formulas. -/
theorem Links.length_le (h : Links vars t ns t') (hnodup : ns.Nodup) :
    ns.length ≤ vars.formulaNames.length := by
  refine (List.subperm_of_subset hnodup fun name hmem => ?_).length_le
  obtain ⟨f, hf⟩ := h.exists_formula hmem
  exact mem_formulaNames hf

end Links

/-! ## Calls -/

/-- A call for the evaluation of an equation. -/
structure Activation where
  /-- How many more levels of nesting are allowed. -/
  levels : Nat
  /-- The names being evaluated, the outermost first. -/
  pending : List Text
  /-- The equation. -/
  equation : Text
  /-- What is remembered when the call is made. -/
  session : Session

/-- The call for an equation in a fresh session. -/
def Activation.fresh (options : EvalOptions) (t : Text) : Activation :=
  ⟨options.maxDepth + 1, [], t, {}⟩

/-- What the call looks names up with. -/
def Activation.value (vars : Variables) (limit : Nat) (a : Activation) : Text → EvalM Float :=
  lookUp vars (evaluateAt vars limit (a.levels - 1)) a.pending (limit - (a.levels - 1))

/-- The call comes to the name, in this session, when it replaces the names of its equation from
left to right. -/
def LooksUp (vars : Variables) (limit : Nat) (a : Activation) (name : Text) (s : Session) : Prop :=
  0 < a.levels ∧ ∃ splices t before after,
    Rewrites (a.value vars limit) (limit - (a.levels - 1)) (equationBody a.equation) a.session
      splices t s ∧
    firstName? t = some (before, name, after)

/-- The first call makes the second one, for a name that has a formula, is not pending and has no
value in the cache. -/
inductive Calls (vars : Variables) (limit : Nat) : Activation → Activation → Prop
  | mk {a : Activation} {name f : Text} {s : Session} : LooksUp vars limit a name s →
    vars.value name = .ok (.formula f) → name ∉ a.pending → s.cache.get? name = none →
    Calls vars limit a ⟨a.levels - 1, a.pending ++ [name], f, s⟩

/-- What holds of every call nested in that for the equation `t`. -/
structure Activation.Linked (vars : Variables) (t : Text) (a : Activation) : Prop where
  /-- No name is pending twice. -/
  nodup : a.pending.Nodup
  /-- The pending names are a chain from the equation to that of the call. -/
  links : Links vars t a.pending a.equation
  /-- The values in the cache are those of their names. -/
  valued : a.session.Valued vars

section Calls

variable {vars : Variables} {limit depth : Nat} {t t' name : Text} {s s' : Session}
  {splices : List Splice}

/-- **Whatever name the loop comes to, the text that it started with refers to it.** -/
theorem Rewrites.refers {value : Text → EvalM Float}
    (hvalue : ∀ name, Attempt.Ends (Session.Valued vars) (ValueOf vars name) (fun _ => True)
      (value name))
    (h : Rewrites value depth t s splices t' s') (hs : s.Valued vars) (hname : name ∈ names t') :
    Refers vars t name := by
  induction h with
  | done => exact .inl hname
  | @step t t' s s₁ s' splice splices hfirst hrun _ _ ih =>
    have hends := hvalue splice.name s hs
    rw [hrun] at hends
    obtain ⟨hs₁, hx, -⟩ := hends
    have hx := hx _ rfl
    have hreplaced : splice.name ∈ names t := by
      rw [names_of_some hfirst]
      exact List.mem_cons_self
    -- An infinity brings in `inf`, to which the text refers because of it.
    have hall : ∀ n ∈ names splice.text, Refers vars t n :=
      wanted_of_splice hfirst hx.isNaN
        (fun hfin => .inr ⟨rfl, splice.name, hreplaced, splice.value, hx, hfin⟩)
        fun n hn => .inl hn
    rcases ih hs₁ hname with hmem | ⟨heq, other, hother, hvalue⟩
    · exact hall name hmem
    · rcases hall other hother with hmem | ⟨-, hinf⟩
      · exact .inr ⟨heq, other, hmem, hvalue⟩
      · exact .inr ⟨heq, hinf⟩

theorem Rewrites.valued {value : Text → EvalM Float}
    (hvalue : ∀ name, Attempt.Ends (Session.Valued vars) (ValueOf vars name) (fun _ => True)
      (value name))
    (h : Rewrites value depth t s splices t' s') (hs : s.Valued vars) : s'.Valued vars := by
  induction h with
  | done => exact hs
  | @step t t' s s₁ s' splice splices _ hrun _ _ ih =>
    have hends := hvalue splice.name s hs
    rw [hrun] at hends
    exact ih hends.1

theorem Activation.ends_value (a : Activation) (name : Text) :
    Attempt.Ends (Session.Valued vars) (ValueOf vars name) (fun _ => True)
      (a.value vars limit name) :=
  ends_lookUp (invariant_valued vars) (fun pending f => ends_evaluateAt vars limit _ pending f) _ _
    (remembers_valued name)

/-- **A call comes only to names to which its equation refers.** -/
theorem LooksUp.refers {a : Activation} (h : LooksUp vars limit a name s)
    (ha : a.session.Valued vars) : Refers vars a.equation name ∧ s.Valued vars := by
  obtain ⟨-, splices, t, before, after, hrun, hfirst⟩ := h
  have hrefers := hrun.refers a.ends_value ha
    (names_of_some hfirst ▸ List.mem_cons_self : name ∈ names t)
  rw [Refers, names_equationBody] at hrefers
  exact ⟨hrefers, hrun.valued a.ends_value ha⟩

theorem Activation.linked_fresh (options : EvalOptions) (t : Text) :
    (Activation.fresh options t).Linked vars t :=
  ⟨List.nodup_nil, .nil t, valued_empty vars⟩

/-- **A nested call adds one name to the chain**, which was not in it. -/
theorem Calls.linked {a b : Activation} (h : Calls vars limit a b) (ha : a.Linked vars t) :
    b.Linked vars t := by
  cases h with
  | mk hlooks hf hpending _ =>
    obtain ⟨hrefers, hs⟩ := hlooks.refers ha.valued
    refine ⟨?_, ha.links.append (.cons hrefers hf (.nil _)), hs⟩
    exact List.nodup_append.2 ⟨ha.nodup, List.nodup_singleton _, by
      rintro n hn m hm rfl
      exact hpending (List.mem_singleton.1 hm ▸ hn)⟩

/-- So the pending names of every nested call are a chain. -/
theorem linked_of_calls {a b : Activation} (h : Relation.ReflTransGen (Calls vars limit) a b)
    (ha : a.Linked vars t) : b.Linked vars t := by
  induction h with
  | refl => exact ha
  | tail _ hcall ih => exact hcall.linked ih

end Calls

/-! ## Where cycles are reported -/

section Report

variable {vars : Variables} {limit depth : Nat} {t name : Text} {chain : List Text} {s : Session}

/-- If the loop fails, then because of the name that it has come to, or because the value of the
name is written like the name, or because it has gone on for too long. -/
theorem exists_rewrites_of_error {value : Text → EvalM Float} {times : Nat} {e : EvalError}
    (h : ((substituteWithin vars value depth times t).run s).1 = .error e) :
    (∃ splices t' s' before name after, Rewrites value depth t s splices t' s' ∧
        firstName? t' = some (before, name, after) ∧ ((value name).run s').1 = .error e) ∨
      (∃ name, e = vars.undefined name) ∨ ∃ u, e = .endlessSubstitution u := by
  induction times generalizing t s with
  | zero =>
    rw [substituteWithin.eq_def] at h
    split at h
    · cases h
    · cases h
      exact .inr (.inr ⟨_, rfl⟩)
  | succ times ih =>
    rw [substituteWithin.eq_def] at h
    split at h
    · cases h
    · rename_i before name after hfirst
      rw [Attempt.run_bind] at h
      cases hrun : (value name).run s with
      | mk r s₁ =>
        rw [hrun] at h
        cases r with
        | error e' =>
          refine .inl ⟨[], t, s, before, name, after, .done t s, hfirst, ?_⟩
          cases h
          rw [hrun]
        | ok x =>
          dsimp only at h
          split at h
          · cases h
            exact .inr (.inl ⟨_, rfl⟩)
          · rename_i hne
            let splice : Splice := ⟨before, name, x, after⟩
            rcases ih (t := splice.text) (s := ((record (splice.event depth)).run s₁).2) h with
              ⟨splices, t', s', b, n, a, hrewrites, hfirst', herr⟩ | hother
            · exact .inl ⟨splice :: splices, t', s', b, n, a, .step hfirst hrun hne hrewrites,
                hfirst', herr⟩
            · exact .inr hother

/-- **Where an evaluation fails**: when its names are gone, at a name that it comes to, or when a
name cannot be replaced. -/
theorem evaluateAt_eq_error {levels : Nat} {pending : List Text} {e : EvalError}
    (h : ((evaluateAt vars limit (levels + 1) pending t).run s).1 = .error e) :
    (∃ u, ((substitute vars (lookUp vars (evaluateAt vars limit levels) pending (limit - levels))
          (limit - levels) (equationBody t)).run s).1 = .ok u ∧
        (resolve limit levels u).outcome = .error e) ∨
      (∃ other s', LooksUp vars limit ⟨levels + 1, pending, t, s⟩ other s' ∧
        ((lookUp vars (evaluateAt vars limit levels) pending (limit - levels) other).run s').1 =
          .error e) ∨
      (∃ name, e = vars.undefined name) ∨ ∃ u, e = .endlessSubstitution u := by
  rw [evaluateAt_succ, evaluateUsing] at h
  rcases Attempt.run_bind_eq_error.1 (Prod.ext h rfl) with hsub | ⟨u, s₁, hsub, hres⟩
  · rcases exists_rewrites_of_error (congrArg Prod.fst hsub) with
      ⟨splices, t', s', before, other, after, hrewrites, hfirst, herr⟩ | hother
    · exact .inr (.inl ⟨other, s', ⟨Nat.succ_pos _, splices, t', before, after, hrewrites, hfirst⟩,
        herr⟩)
    · exact .inr (.inr hother)
  · exact .inl ⟨u, congrArg Prod.fst hsub,
      ((quiet_resolve limit levels u).outcome s₁).symm.trans (congrArg Prod.fst hres)⟩

/-- Looking a name up reports a cycle if the name is pending, and otherwise only if the evaluation
of its formula does. -/
theorem lookUp_eq_cyclic {evaluate : List Text → Text → EvalM Float} {pending : List Text}
    {other : Text}
    (h : ((lookUp vars evaluate pending depth other).run s).1 =
      .error (.cyclicDependency name chain)) :
    (other ∈ pending ∧ name = other ∧ chain = pending.dropWhile (· != name) ++ [name]) ∨
      other ∉ pending ∧ s.cache.get? other = none ∧ ∃ f, vars.value other = .ok (.formula f) ∧
        ((evaluate (pending ++ [other]) f).run s).1 = .error (.cyclicDependency name chain) := by
  rcases lookUp_eq_error h with (hundefined | hdisabled | hnumber) | ⟨hp, hcycle⟩ | hformula
  · cases hundefined
  · cases hdisabled
  · cases hnumber
  · cases hcycle
    exact .inl ⟨hp, rfl, rfl⟩
  · exact .inr hformula

/-- **A cycle is reported where a call comes to a name that is pending.** -/
theorem evaluateAt_eq_cyclic {levels : Nat} {pending : List Text}
    (h : ((evaluateAt vars limit levels pending t).run s).1 =
      .error (.cyclicDependency name chain)) :
    ∃ a s', Relation.ReflTransGen (Calls vars limit) ⟨levels, pending, t, s⟩ a ∧
      LooksUp vars limit a name s' ∧ name ∈ a.pending ∧
      chain = a.pending.dropWhile (· != name) ++ [name] := by
  induction levels generalizing pending t s with
  | zero => cases h
  | succ levels ih =>
    rcases evaluateAt_eq_error h with ⟨u, -, hres⟩ | ⟨other, s', hlooks, herr⟩ | ⟨_, hundefined⟩ |
      ⟨_, hendless⟩
    · exact ((KeptByRewrites.always.resolve limit levels u _ trivial).2.2 _ hres).elim
    · rcases lookUp_eq_cyclic herr with ⟨hp, rfl, rfl⟩ | ⟨hp, hcached, f, hf, herr⟩
      · exact ⟨_, s', .refl, hlooks, hp, rfl⟩
      · obtain ⟨a, s'', hcalls, hfound⟩ := ih herr
        exact ⟨a, s'', .head (.mk hlooks hf hp hcached) hcalls, hfound⟩
    · cases hundefined
    · cases hendless

end Report

/-! ## Cycles -/

/-- The equation leads to the name, by way of formulas. -/
def LeadsTo (vars : Variables) (t name : Text) : Prop :=
  ∃ ns t', Links vars t ns t' ∧ Refers vars t' name

/-- The formula of the name leads back to it, by way of the other names. -/
def IsCycle (vars : Variables) (name : Text) (others : List Text) : Prop :=
  ∃ f t, vars.value name = .ok (.formula f) ∧ Links vars f others t ∧ Refers vars t name

section Cycle

variable {vars : Variables} {t t' f name other : Text} {ns : List Text} {x : Float}

/-- A pending name to which the last formula refers closes a cycle. -/
theorem Links.exists_cycle (h : Links vars t ns t') (hname : name ∈ ns)
    (hrefers : Refers vars t' name) (hnodup : ns.Nodup) :
    ∃ others, ns.dropWhile (· != name) = name :: others ∧ (name :: others).Nodup ∧
      IsCycle vars name others ∧ LeadsTo vars t name := by
  obtain ⟨front, back, rfl, hfront⟩ := List.eq_append_cons_of_mem hname
  obtain ⟨t₁, f, hlinks, hfirst, hf, hback⟩ := h.split
  refine ⟨back, ?_, (List.nodup_append.1 hnodup).2.1, ⟨f, t', hf, hback, hrefers⟩,
    front, t₁, hlinks, hfirst⟩
  rw [List.dropWhile_append_of_pos, List.dropWhile_cons_of_neg (by simp)]
  intro n hn
  rw [bne_iff_ne]
  rintro rfl
  exact hfront hn

/-- Everything to which an equation with a value refers has a value. -/
theorem HasValue.exists_valueOf {value : Text → Float → Prop} (h : HasValue value t x)
    (hvalue : ∀ n y, value n y → ValueOf vars n y) (hrefers : Refers vars t name) :
    ∃ y, value name y := by
  obtain ⟨u, hu, -⟩ := h
  rcases hrefers with hmem | ⟨rfl, other, hmem, y, hy, hfin⟩
  · exact hu.exists_value (names_equationBody t ▸ hmem)
  · have hexpands : ∃ s, Expands value other s :=
      hu.exists_expands (names_equationBody t ▸ hmem)
    obtain ⟨s, hs⟩ := hexpands
    cases hs with
    | number hz hzfin =>
      rw [(hvalue _ _ hz).unique hy, hfin] at hzfin
      cases hzfin
    | infinity _ _ hinf => exact ⟨_, hinf⟩

/-- The formula of a name that has a value leads to no cycle. -/
theorem ValueOf.acc (h : ValueOf vars name x) :
    Acc (fun m n => ∃ f, vars.value n = .ok (.formula f) ∧ Refers vars f m) name := by
  induction h with
  | number hname =>
    refine ⟨_, fun m hm => ?_⟩
    obtain ⟨f, hf, -⟩ := hm
    rw [hname] at hf
    cases hf
  | formula hname hvalue hx ih =>
    refine ⟨_, fun m hm => ?_⟩
    obtain ⟨f, hf, hrefers⟩ := hm
    rw [hname] at hf
    cases hf
    obtain ⟨y, hy⟩ := hx.exists_valueOf hvalue hrefers
    exact ih m y hy

/-- A chain of formulas goes down, step by step. -/
theorem Links.transGen (h : Links vars f ns t) (hname : vars.value name = .ok (.formula f))
    (hrefers : Refers vars t other) :
    Relation.TransGen (fun m n => ∃ f, vars.value n = .ok (.formula f) ∧ Refers vars f m) other
      name := by
  induction h generalizing name with
  | nil => exact .single ⟨_, hname, hrefers⟩
  | cons hfirst hf _ ih => exact .tail (ih hf hrefers) ⟨_, hname, hfirst⟩

theorem not_of_acc {α : Type} {r : α → α → Prop} {a : α} (h : Acc r a) : ¬ r a a := by
  induction h with
  | intro a _ ih => exact fun haa => ih a haa haa

/-- A name with a value is on no cycle. -/
theorem ValueOf.not_isCycle (h : ValueOf vars name x) (others : List Text) :
    ¬ IsCycle vars name others := by
  rintro ⟨f, t, hf, hlinks, hrefers⟩
  exact not_of_acc h.acc.transGen (hlinks.transGen hf hrefers)

/-- Everything to which an equation with a value leads has a value. -/
theorem HasValue.valueOf_of_leadsTo (h : HasValue (ValueOf vars) t x)
    (hleads : LeadsTo vars t name) : ∃ y, ValueOf vars name y := by
  obtain ⟨ns, t', hlinks, hrefers⟩ := hleads
  induction hlinks generalizing x with
  | nil => exact h.exists_valueOf (fun _ _ hy => hy) hrefers
  | cons hfirst hf _ ih =>
    obtain ⟨y, hy⟩ := h.exists_valueOf (fun _ _ hy => hy) hfirst
    exact ih ((valueOf_formula_iff hf).1 hy) hrefers

theorem ValueOf.exists_value (h : ValueOf vars name x) : ∃ value, vars.value name = .ok value := by
  cases h with
  | number hname => exact ⟨_, hname⟩
  | formula hname => exact ⟨_, hname⟩

/-- **Cycles are found, and nothing else is taken for one.**  At every nested call the pending names
are different names with formulas, each of which refers to the next one, so there are no more of
them than formulas.  A reported cycle is one: different names with formulas, each of which refers to
the next one and the last to the first, and the equation leads to it.  If a value is found, every
name to which the equation leads is declared and switched on, and none is on a cycle.  What a
formula refers to is what is written in it, unless something stands for an infinity: that is written
`inf`, which is looked up like a name of the formula. -/
theorem cyclic_dependency_spec (vars : Variables) (options : EvalOptions) (t : Text) :
    (∀ a, Relation.ReflTransGen (Calls vars options.maxDepth) (.fresh options t) a →
      a.pending.Nodup ∧ Links vars t a.pending a.equation ∧
        a.pending.length ≤ vars.formulaNames.length) ∧
    (∀ name chain, evaluateFresh vars options t = .error (.cyclicDependency name chain) →
      ∃ others, chain = name :: (others ++ [name]) ∧ (name :: others).Nodup ∧
        IsCycle vars name others ∧ LeadsTo vars t name) ∧
    (∀ x, evaluateFresh vars options t = .ok x → ∀ name, LeadsTo vars t name →
      (∃ value, vars.value name = .ok value) ∧ ∀ others, ¬ IsCycle vars name others) ∧
    ((∀ name x, ValueOf vars name x → x.isFinite = true) →
      ∀ t' name, Refers vars t' name ↔ name ∈ names t') := by
  have hfresh : (Activation.fresh options t).Linked vars t := Activation.linked_fresh options t
  refine ⟨fun a hcalls => ?_, fun name chain hchain => ?_, fun x hx name hleads => ?_,
    fun hfin t' name => refers_iff hfin⟩
  · have ha := linked_of_calls hcalls hfresh
    exact ⟨ha.nodup, ha.links, ha.links.length_le ha.nodup⟩
  · obtain ⟨a, s, hcalls, hlooks, hpending, rfl⟩ := evaluateAt_eq_cyclic hchain
    have ha := linked_of_calls hcalls hfresh
    obtain ⟨others, heq, hcycle⟩ :=
      ha.links.exists_cycle hpending (hlooks.refers ha.valued).1 ha.nodup
    exact ⟨others, by rw [heq, List.cons_append], hcycle⟩
  · obtain ⟨y, hy⟩ := (hasValue_of_evaluateFresh hx).valueOf_of_leadsTo hleads
    exact ⟨hy.exists_value, hy.not_isCycle⟩

end Cycle

/-- The table in which `x` and `y` have each other for a formula. -/
def twoCycleTable : Variables :=
  .ofList [(['x'], .ofFormula ['y']), (['y'], .ofFormula ['x', '+', '1'])]

/-- The cycle that is reported when `x` is evaluated is one. -/
theorem isCycle_twoCycleTable :
    evaluateFresh twoCycleTable {} ['x'] = .error (.cyclicDependency ['x'] [['x'], ['y'], ['x']]) ∧
      LeadsTo twoCycleTable ['x'] ['x'] ∧ IsCycle twoCycleTable ['x'] [['y']] := by
  have herr : evaluateFresh twoCycleTable {} ['x'] =
      .error (.cyclicDependency ['x'] [['x'], ['y'], ['x']]) := by decide +kernel
  obtain ⟨others, heq, -, hcycle, hleads⟩ :=
    (cyclic_dependency_spec twoCycleTable {} ['x']).2.1 _ _ herr
  obtain rfl : others = [['y']] := (List.append_cancel_right (List.cons.inj heq).2).symm
  exact ⟨herr, hleads, hcycle⟩

/-- The table in which the formula of `inf` is `y`, that of `y` is `5x`, and `x` is a number in
range, but not with another digit in front. -/
def infinityCycleTable : Variables :=
  .ofList [(['x'], .ofFormula ('1' :: List.replicate 308 '0')), (['y'], .ofFormula ['5', 'x']),
    (infName, .ofFormula ['y'])]

/-- **A name is reported that is on no cycle of written names.**  The literals are in range, and
what is written leads from `inf` to `y`, from there to `x`, and no further. -/
theorem infinityCycleTable_no_cycle :
    evaluateFresh infinityCycleTable {} infName =
        .error (.cyclicDependency infName [infName, infName]) ∧
      (∃ f, infinityCycleTable.value infName = .ok (.formula f) ∧ infName ∉ names f) ∧
      Numeral.InRange ⟨false, '1' :: List.replicate 308 '0', []⟩ := by
  have hfirst : firstName? ['y'] = some ([], ['y'], []) := by decide
  refine ⟨by decide +kernel, ⟨['y'], rfl, ?_⟩, ?_⟩
  · rw [names_of_some hfirst, names_of_none rfl]
    decide
  · rw [Numeral.InRange]
    decide +kernel

end EquationFigure
